import Mathlib.Logic.Relation
import SimplePki.Gateway
import SimplePki.Proofs.Key.Call
import SimplePki.Proofs.Key.Identity

/-!
# The registry of a process

A process takes its registry from the first call that offers one: all algorithms, a registry of the
caller's, or the algorithms that the policy of a gateway names.  A policy that names none, or that
names something else, offers nothing, and is refused whatever is installed already.

Since the registry is written once, whatever was hashed or read once is hashed and read in the same
way ever after.  That includes the hashes of keys that were given none, whatever the keys were asked
in between.  Before there is a registry only keys that are known by hashes answer, and they need
none.

## Main definitions

* `Policy.isUsable`, `Policy.named`: the policies that are not refused, and what they offer
* `Process.Call`, `Process.run`: the calls that may install a registry
* `Process.Moment`, `Process.Moment.Step`: a process and one of its keys, from one event to the next

## Main results

* `Gateway.new_of_isUsable`, `Gateway.new_of_not_isUsable`: what a new gateway leaves behind
* `Process.run_eq`: the first registry that is offered is installed for good
* `Process.Moment.answer_of_steps`: answers stay
* `Process.registry_is_written_once`: all of it together, for every sequence of calls
-/

namespace SimplePki

/-! ### What a policy offers -/

namespace Registry

variable {names : List String}

/-- Names of algorithms are inserted, and no others are. -/
theorem insertNames_of_known (registry : Registry)
    (h : ∀ name ∈ names, ∃ alg : DigestAlgorithm, alg.name = name) :
    registry.insertNames names =
      .ok ⟨fun alg => registry.holds alg || names.contains alg.name⟩ := by
  induction names generalizing registry with
  | nil => simp [insertNames]
  | cons name names ih =>
    obtain ⟨known, rest⟩ := List.forall_mem_cons.mp h
    obtain ⟨alg, rfl⟩ := known
    rw [insertNames, DigestAlgorithm.ofName?_name]
    dsimp only
    rw [ih _ rest]
    -- an algorithm is inserted by its name, and names belong to one algorithm each
    refine congrArg Except.ok (ext fun other => ?_)
    have sameName : (other.name == alg.name) = (other == alg) := by
      rw [Bool.eq_iff_iff, beq_iff_eq, beq_iff_eq]
      exact ⟨DigestAlgorithm.name_injective, congrArg _⟩
    simp only [insert, List.contains_cons, sameName]
    cases other == alg <;> simp

/-- The first name of no algorithm is the error. -/
theorem insertNames_of_unknown (registry : Registry)
    (h : ¬∀ name ∈ names, ∃ alg : DigestAlgorithm, alg.name = name) :
    ∃ name ∈ names, (¬∃ alg : DigestAlgorithm, alg.name = name) ∧
      registry.insertNames names = .error name := by
  induction names generalizing registry with
  | nil => exact absurd (fun _ mem => absurd mem List.not_mem_nil) h
  | cons name names ih =>
    by_cases known : ∃ alg : DigestAlgorithm, alg.name = name
    · obtain ⟨alg, rfl⟩ := known
      have rest : ¬∀ name ∈ names, ∃ alg : DigestAlgorithm, alg.name = name :=
        fun all => h (List.forall_mem_cons.mpr ⟨⟨alg, rfl⟩, all⟩)
      obtain ⟨wrong, mem, unknown, refused⟩ := ih (registry.insert alg) rest
      refine ⟨wrong, List.mem_cons_of_mem _ mem, unknown, ?_⟩
      rw [insertNames, DigestAlgorithm.ofName?_name]
      exact refused
    · have absent : DigestAlgorithm.ofName? name = none := by
        cases found : DigestAlgorithm.ofName? name with
        | none => rfl
        | some alg => exact absurd ⟨alg, DigestAlgorithm.ofName?_eq_some_iff.mp found⟩ known
      refine ⟨name, List.mem_cons_self, known, ?_⟩
      rw [insertNames, absent]

end Registry

/-- Whether a policy names an algorithm, and nothing but algorithms. -/
def Policy.isUsable (policy : Policy) : Bool :=
  !policy.digestAlgorithms.isEmpty &&
    policy.digestAlgorithms.all fun name => Registry.standard.names.contains name

/-- The algorithms that a policy names. -/
def Policy.named (policy : Policy) : Registry :=
  ⟨fun alg => policy.digestAlgorithms.contains alg.name⟩

theorem Policy.isUsable_iff {policy : Policy} :
    policy.isUsable = true ↔ policy.digestAlgorithms ≠ [] ∧
      ∀ name ∈ policy.digestAlgorithms, ∃ alg : DigestAlgorithm, alg.name = name := by
  have known (name : String) :
      name ∈ Registry.standard.names ↔ ∃ alg : DigestAlgorithm, alg.name = name := by
    simp [Registry.names, Registry.mem_algorithms_iff, Registry.standard]
  simp [isUsable, known]

namespace Gateway

variable {policy : Policy}

/-- A policy that is usable is accepted, and what it names is installed where nothing was. -/
theorem new_of_isUsable (installed : Installed) (h : policy.isUsable = true) :
    Gateway.new installed policy = (.ok ⟨policy, .empty⟩, some (installed.getD policy.named)) := by
  obtain ⟨nonempty, known⟩ := Policy.isUsable_iff.mp h
  have registry : Registry.ofNamesChecked policy.digestAlgorithms = .ok policy.named := by
    rw [Registry.ofNamesChecked, Registry.ofNames, Registry.insertNames_of_known _ known]
    rfl
  rw [Gateway.new, if_neg (by simpa using nonempty), registry]
  dsimp only
  rw [Installed.install_fst]

/-- Any other policy is refused, for want of names or for a name of no algorithm, and nothing is
installed. -/
theorem new_of_not_isUsable (installed : Installed) (h : policy.isUsable ≠ true) :
    ∃ error, Gateway.new installed policy = (.error error, installed) ∧
      (error = .noAlgorithms ∨ ∃ name ∈ policy.digestAlgorithms,
        (¬∃ alg : DigestAlgorithm, alg.name = name) ∧
          error = .core (.unknownAlgorithm name)) := by
  rw [ne_eq, Policy.isUsable_iff, not_and] at h
  by_cases nonempty : policy.digestAlgorithms = []
  · refine ⟨.noAlgorithms, ?_, Or.inl rfl⟩
    rw [Gateway.new, if_pos (by simp [nonempty])]
  · obtain ⟨name, mem, unknown, refused⟩ :=
      Registry.insertNames_of_unknown .empty (h nonempty)
    refine ⟨.core (.unknownAlgorithm name), ?_, Or.inr ⟨name, mem, unknown, rfl⟩⟩
    rw [Gateway.new, if_neg (by simpa using nonempty), Registry.ofNamesChecked, Registry.ofNames,
      refused]

theorem new_fst_eq_ok_iff {installed : Installed} :
    (∃ gateway, (Gateway.new installed policy).1 = .ok gateway) ↔ policy.isUsable = true := by
  by_cases usable : policy.isUsable = true
  · rw [new_of_isUsable installed usable]
    exact ⟨fun _ => usable, fun _ => ⟨_, rfl⟩⟩
  · obtain ⟨error, refused, -⟩ := new_of_not_isUsable installed usable
    rw [refused]
    exact ⟨fun ⟨_, made⟩ => (nomatch made), fun made => absurd made usable⟩

end Gateway

/-! ### Keys before there is a registry -/

namespace Key.Unseeded

variable {key : Key}

/-- A key that was given no hash without a registry was given none with one. -/
theorem of_none (h : Unseeded none key) (installed : Installed) : Unseeded installed key := by
  induction h with
  | ofPoint curve x y => exact ofPoint curve x y
  | ofParts curve x y scalar => exact ofParts curve x y scalar
  | @read expr key h =>
    -- only hashes are read with the help of a registry
    have again : decode installed expr = .ok key := by
      unfold decode at h ⊢
      split
      · next isHash =>
        rw [if_pos isHash] at h
        obtain ⟨hash, read, -⟩ := map_eq_ok_iff.mp h
        obtain ⟨_, _, present, -⟩ := (HashValue.readable_of_decode read).registered
        exact nomatch present
      · next notHash => rwa [if_neg notHash] at h
    exact read again
  | asked _ algorithm ih =>
    rw [hash_none]
    exact ih
  | half _ point ih => exact half ih point

/-- Without a registry only keys that are known by hashes answer, and they answer the same with
one. -/
theorem hash_of_none (h : Unseeded none key) {algorithm : String} {hash : HashValue}
    (given : (key.hash none algorithm).1 = .ok hash) (installed : Installed) :
    (key.hash installed algorithm).1 = .ok hash := by
  cases point : key.public? with
  | none =>
    cases key with
    | hashKey known => exact given
    | publicKey key => exact nomatch point
    | privateKey key => exact nomatch point
  | some half =>
    -- what such a key remembers was computed, and nothing was
    rw [hash_of_truthful point (h.truthful point)] at given
    exact nomatch given

variable {installed : Installed}

theorem or (h : Unseeded installed key) (offered : Option Registry) :
    Unseeded (installed.or offered) key := by
  cases installed with
  | none => exact h.of_none offered
  | some registry => exact h

theorem hash_or (h : Unseeded installed key) {algorithm : String} {hash : HashValue}
    (given : (key.hash installed algorithm).1 = .ok hash) (offered : Option Registry) :
    (key.hash (installed.or offered) algorithm).1 = .ok hash := by
  cases installed with
  | none => exact h.hash_of_none given offered
  | some registry => exact given

end Key.Unseeded

namespace Process

/-! ### Calls -/

/-- A call that may install a registry. -/
inductive Call where
  | init
  | install (offered : Registry)
  | gateway (policy : Policy)

/-- The registry of the process after a call. -/
def Call.perform (installed : Installed) : Call → Installed
  | init => some installed.standard
  | install offered => (installed.install offered).1
  | gateway policy => (Gateway.new installed policy).2

/-- The registry that a call offers; a policy that is refused offers none. -/
def Call.offered : Call → Option Registry
  | init => some .standard
  | install offered => some offered
  | gateway policy => if policy.isUsable then some policy.named else none

/-- The registry of the process after calls, one after the other. -/
def run (installed : Installed) (calls : List Call) : Installed := calls.foldl Call.perform installed

theorem Call.perform_eq (installed : Installed) (call : Call) :
    call.perform installed = installed.or call.offered := by
  cases call with
  | init => exact Option.or_some.symm
  | install offered => rw [perform, Installed.install_fst, Call.offered, Option.or_some]
  | gateway policy =>
    rw [perform, offered]
    by_cases usable : policy.isUsable = true
    · rw [Gateway.new_of_isUsable installed usable, if_pos usable, Option.or_some]
    · obtain ⟨error, refused, -⟩ := Gateway.new_of_not_isUsable installed usable
      rw [refused, if_neg usable, Option.or_none]

/-- The first registry that is offered is installed for good. -/
theorem run_eq (installed : Installed) (calls : List Call) :
    run installed calls = installed.or (calls.findSome? Call.offered) := by
  induction calls generalizing installed with
  | nil => exact Option.or_none.symm
  | cons call calls ih =>
    have first : run installed (call :: calls) = run (call.perform installed) calls := rfl
    rw [first, ih, call.perform_eq, Option.or_assoc, List.findSome?_cons]
    cases call.offered <;> rfl

theorem run_append (installed : Installed) (calls more : List Call) :
    run installed (calls ++ more) = run (run installed calls) more := List.foldl_append

theorem run_some (registry : Registry) (calls : List Call) :
    run (some registry) calls = some registry := run_eq (some registry) calls

/-! ### Answers about octets -/

section Answers

variable {installed : Installed}

/-- A registry that is installed stays, so that whatever needs one is answered in the same way ever
after. -/
theorem run_of_exists (h : ∃ registry, installed = some registry) (calls : List Call) :
    run installed calls = installed := by
  obtain ⟨registry, rfl⟩ := h
  exact run_some registry calls

theorem exists_of_registry {registry : Registry} (h : installed.registry = .ok registry) :
    ∃ registry, installed = some registry := by
  cases installed with
  | none => exact nomatch h
  | some registry => exact ⟨registry, rfl⟩

theorem exists_of_compute {algorithm : String} {octets : Octets} {hash : HashValue}
    (h : HashValue.compute installed algorithm octets = .ok hash) :
    ∃ registry, installed = some registry := by
  obtain ⟨registry, present, -⟩ := bind_eq_ok_iff.mp h
  exact exists_of_registry present

theorem exists_of_decode {expr : SExpr} {hash : HashValue}
    (h : HashValue.decode installed expr = .ok hash) : ∃ registry, installed = some registry := by
  obtain ⟨registry, _, present, -, -⟩ := (HashValue.readable_of_decode h).registered
  exact ⟨registry, present⟩

end Answers

/-! ### Answers of keys -/

/-- A process and one of its keys. -/
structure Moment where
  installed : Installed
  key : Key

namespace Moment

/-- The answer of the key. -/
def answer (moment : Moment) (algorithm : String) : Outcome HashValue :=
  (moment.key.hash moment.installed algorithm).1

/-- The key was never given a hash. -/
def Unseeded (moment : Moment) : Prop := moment.key.Unseeded moment.installed

/-- What happens from one moment to the next: a call that may install a registry, or a question to
the key. -/
inductive Step (moment : Moment) : Moment → Prop
  | called (call : Call) : Step moment ⟨call.perform moment.installed, moment.key⟩
  | asked (algorithm : String) :
      Step moment ⟨moment.installed, (moment.key.hash moment.installed algorithm).2⟩

variable {moment later : Moment}

theorem Step.unseeded (step : moment.Step later) (h : moment.Unseeded) : later.Unseeded := by
  cases step with
  | called call =>
    rw [Unseeded, call.perform_eq]
    exact h.or call.offered
  | asked algorithm => exact h.asked algorithm

/-- One step leaves the answers that were given as they were. -/
theorem Step.answer (step : moment.Step later) (h : moment.Unseeded) {algorithm : String}
    {hash : HashValue} (given : moment.answer algorithm = .ok hash) :
    later.answer algorithm = .ok hash := by
  cases step with
  | called call =>
    rw [Moment.answer, call.perform_eq]
    exact h.hash_or given call.offered
  | asked other => exact (Key.hash_hash moment.key other algorithm).trans given

/-- The answers that were given stay, whatever happens. -/
theorem answer_of_steps (steps : Relation.ReflTransGen Step moment later) (h : moment.Unseeded)
    {algorithm : String} {hash : HashValue} (given : moment.answer algorithm = .ok hash) :
    later.answer algorithm = .ok hash := by
  have both : later.Unseeded ∧ later.answer algorithm = .ok hash := by
    induction steps with
    | refl => exact ⟨h, given⟩
    | tail _ step ih => exact ⟨step.unseeded ih.1, step.answer ih.1 ih.2⟩
  exact both.2

end Moment

/-! ### Everything together -/

/-- After any calls, the registry is the first one that a call offered.  A policy makes a gateway
exactly if it names an algorithm and nothing else, and a policy that is refused installs nothing.
Whatever calls follow, the registry stays, and so does every hash that was computed or read, and
every hash of a key that was given none. -/
theorem registry_is_written_once (calls : List Call) :
    ((run none calls).registry =
      match calls.findSome? Call.offered with
      | some registry => .ok registry
      | none => .error .noRegistry) ∧
    (∀ policy : Policy,
      ((∃ gateway, (Gateway.new (run none calls) policy).1 = .ok gateway) ↔
        policy.digestAlgorithms ≠ [] ∧
          ∀ name ∈ policy.digestAlgorithms, ∃ alg : DigestAlgorithm, alg.name = name) ∧
      (∀ error, (Gateway.new (run none calls) policy).1 = .error error →
        (Gateway.new (run none calls) policy).2 = run none calls)) ∧
    (∀ more : List Call,
      (∀ registry, (run none calls).registry = .ok registry →
        (run none (calls ++ more)).registry = .ok registry) ∧
      (∀ algorithm octets hash, HashValue.compute (run none calls) algorithm octets = .ok hash →
        HashValue.compute (run none (calls ++ more)) algorithm octets = .ok hash) ∧
      (∀ expr hash, HashValue.decode (run none calls) expr = .ok hash →
        HashValue.decode (run none (calls ++ more)) expr = .ok hash)) ∧
    ∀ key later algorithm hash, key.Unseeded (run none calls) →
      Relation.ReflTransGen Moment.Step ⟨run none calls, key⟩ later →
        (key.hash (run none calls) algorithm).1 = .ok hash →
          (later.key.hash later.installed algorithm).1 = .ok hash := by
  refine ⟨?_, ?_, ?_, ?_⟩
  · rw [run_eq, Option.none_or]
    cases calls.findSome? Call.offered <;> rfl
  · intro policy
    refine ⟨Gateway.new_fst_eq_ok_iff.trans Policy.isUsable_iff, ?_⟩
    intro error refused
    by_cases usable : policy.isUsable = true
    · rw [Gateway.new_of_isUsable _ usable] at refused
      exact nomatch refused
    · obtain ⟨_, left, -⟩ := Gateway.new_of_not_isUsable (run none calls) usable
      rw [left]
  · intro more
    rw [run_append]
    refine ⟨?_, ?_, ?_⟩
    · intro registry present
      rwa [run_of_exists (exists_of_registry present)]
    · intro algorithm octets hash computed
      rwa [run_of_exists (exists_of_compute computed)]
    · intro expr hash read
      rwa [run_of_exists (exists_of_decode read)]
  · intro key later algorithm hash unseeded steps given
    exact Moment.answer_of_steps steps unseeded given

/-- A refused policy leaves a process without a registry, the next policy decides, and everything
that is offered later is ignored. -/
theorem first_usable_policy_decides :
    let refused : List Call := [.gateway ⟨true, true, ["sha256", "md5"]⟩, .gateway ⟨true, true, []⟩]
    let calls := refused ++ [.gateway ⟨true, true, ["sha256"]⟩]
    let later := calls ++ [.init, .gateway .standard]
    let key : Key := .publicKey (.ofPoint .p256 1 2)
    (run none refused).registry = .error .noRegistry ∧
      (∃ registry, (run none calls).registry = .ok registry ∧ registry.names = ["sha256"] ∧
        (run none later).registry = .ok registry) ∧
      ∃ hash, (key.hash (run none calls) "sha256").1 = .ok hash ∧
        (key.hash (run none later) "sha256").1 = .ok hash := by
  intro refused calls later key
  have unwritten := (registry_is_written_once refused).1
  obtain ⟨written, -, stays, answers⟩ := registry_is_written_once calls
  have given : (key.hash (run none calls) "sha256").1 =
      .ok (.ofDigest "sha256" (DigestAlgorithm.sha256.digest (PublicKey.ofPoint .p256 1 2).pack)) :=
    rfl
  refine ⟨unwritten, ⟨_, written, by decide, (stays _).1 _ written⟩, _, given, ?_⟩
  exact answers key ⟨run none later, key⟩ _ _ (.ofPoint .p256 1 2)
    (.tail (.single (.called .init)) (.called (.gateway .standard))) given

end Process

end SimplePki
