import Mathlib.Logic.Relation
import SimplePki.Proofs.Key.Family

/-!
# Which of two keys compares does not matter

A key that is known by hashes compares its own hashes with those of the other key; any other key
tries the registered algorithms.  The two look under different algorithms, but neither misses an
agreement: where both keys answer at all, the first one looks.  For a key that is known by hashes
this is so because no algorithm has two hashes, and for a key with a point as long as what it was
given is under registered algorithms.  The hashes may be false, and those of a key that is known by
hashes may be under any algorithm.

Comparing keys and asking them for hashes is no more than asking, which changes no answer, and so
keys that are the same stay the same.

## Main definitions

* `Key.Built`: keys that are made, given hashes, asked and compared under one registry
* `Key.Asks`: one key becomes the other when it is asked for a hash

## Main results

* `Key.Built.exists_account`: such keys are what happened to them
* `Key.Account.sameAs_key_iff`: keys are the same if they agree under some algorithm
* `Family.exists_asked_serveAll`: what is asked of a family asks its keys
* `Key.sameness_is_symmetric`
-/

namespace SimplePki

namespace Key

variable {registry : Registry}

/-! ### The algorithms under which a key answers -/

/-- All that was given to a key with a point is under registered algorithms. -/
def Account.Registered (registry : Registry) (account : Account) : Prop :=
  ∀ hash ∈ account.hashes, hash.algorithm ∈ registry.names

namespace Account

variable {account a b : Account} {algorithm : String} {hash : HashValue}

/-- A key answers with a hash that was brought to it, or with a fresh one. -/
theorem cases_of_answer {installed : Installed}
    (h : account.answer installed algorithm = .ok hash) :
    account.first? algorithm = some hash ∨ account.origin.fresh installed algorithm = .ok hash := by
  rw [answer] at h
  cases brought : account.first? algorithm with
  | some known =>
    rw [brought] at h
    cases h
    exact Or.inl rfl
  | none =>
    rw [brought] at h
    exact Or.inr h

/-- A key answers under an algorithm with a hash under this algorithm. -/
theorem algorithm_of_answer {installed : Installed}
    (h : account.answer installed algorithm = .ok hash) : hash.algorithm = algorithm := by
  rcases cases_of_answer h with brought | fresh
  · simpa using List.find?_some brought
  · cases made : account.origin with
    | hashes known =>
      rw [made] at fresh
      exact HashKey.algorithm_of_find? (HashKey.hash_eq_ok_iff.mp fresh)
    | _ =>
      rw [made] at fresh
      exact PublicKey.algorithm_of_trueHash fresh

/-- What is computed is under a registered algorithm. -/
theorem mem_names_of_trueHash {point : PublicKey}
    (h : point.trueHash (some registry) algorithm = .ok hash) : algorithm ∈ registry.names := by
  obtain ⟨alg, registered, rfl, -⟩ := PublicKey.trueHash_eq_ok_iff.mp h
  exact List.mem_map_of_mem registered

/-- Where a key answers, it looks when it compares itself to another one. -/
theorem mem_tried_of_answer (registered : account.Registered registry)
    (h : account.answer (some registry) algorithm = .ok hash) :
    algorithm ∈ account.origin.tried (some registry) := by
  have named := algorithm_of_answer h
  have brought (found : account.first? algorithm = some hash) : algorithm ∈ registry.names :=
    named ▸ registered hash (List.mem_of_find?_eq_some found)
  cases made : account.origin with
  | hashes known =>
    have nothing : account.first? algorithm = none := by
      rw [first?, hashes, made]
      rfl
    rw [answer, nothing, made] at h
    have found := List.mem_of_find?_eq_some (HashKey.hash_eq_ok_iff.mp h)
    exact named ▸ List.mem_map_of_mem found
  | _ =>
    rcases cases_of_answer h with found | fresh
    · exact brought found
    · rw [made] at fresh
      exact mem_names_of_trueHash fresh

theorem agrees_comm (installed : Installed) (a b : Account) (algorithm : String) :
    agrees installed a b algorithm = agrees installed b a algorithm := agree_comm _ _

theorem agrees_iff {installed : Installed} :
    agrees installed a b algorithm = true ↔
      ∃ hash other, a.answer installed algorithm = .ok hash ∧
        b.answer installed algorithm = .ok other ∧ hash.digest = other.digest := by
  rw [agrees]
  constructor
  · intro agreed
    cases answerA : a.answer installed algorithm with
    | error _ =>
      rw [answerA] at agreed
      cases agreed
    | ok hash =>
      cases answerB : b.answer installed algorithm with
      | error _ =>
        rw [answerA, answerB] at agreed
        cases agreed
      | ok other =>
        rw [answerA, answerB] at agreed
        exact ⟨hash, other, rfl, rfl, (HashValue.same_iff.mp agreed).2⟩
  · rintro ⟨hash, other, answerA, answerB, digest⟩
    rw [answerA, answerB]
    refine HashValue.same_iff.mpr ⟨?_, digest⟩
    rw [algorithm_of_answer answerA, algorithm_of_answer answerB]

/-- Keys are the same if they agree under some algorithm, wherever the one that compares looks. -/
theorem sameAs_key_iff (registered : a.Registered registry) :
    a.key.sameAs (some registry) b.key = true ↔
      ∃ algorithm, agrees (some registry) a b algorithm = true := by
  rw [sameAs, compare_key, List.any_eq_true]
  constructor
  · rintro ⟨algorithm, -, agreed⟩
    exact ⟨algorithm, agreed⟩
  · rintro ⟨algorithm, agreed⟩
    obtain ⟨hash, _, answer, -, -⟩ := agrees_iff.mp agreed
    exact ⟨algorithm, mem_tried_of_answer registered answer, agreed⟩

end Account

/-! ### Keys under one registry -/

/-- Keys that are made under one registry: of hashes under any algorithms, of points, and of points
and scalars.  Those with a point are given hashes under registered algorithms, true or false.  All
keys may be asked and compared, and halved. -/
inductive Built (registry : Registry) : Key → Prop
  | ofHashes (hashes : List HashValue) : Built registry (.hashKey (.ofList hashes))
  | insert {known : HashKey} (h : Built registry (.hashKey known)) (hash : HashValue) :
      Built registry (.hashKey (known.insert hash))
  | ofPoint (curve : Curve) (x y : Nat) : Built registry (.publicKey (.ofPoint curve x y))
  | given {half : PublicKey} (h : Built registry (.publicKey half)) {hash : HashValue}
      (registered : hash.algorithm ∈ registry.names) :
      Built registry (.publicKey (half.withHash hash))
  | ofParts (curve : Curve) (x y scalar : Nat) :
      Built registry (.privateKey (.ofParts curve x y scalar))
  | asked {key : Key} (h : Built registry key) (algorithm : String) :
      Built registry (key.hash (some registry) algorithm).2
  | half {key : Key} {half : PublicKey} (h : Built registry key) (point : key.public? = some half) :
      Built registry (.publicKey half)

namespace Account

variable {account : Account}

theorem registered_of_events_eq_nil (origin : Origin) :
    Account.Registered registry ⟨origin, []⟩ := by
  have nothing : hashes ⟨origin, []⟩ = [] := by
    unfold hashes
    cases origin.half? <;> rfl
  rw [Registered, nothing]
  exact fun _ mem => nomatch mem

theorem Registered.note_given {curve : Curve} {x y : Nat} {events : List Event}
    (h : Account.Registered registry ⟨.point curve x y, events⟩) {hash : HashValue}
    (registered : hash.algorithm ∈ registry.names) :
    (note ⟨.point curve x y, events⟩ (.given hash)).Registered registry := by
  rw [Registered, hashes_note_given rfl, List.forall_mem_append]
  exact ⟨h, List.forall_mem_singleton.mpr registered⟩

theorem Registered.asked (h : account.Registered registry) (algorithm : String) :
    (account.asked (some registry) [algorithm]).Registered registry := by
  cases made : account.origin.half? with
  | none =>
    have nothing : (account.asked (some registry) [algorithm]).hashes = [] := by
      rw [hashes, Account.asked]
      dsimp only
      rw [made]
    rw [Registered, nothing]
    exact fun _ mem => absurd mem List.not_mem_nil
  | some point =>
    rw [Registered, hashes_asked_of_half? made, List.forall_mem_append]
    refine ⟨h, fun hash computed => ?_⟩
    cases answered : point.trueHash (some registry) algorithm with
    | error error =>
      rw [answered] at computed
      exact absurd computed List.not_mem_nil
    | ok known =>
      rw [answered] at computed
      cases List.mem_singleton.mp computed
      rw [PublicKey.algorithm_of_trueHash answered]
      exact mem_names_of_trueHash answered

end Account

/-- Such keys are what happened to them. -/
theorem Built.exists_account {key : Key} (h : Built registry key) :
    ∃ account : Account, account.Registered registry ∧ account.key = key := by
  induction h with
  | ofHashes hashes => exact ⟨_, Account.registered_of_events_eq_nil (.hashes hashes), rfl⟩
  | insert _ hash ih =>
    obtain ⟨⟨origin, events⟩, -, made⟩ := ih
    cases origin with
    | hashes hashes =>
      cases made
      refine ⟨_, Account.registered_of_events_eq_nil (.hashes (hashes ++ [hash])), ?_⟩
      exact congrArg hashKey (HashKey.ofList_append_singleton hashes hash)
    | _ => exact nomatch made
  | ofPoint curve x y => exact ⟨_, Account.registered_of_events_eq_nil (.point curve x y), rfl⟩
  | given _ registered ih =>
    obtain ⟨⟨origin, events⟩, before, made⟩ := ih
    cases origin with
    | point curve x y =>
      cases made
      exact ⟨_, before.note_given registered, Account.key_note_given curve x y events _⟩
    | _ => exact nomatch made
  | ofParts curve x y scalar =>
    exact ⟨_, Account.registered_of_events_eq_nil (.pair curve x y scalar), rfl⟩
  | asked _ algorithm ih =>
    obtain ⟨account, before, rfl⟩ := ih
    exact ⟨_, before.asked algorithm, by rw [Account.hash_key]⟩
  | half _ point ih =>
    obtain ⟨⟨origin, events⟩, before, rfl⟩ := ih
    cases origin with
    | hashes hashes => exact nomatch point
    | point curve x y =>
      cases point
      exact ⟨_, before, rfl⟩
    | pair curve x y scalar =>
      cases point
      exact ⟨⟨.point curve x y, events⟩, before, rfl⟩

/-! ### Asking keys -/

/-- The second key is the first one, asked for a hash. -/
def Asks (installed : Installed) (key later : Key) : Prop :=
  ∃ algorithm, (key.hash installed algorithm).2 = later

section Asks

variable {installed : Installed} {key later : Key}

/-- Asking a key changes none of its answers. -/
theorem answer_of_asks (h : Relation.ReflTransGen (Asks installed) key later)
    (algorithm : String) :
    (later.hash installed algorithm).1 = (key.hash installed algorithm).1 := by
  induction h with
  | refl => rfl
  | tail _ step ih =>
    obtain ⟨asked, rfl⟩ := step
    rw [hash_hash, ih]

theorem Built.asks (built : Built registry key)
    (h : Relation.ReflTransGen (Asks (some registry)) key later) : Built registry later := by
  induction h with
  | refl => exact built
  | tail _ step ih =>
    obtain ⟨algorithm, rfl⟩ := step
    exact ih.asked algorithm

theorem asks_call {call : Call} (gift : call.gives = false) :
    Relation.ReflTransGen (Asks installed) key (key.call installed call).2 := by
  rcases call_cases installed key gift with unchanged | ⟨algorithm, asked, -⟩
  · rw [unchanged]
  · exact .single ⟨algorithm, asked.symm⟩

theorem asks_hasAny (hashes : List HashValue) (other : Key) :
    Relation.ReflTransGen (Asks installed) other (hasAny installed hashes other).2 := by
  induction hashes generalizing other with
  | nil => exact .refl
  | cons hash rest ih =>
    have first : Asks installed other (other.hash installed hash.algorithm).2 := ⟨_, rfl⟩
    rw [hasAny]
    dsimp only
    split
    · exact .single first
    · exact .head first (ih _)

theorem asks_shareAny (algs : List DigestAlgorithm) (a b : Key) :
    Relation.ReflTransGen (Asks installed) a (shareAny installed algs a b).2.1 ∧
      Relation.ReflTransGen (Asks installed) b (shareAny installed algs a b).2.2 := by
  induction algs generalizing a b with
  | nil => exact ⟨.refl, .refl⟩
  | cons alg rest ih =>
    have ours : Asks installed a (a.hash installed alg.name).2 := ⟨_, rfl⟩
    have theirs : Asks installed b (b.hash installed alg.name).2 := ⟨_, rfl⟩
    rw [shareAny]
    dsimp only
    split
    · exact ⟨.single ours, .single theirs⟩
    · exact ⟨.head ours (ih _ _).1, .head theirs (ih _ _).2⟩

/-- Comparing keys is asking them. -/
theorem asks_compare (a b : Key) :
    Relation.ReflTransGen (Asks installed) a (compare installed a b).2.1 ∧
      Relation.ReflTransGen (Asks installed) b (compare installed a b).2.2 := by
  cases a with
  | hashKey known => exact ⟨.refl, asks_hasAny known.hashes b⟩
  | publicKey half =>
    cases installed with
    | none => exact ⟨.refl, .refl⟩
    | some registry => exact asks_shareAny registry.algorithms (publicKey half) b
  | privateKey pair =>
    cases installed with
    | none => exact ⟨.refl, .refl⟩
    | some registry => exact asks_shareAny registry.algorithms (privateKey pair) b

end Asks

end Key

namespace Family

variable {registry : Registry}

/-- A registry that is installed stays. -/
theorem installed_serve {κ : Type} {manner : Manner κ} {family : Family κ}
    (present : family.installed = some registry) (request : Request) :
    (family.serve manner request).2.installed = some registry := by
  cases request with
  | install offered =>
    rw [serve, present]
    rfl
  | call slot call =>
    rw [serve]
    cases family.keys[slot]? with
    | none => exact present
    | some key => exact present
  | compare slot other =>
    rw [serve]
    split
    · exact present
    · exact present
  | copy slot => exact present
  | half slot => exact present

/-- Unless a hash is given, what is asked of a family asks its keys. -/
theorem exists_asked_serveAll {family : Family Key} (present : family.installed = some registry)
    {requests : List Request} (gifts : ∀ request ∈ requests, request.gives = false) {slot : Nat}
    {key : Key} (known : family.keys[slot]? = some key) :
    ∃ later, (family.serveAll .remembering requests).2.keys[slot]? = some later ∧
      Relation.ReflTransGen (Key.Asks (some registry)) key later := by
  induction requests generalizing family key with
  | nil => exact ⟨key, known, .refl⟩
  | cons request rest ih =>
    obtain ⟨gift, others⟩ := List.forall_mem_cons.mp gifts
    have served : ∃ next, (family.serve .remembering request).2.keys[slot]? = some next ∧
        Relation.ReflTransGen (Key.Asks family.installed) key next :=
      exists_getElem?_serve (fun _ => .refl) (fun _ _ => Key.asks_call) Key.asks_compare known
        (Request.within_of_gives gift)
    obtain ⟨next, known, step⟩ := served
    obtain ⟨later, known, run⟩ := ih (installed_serve present request) others known
    exact ⟨later, known, (present ▸ step).trans run⟩

theorem serve_compare {family : Family Key} {slot other : Nat} {a b : Key}
    (knownA : family.keys[slot]? = some a) (knownB : family.keys[other]? = some b) :
    (family.serve .remembering (.compare slot other)).1 =
      .verdict (a.sameAs family.installed b) := by
  rw [serve, knownA, knownB]
  rfl

theorem installed_serveAll {κ : Type} {manner : Manner κ} {family : Family κ}
    (present : family.installed = some registry) (requests : List Request) :
    (family.serveAll manner requests).2.installed = some registry := by
  induction requests generalizing family with
  | nil => exact present
  | cons request rest ih => exact ih (installed_serve present request)

end Family

namespace Key

variable {registry : Registry} {a b : Key}

/-- Keys are the same if both answer with one digest under some algorithm. -/
theorem Built.sameAs_iff (builtA : Built registry a) (builtB : Built registry b) :
    a.sameAs (some registry) b = true ↔
      ∃ algorithm hash other, (a.hash (some registry) algorithm).1 = .ok hash ∧
        (b.hash (some registry) algorithm).1 = .ok other ∧ hash.digest = other.digest := by
  obtain ⟨a, registered, rfl⟩ := builtA.exists_account
  obtain ⟨b, -, rfl⟩ := builtB.exists_account
  rw [Account.sameAs_key_iff registered]
  refine exists_congr fun algorithm => ?_
  rw [Account.agrees_iff, Account.hash_key, Account.hash_key]

theorem Built.sameAs_comm (builtA : Built registry a) (builtB : Built registry b) :
    a.sameAs (some registry) b = b.sameAs (some registry) a := by
  obtain ⟨a, registeredA, rfl⟩ := builtA.exists_account
  obtain ⟨b, registeredB, rfl⟩ := builtB.exists_account
  rw [Bool.eq_iff_iff, Account.sameAs_key_iff registeredA, Account.sameAs_key_iff registeredB]
  exact exists_congr fun algorithm => by rw [Account.agrees_comm]

/-- Keys that are asked are the same as before. -/
theorem Built.sameAs_of_asks {laterA laterB : Key} (builtA : Built registry a)
    (builtB : Built registry b) (asksA : Relation.ReflTransGen (Asks (some registry)) a laterA)
    (asksB : Relation.ReflTransGen (Asks (some registry)) b laterB) :
    laterA.sameAs (some registry) laterB = a.sameAs (some registry) b := by
  rw [Bool.eq_iff_iff, (builtA.asks asksA).sameAs_iff (builtB.asks asksB), builtA.sameAs_iff builtB]
  simp only [answer_of_asks asksA, answer_of_asks asksB]

/-- Keys are the same or not, whichever of the two compares: they are if there is an algorithm under
which both answer, with the same digest.  However often they, their copies and other keys are asked
and compared, this stays so. -/
theorem sameness_is_symmetric (builtA : Built registry a) (builtB : Built registry b) :
    a.sameAs (some registry) b = b.sameAs (some registry) a ∧
    (a.sameAs (some registry) b = true ↔
      ∃ algorithm hash other, (a.hash (some registry) algorithm).1 = .ok hash ∧
        (b.hash (some registry) algorithm).1 = .ok other ∧ hash.digest = other.digest) ∧
    ∀ (family : Family Key) (slot other : Nat) (requests : List Family.Request),
      family.installed = some registry → family.keys[slot]? = some a →
      family.keys[other]? = some b → (∀ request ∈ requests, request.gives = false) →
      ((family.serveAll .remembering requests).2.serve .remembering (.compare slot other)).1 =
          .verdict (a.sameAs (some registry) b) ∧
        ((family.serveAll .remembering requests).2.serve .remembering (.compare other slot)).1 =
          .verdict (a.sameAs (some registry) b) := by
  refine ⟨builtA.sameAs_comm builtB, builtA.sameAs_iff builtB, ?_⟩
  intro family slot other requests present knownA knownB gifts
  obtain ⟨laterA, foundA, asksA⟩ := Family.exists_asked_serveAll present gifts knownA
  obtain ⟨laterB, foundB, asksB⟩ := Family.exists_asked_serveAll present gifts knownB
  have installed : (family.serveAll .remembering requests).2.installed = some registry :=
    Family.installed_serveAll present requests
  constructor
  · rw [Family.serve_compare foundA foundB, installed, builtA.sameAs_of_asks builtB asksA asksB]
  · rw [Family.serve_compare foundB foundA, installed, builtB.sameAs_of_asks builtA asksB asksA,
      builtA.sameAs_comm builtB]

/-- The registry of one algorithm. -/
def sha256Only : Registry := ⟨fun alg => alg == .sha256⟩

/-- A key that is known by two hashes, one of them under an algorithm that is not registered. -/
def rumoured : Key := hashKey ((HashKey.ofList [.ofDigest "sha512" [0]]).insert Family.falseHash)

/-- A point that was given a false hash. -/
def misled : Key := publicKey ((PublicKey.ofPoint .p256 1 2).withHash Family.falseHash)

/-- Keys that share no more than a false hash are the same, whichever of the two compares, and after
questions that one of them cannot answer. -/
theorem false_hash_is_shared_both_ways :
    rumoured.sameAs (some sha256Only) misled = true ∧
    misled.sameAs (some sha256Only) rumoured = true ∧
    ((Family.serveAll .remembering ⟨some sha256Only, [rumoured, misled]⟩
      [.call 1 (.hash "sha512"), .compare 1 0]).2.serve .remembering (.compare 1 0)).1 =
        .verdict true := by
  have builtA : Built sha256Only rumoured := .insert (.ofHashes _) _
  have builtB : Built sha256Only misled := .given (.ofPoint .p256 1 2) (by decide)
  obtain ⟨symmetric, same_iff, stays⟩ := sameness_is_symmetric builtA builtB
  have same : rumoured.sameAs (some sha256Only) misled = true :=
    same_iff.mpr ⟨"sha256", Family.falseHash, Family.falseHash, rfl, rfl, rfl⟩
  refine ⟨same, symmetric ▸ same, ?_⟩
  rw [(stays _ 0 1 _ rfl rfl rfl (by decide)).2, same]

end Key

end SimplePki
