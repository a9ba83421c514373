import SimplePki.Proofs.Key.Call

/-!
# Keys and their copies

A program holds keys in many places: it asks them for hashes, compares them, copies them and hands
their public halves on.  Each copy has a memory of its own, which begins with all that the key
remembered.  Here the keys stand in numbered slots, and a copy takes the slot behind the last one.

All that the memories can show is what has happened to the keys.  The same requests can be served
from the accounts of what has happened to each key, what happened to its originals included, and
from what the keys are made of.  The three ways of serving requests differ only in what they keep of
a key, so that one relates to another if it does so for one key and for two that are compared.

## Main definitions

* `Manner`, `Manner.Simulates`: the ways to keep a key, and what relates them
* `Family`, `Family.Request`, `Family.serve`: keys in slots, and what is asked of them
* `Family.memories`, `Family.origins`: the keys that accounts tell of, and what they are made of

## Main results

* `Manner.told_simulates_remembering`: keys do what their accounts say
* `Manner.told_simulates_forgetful`: without given hashes they reply as if they remembered nothing
* `Family.related_serve`, `Family.related_serveAll`: the same for a family, in one request and in
  many
* `Family.getElem?_serve`, `Family.serve_of_failed`: what a request leaves as it was
* `Family.memories_follow_the_first_events`
-/

namespace SimplePki

/-! ### Ways to keep keys -/

open Key (Account Call Event Origin Reply)

/-- How a key does what is asked of it, if all that is kept of it is of some type. -/
structure Manner (κ : Type) where
  call : Installed → κ → Call → Reply × κ
  compare : Installed → κ → κ → Bool × κ × κ
  half? : κ → Option κ

namespace Manner

/-- Keys that remember. -/
def remembering : Manner Key where
  call := Key.call
  compare := Key.compare
  half? key := key.public?.map Key.publicKey

/-- Keys of which it is known what has happened to them. -/
def told : Manner Account where
  call := Account.call
  compare := Account.compare
  half? := Account.half?

/-- Keys that remember nothing. -/
def forgetful : Manner Origin where
  call installed origin call := (origin.call installed call, origin)
  compare installed a b := (a.sameAs installed b, a, b)
  half? origin :=
    match origin with
    | .hashes _ => none
    | .point curve x y | .pair curve x y _ => some (.point curve x y)

/-- Two ways to keep keys are related if what they keep of a key is: under the calls that are
considered they give the same replies, and what they keep then is related again, also when a
registry is installed. -/
structure Simulates {κ μ : Type} (R : Installed → κ → μ → Prop) (calls : Call → Prop)
    (m : Manner κ) (n : Manner μ) : Prop where
  call : ∀ {installed a b call}, R installed a b → calls call →
    (m.call installed a call).1 = (n.call installed b call).1 ∧
      R installed (m.call installed a call).2 (n.call installed b call).2
  compare : ∀ {installed a b a' b'}, R installed a b → R installed a' b' →
    (m.compare installed a a').1 = (n.compare installed b b').1 ∧
      R installed (m.compare installed a a').2.1 (n.compare installed b b').2.1 ∧
      R installed (m.compare installed a a').2.2 (n.compare installed b b').2.2
  half : ∀ {installed a b}, R installed a b → Option.Rel (R installed) (m.half? a) (n.half? b)
  install : ∀ {registry a b}, R none a b → R (some registry) a b

/-- Keys do what their accounts say. -/
theorem told_simulates_remembering :
    Simulates (fun _ account key => account.key = key) (fun _ => True) told remembering where
  call := by
    rintro installed account _ call rfl -
    change _ = (Key.call installed account.key call).1 ∧ _ = (Key.call installed account.key call).2
    rw [Account.call_key]
    exact ⟨rfl, rfl⟩
  compare := by
    rintro installed a _ b _ rfl rfl
    change _ = (Key.compare installed a.key b.key).1 ∧
      _ = (Key.compare installed a.key b.key).2.1 ∧ _ = (Key.compare installed a.key b.key).2.2
    rw [Account.compare_key]
    exact ⟨rfl, rfl, rfl⟩
  half := by
    rintro installed ⟨origin, events⟩ _ rfl
    cases origin with
    | hashes known => exact .none
    | point curve x y => exact .some rfl
    | pair curve x y scalar => exact .some rfl
  install h := h

/-- Unless they are given hashes, keys reply as if they remembered nothing. -/
theorem told_simulates_forgetful :
    Simulates (fun installed account origin => account.origin = origin ∧ account.Unseeded installed)
      (fun call => call.gives = false) told forgetful where
  call := by
    rintro installed account _ call ⟨rfl, unseeded⟩ gift
    obtain ⟨reply, made, after⟩ := Account.call_of_unseeded unseeded gift
    exact ⟨reply, made, after⟩
  compare := by
    rintro installed a _ b _ ⟨rfl, unseededA⟩ ⟨rfl, unseededB⟩
    refine ⟨?_, ⟨rfl, unseededA.asked _⟩, rfl, unseededB.asked _⟩
    have agrees : Account.agrees installed a b = fun algorithm =>
        Key.agree (a.origin.fresh installed algorithm) (b.origin.fresh installed algorithm) := by
      funext algorithm
      rw [Account.agrees, Account.answer_of_unseeded unseededA,
        Account.answer_of_unseeded unseededB]
    change (a.origin.tried installed).any (Account.agrees installed a b) = _
    rw [agrees]
    rfl
  half := by
    rintro installed ⟨origin, events⟩ _ ⟨rfl, unseeded⟩
    cases origin with
    | hashes known => exact .none
    | point curve x y => exact .some ⟨rfl, unseeded⟩
    | pair curve x y scalar => exact .some ⟨rfl, unseeded⟩
  install := by
    rintro registry account _ ⟨made, unseeded⟩
    refine ⟨made, fun event mem => ?_⟩
    have before := unseeded event mem
    cases event with
    | given hash => exact before.elim
    | asked known algorithm => exact Or.inl (before.elim id id)

end Manner

/-! ### Families -/

/-- Keys in numbered slots, and the registry of the process. -/
structure Family (κ : Type) where
  installed : Installed
  keys : List κ

namespace Family

/-- Something that is asked of a family: of the process, of one key, or of two.  A copy and a public
half take a new slot. -/
inductive Request where
  | install (offered : Registry)
  | call (slot : Nat) (call : Call)
  | compare (slot other : Nat)
  | copy (slot : Nat)
  | half (slot : Nat)

/-- Whether a request gives a key a hash. -/
def Request.gives : Request → Bool
  | call _ asked => asked.gives
  | _ => false

/-- The slots whose keys are asked. -/
def Request.slots : Request → List Nat
  | call slot _ => [slot]
  | compare slot other => [slot, other]
  | _ => []

/-- If a request is a call, it is among the calls that are considered. -/
def Request.Within (calls : Call → Prop) : Request → Prop
  | call _ asked => calls asked
  | _ => True

theorem Request.within_true (request : Request) : request.Within fun _ => True := by
  cases request <;> trivial

theorem Request.within_of_gives {request : Request} (gift : request.gives = false) :
    request.Within fun call => call.gives = false := by
  cases request with
  | call slot asked => exact gift
  | _ => trivial

variable {κ μ : Type}

/-- The family with another key in a slot. -/
def put (family : Family κ) (slot : Nat) (key : κ) : Family κ :=
  { family with keys := family.keys.set slot key }

/-- The family with a key in a new slot, if there is one to put there. -/
def push (family : Family κ) (key? : Option κ) : Family κ :=
  { family with keys := family.keys ++ key?.toList }

/-- The reply to a request, and the family afterwards.  A slot without a key has nothing to say. -/
def serve (manner : Manner κ) (family : Family κ) : Request → Reply × Family κ
  | .install offered =>
    let (registry, accepted) := family.installed.install offered
    (.verdict accepted, { family with installed := registry })
  | .call slot call =>
    match family.keys[slot]? with
    | none => (.nothing, family)
    | some key =>
      let (reply, key) := manner.call family.installed key call
      (reply, family.put slot key)
  | .compare slot other =>
    match family.keys[slot]?, family.keys[other]? with
    | some a, some b =>
      let (same, a, b) := manner.compare family.installed a b
      (.verdict same, (family.put slot a).put other b)
    | _, _ => (.nothing, family)
  | .copy slot => (.nothing, family.push family.keys[slot]?)
  | .half slot => (.nothing, family.push (family.keys[slot]?.bind manner.half?))

/-- The replies to requests one after the other, and the family afterwards. -/
def serveAll (manner : Manner κ) (family : Family κ) : List Request → List Reply × Family κ
  | [] => ([], family)
  | request :: rest =>
    let (reply, family) := family.serve manner request
    let (replies, family) := family.serveAll manner rest
    (reply :: replies, family)

/-- Families under one registry whose keys are related, slot by slot. -/
structure Related (R : Installed → κ → μ → Prop) (a : Family κ) (b : Family μ) : Prop where
  installed : a.installed = b.installed
  keys : List.Forall₂ (R b.installed) a.keys b.keys

namespace Related

variable {R : Installed → κ → μ → Prop} {a : Family κ} {b : Family μ}

theorem getElem? (h : Related R a b) (slot : Nat) :
    Option.Rel (R b.installed) a.keys[slot]? b.keys[slot]? := by
  have related {xs : List κ} {ys : List μ} (h : List.Forall₂ (R b.installed) xs ys) :
      Option.Rel (R b.installed) xs[slot]? ys[slot]? := by
    induction h generalizing slot with
    | nil => exact .none
    | cons head _ ih =>
      cases slot with
      | zero => exact .some head
      | succ slot => exact ih slot
  exact related h.keys

theorem put (h : Related R a b) (slot : Nat) {x : κ} {y : μ} (related : R b.installed x y) :
    Related R (a.put slot x) (b.put slot y) := by
  have set {xs : List κ} {ys : List μ} (h : List.Forall₂ (R b.installed) xs ys) :
      List.Forall₂ (R b.installed) (xs.set slot x) (ys.set slot y) := by
    induction h generalizing slot with
    | nil => exact .nil
    | cons head rest ih =>
      cases slot with
      | zero => exact .cons related rest
      | succ slot => exact .cons head (ih slot)
  exact ⟨h.installed, set h.keys⟩

theorem push (h : Related R a b) {x : Option κ} {y : Option μ}
    (related : Option.Rel (R b.installed) x y) : Related R (a.push x) (b.push y) := by
  refine ⟨h.installed, List.rel_append h.keys ?_⟩
  cases related with
  | none => exact .nil
  | some related => exact .cons related .nil

end Related

variable {R : Installed → κ → μ → Prop} {calls : Call → Prop} {m : Manner κ} {n : Manner μ}
  {a : Family κ} {b : Family μ}

/-- What is related for one key or two is related for a family, under one request. -/
theorem related_serve (simulates : Manner.Simulates R calls m n) (h : Related R a b)
    {request : Request} (within : request.Within calls) :
    (a.serve m request).1 = (b.serve n request).1 ∧
      Related R (a.serve m request).2 (b.serve n request).2 := by
  cases request with
  | install offered =>
    refine ⟨by rw [serve, serve, h.installed], ?_⟩
    -- only the first registry that is offered makes a difference to what is related
    have keys : List.Forall₂ (R (b.installed.install offered).1) a.keys b.keys := by
      cases unset : b.installed with
      | none => exact (unset ▸ h.keys).imp fun _ _ => simulates.install
      | some registry => exact (unset ▸ h.keys : List.Forall₂ (R (some registry)) a.keys b.keys)
    exact ⟨congrArg (fun installed => (Installed.install installed offered).1) h.installed, keys⟩
  | call slot call =>
    have known := h.getElem? slot
    rw [serve, serve, h.installed]
    generalize a.keys[slot]? = x at known ⊢
    generalize b.keys[slot]? = y at known ⊢
    cases known with
    | none => exact ⟨rfl, h⟩
    | some known =>
      obtain ⟨reply, after⟩ := simulates.call known within
      exact ⟨reply, h.put slot after⟩
  | compare slot other =>
    have known := h.getElem? slot
    have others := h.getElem? other
    rw [serve, serve, h.installed]
    generalize a.keys[slot]? = x at known ⊢
    generalize b.keys[slot]? = y at known ⊢
    generalize a.keys[other]? = z at others ⊢
    generalize b.keys[other]? = w at others ⊢
    cases known with
    | none => exact ⟨rfl, h⟩
    | some known =>
      cases others with
      | none => exact ⟨rfl, h⟩
      | some others =>
        obtain ⟨same, after, otherAfter⟩ := simulates.compare known others
        exact ⟨congrArg Reply.verdict same, (h.put slot after).put other otherAfter⟩
  | copy slot => exact ⟨rfl, h.push (h.getElem? slot)⟩
  | half slot =>
    refine ⟨rfl, h.push ?_⟩
    have known := h.getElem? slot
    generalize a.keys[slot]? = x at known ⊢
    generalize b.keys[slot]? = y at known ⊢
    cases known with
    | none => exact .none
    | some known => exact simulates.half known

/-- What is related for one key or two is related for a family, under many requests. -/
theorem related_serveAll (simulates : Manner.Simulates R calls m n) {requests : List Request}
    (h : Related R a b) (within : ∀ request ∈ requests, request.Within calls) :
    (a.serveAll m requests).1 = (b.serveAll n requests).1 ∧
      Related R (a.serveAll m requests).2 (b.serveAll n requests).2 := by
  induction requests generalizing a b with
  | nil => exact ⟨rfl, h⟩
  | cons request rest ih =>
    obtain ⟨head, others⟩ := List.forall_mem_cons.mp within
    obtain ⟨reply, after⟩ := related_serve simulates h head
    obtain ⟨replies, done⟩ := ih after others
    refine ⟨?_, done⟩
    rw [serveAll, serveAll]
    exact congrArg₂ List.cons reply replies

/-! ### What a request leaves as it was -/

section Slots

variable {manner : Manner κ} {family : Family κ} {slot : Nat} {key : κ}

theorem lt_length_of_getElem? (known : family.keys[slot]? = some key) :
    slot < family.keys.length := (List.getElem?_eq_some_iff.mp known).1

theorem getElem?_put_self (bound : slot < family.keys.length) (new : κ) :
    (family.put slot new).keys[slot]? = some new := List.getElem?_set_self bound

theorem length_put (family : Family κ) (slot : Nat) (key : κ) :
    (family.put slot key).keys.length = family.keys.length := List.length_set

theorem getElem?_put_of_ne {other : Nat} (apart : other ≠ slot) (new : κ) :
    (family.put other new).keys[slot]? = family.keys[slot]? :=
  List.getElem?_set_ne apart

theorem getElem?_push (known : family.keys[slot]? = some key) (new : Option κ) :
    (family.push new).keys[slot]? = some key := by
  rw [push, List.getElem?_append_left (lt_length_of_getElem? known), known]

/-- A key that is put where it was changes nothing. -/
theorem put_self (known : family.keys[slot]? = some key) : family.put slot key = family := by
  obtain ⟨bound, rfl⟩ := List.getElem?_eq_some_iff.mp known
  rw [put, List.set_getElem_self]

/-- A slot keeps a key behind every request.  It has become what the calls and the comparisons make
of it. -/
theorem exists_getElem?_serve {Later : κ → κ → Prop} {calls : Call → Prop}
    (refl : ∀ key, Later key key)
    (call : ∀ key call, calls call → Later key (manner.call family.installed key call).2)
    (compare : ∀ a b, Later a (manner.compare family.installed a b).2.1 ∧
      Later b (manner.compare family.installed a b).2.2)
    (known : family.keys[slot]? = some key) {request : Request} (within : request.Within calls) :
    ∃ later, (family.serve manner request).2.keys[slot]? = some later ∧ Later key later := by
  cases request with
  | install offered => exact ⟨key, known, refl key⟩
  | call asked question =>
    rw [serve]
    cases present : family.keys[asked]? with
    | none => exact ⟨key, known, refl key⟩
    | some old =>
      by_cases same : asked = slot
      · subst same
        cases Option.some.inj (present.symm.trans known)
        exact ⟨_, getElem?_put_self (lt_length_of_getElem? known) _, call _ question within⟩
      · exact ⟨key, (getElem?_put_of_ne same _).trans known, refl key⟩
  | compare first second =>
    rw [serve]
    split
    · next a b presentA presentB =>
      obtain ⟨laterA, laterB⟩ := compare a b
      -- where a key is compared with itself, its slot takes the second one of the two
      by_cases same : second = slot
      · subst same
        cases Option.some.inj (presentB.symm.trans known)
        have bound := lt_length_of_getElem? known
        exact ⟨_, getElem?_put_self (by rwa [length_put]) _, laterB⟩
      · by_cases sameFirst : first = slot
        · subst sameFirst
          cases Option.some.inj (presentA.symm.trans known)
          have kept := getElem?_put_self (lt_length_of_getElem? known)
          exact ⟨_, (getElem?_put_of_ne same _).trans (kept _), laterA⟩
        · refine ⟨key, ?_, refl key⟩
          exact ((getElem?_put_of_ne same _).trans (getElem?_put_of_ne sameFirst _)).trans known
    · exact ⟨key, known, refl key⟩
  | copy copied => exact ⟨key, getElem?_push known _, refl key⟩
  | half halved => exact ⟨key, getElem?_push known _, refl key⟩

/-- A key that is not asked stays as it is. -/
theorem getElem?_serve {request : Request} (apart : slot ∉ request.slots)
    (known : family.keys[slot]? = some key) :
    (family.serve manner request).2.keys[slot]? = some key := by
  cases request with
  | install offered => exact known
  | call asked question =>
    have apart : asked ≠ slot := fun same => apart (same ▸ List.mem_singleton_self _)
    rw [serve]
    cases family.keys[asked]? with
    | none => exact known
    | some old => exact (getElem?_put_of_ne apart _).trans known
  | compare first second =>
    have apartFirst : first ≠ slot := fun same => apart (same ▸ List.mem_cons_self)
    have apartSecond : second ≠ slot := fun same => apart (by simp [Request.slots, same])
    rw [serve]
    split
    · exact ((getElem?_put_of_ne apartSecond _).trans (getElem?_put_of_ne apartFirst _)).trans known
    · exact known
  | copy copied => exact getElem?_push known _
  | half halved => exact getElem?_push known _

theorem getElem?_serveAll {requests : List Request}
    (apart : ∀ request ∈ requests, slot ∉ request.slots) (known : family.keys[slot]? = some key) :
    (family.serveAll manner requests).2.keys[slot]? = some key := by
  induction requests generalizing family with
  | nil => exact known
  | cons request rest ih =>
    obtain ⟨head, others⟩ := List.forall_mem_cons.mp apart
    exact ih others (getElem?_serve head known)

end Slots

end Family

/-! ### Failures -/

namespace Family

variable {family : Family Key} {request : Request}

/-- A request that fails changes nothing. -/
theorem serve_of_failed (h : (family.serve .remembering request).1.failed = true) :
    (family.serve .remembering request).2 = family := by
  cases request with
  | call slot call =>
    rw [serve] at h ⊢
    cases known : family.keys[slot]? with
    | none => rfl
    | some key =>
      rw [known] at h
      have unchanged : (key.call family.installed call).2 = key := Key.call_of_failed h
      exact (congrArg (family.put slot) unchanged).trans (put_self known)
  | compare slot other =>
    rw [serve] at h
    split at h <;> exact nomatch h
  | _ => exact nomatch h

/-- Without a registry keys may be asked in vain, which changes nothing. -/
theorem serve_of_no_registry (absent : family.installed = none) (asks : request.slots ≠ [])
    (gift : request.gives = false) : (family.serve .remembering request).2 = family := by
  cases request with
  | call slot call =>
    rw [serve]
    cases known : family.keys[slot]? with
    | none => rfl
    | some key =>
      have unchanged : (key.call family.installed call).2 = key := by
        rw [absent, Key.call_none gift]
      exact (congrArg (family.put slot) unchanged).trans (put_self known)
  | compare slot other =>
    rw [serve]
    split
    · next a b presentA presentB =>
      have unchanged : (Key.compare family.installed a b).2 = (a, b) := by
        rw [absent, Key.compare_none]
      change (family.put slot (Key.compare family.installed a b).2.1).put other
        (Key.compare family.installed a b).2.2 = family
      rw [unchanged]
      dsimp only
      rw [put_self presentA, put_self presentB]
    · rfl
  | _ => exact absurd rfl asks

end Family

/-! ### What keys remember -/

namespace Family

/-- The keys, as the events have left them. -/
def memories (family : Family Account) : Family Key :=
  ⟨family.installed, family.keys.map Account.key⟩

/-- What the keys are made of. -/
def origins (family : Family Account) : Family Origin :=
  ⟨family.installed, family.keys.map Account.origin⟩

theorem related_memories_iff {family : Family Account} {keys : Family Key} :
    Related (fun _ account key => account.key = key) family keys ↔ keys = family.memories := by
  have slots {accounts : List Account} {keys : List Key} :
      List.Forall₂ (fun account key => account.key = key) accounts keys ↔
        accounts.map Account.key = keys := by
    rw [← List.forall₂_eq_eq_eq, List.forall₂_map_left_iff]
  constructor
  · rintro ⟨installed, related⟩
    rw [memories, installed, slots.mp related]
  · rintro rfl
    exact ⟨rfl, slots.mpr rfl⟩

/-- A family of keys does what the accounts say. -/
theorem serveAll_memories (family : Family Account) (requests : List Request) :
    family.memories.serveAll .remembering requests =
      ((family.serveAll .told requests).1, (family.serveAll .told requests).2.memories) := by
  obtain ⟨replies, after⟩ := related_serveAll Manner.told_simulates_remembering
    (related_memories_iff.mpr rfl) fun request (_ : request ∈ requests) => request.within_true
  exact Prod.ext replies.symm (related_memories_iff.mp after)

/-- Slot by slot, more may have happened to the keys after some requests. -/
theorem exists_later (family : Family Account) (requests : List Request) {slot : Nat}
    {account : Account} (known : family.keys[slot]? = some account) :
    ∃ later, (family.serveAll .told requests).2.keys[slot]? = some later ∧
      account.Later later := by
  induction requests generalizing family account with
  | nil => exact ⟨account, known, Account.Later.refl account⟩
  | cons request rest ih =>
    have compare (a b : Account) : a.Later (a.compare family.installed b).2.1 ∧
        b.Later (a.compare family.installed b).2.2 :=
      ⟨a.later_asked family.installed _, b.later_asked family.installed _⟩
    have served : ∃ next, (family.serve .told request).2.keys[slot]? = some next ∧
        account.Later next :=
      exists_getElem?_serve Account.Later.refl
        (fun account call _ => account.later_call family.installed call) compare known
        request.within_true
    obtain ⟨next, known, step⟩ := served
    obtain ⟨later, known, run⟩ := ih _ known
    exact ⟨later, known, step.trans run⟩

/-- Unless a hash is given, a family of keys replies as if the keys remembered nothing. -/
theorem serveAll_origins {family : Family Account}
    (unseeded : ∀ account ∈ family.keys, account.Unseeded family.installed)
    {requests : List Request} (gifts : ∀ request ∈ requests, request.gives = false) :
    (family.serveAll .told requests).1 = (family.origins.serveAll .forgetful requests).1 := by
  have related : Related (fun installed account origin =>
      account.origin = origin ∧ account.Unseeded installed) family family.origins := by
    refine ⟨rfl, List.forall₂_map_right_iff.mpr (List.forall₂_same.mpr ?_)⟩
    exact fun account mem => ⟨rfl, unseeded account mem⟩
  exact (related_serveAll Manner.told_simulates_forgetful related
    fun request mem => Request.within_of_gives (gifts request mem)).1

/-- Whatever is asked of keys, of their copies and of the copies of these, they reply and remember
what their accounts say: each of them follows the events that happened to it and to its originals.
A hash that came first under its algorithm is answered ever after.  If no key was given a hash, the
keys reply as if they remembered nothing.  A key that is not asked itself stays as it is, and so do
all keys when a request fails or there is no registry to ask.  A copy is the same key, and a public
half remembers what the key remembers. -/
theorem memories_follow_the_first_events (start : Family Account) (requests : List Request) :
    start.memories.serveAll .remembering requests =
      ((start.serveAll .told requests).1, (start.serveAll .told requests).2.memories) ∧
    (∀ account ∈ (start.serveAll .told requests).2.keys, ∀ point,
      account.origin.half? = some point → account.key.Follows point account.events) ∧
    (∀ (slot : Nat) (account : Account) point hash, start.keys[slot]? = some account →
      account.origin.half? = some point → Event.FirstBrings point account.events hash →
      ∃ key : Key, (start.memories.serveAll .remembering requests).2.keys[slot]? = some key ∧
        ∀ installed, (key.hash installed hash.algorithm).1 = .ok hash) ∧
    ((∀ account ∈ start.keys, account.Unseeded start.installed) →
      (∀ request ∈ requests, request.gives = false) →
      (start.memories.serveAll .remembering requests).1 =
        (start.origins.serveAll .forgetful requests).1) ∧
    (∀ (slot : Nat) key, start.memories.keys[slot]? = some key →
      (∀ request ∈ requests, slot ∉ request.slots) →
      (start.memories.serveAll .remembering requests).2.keys[slot]? = some key) ∧
    (∀ request, (start.memories.serve .remembering request).1.failed = true ∨
        start.installed = none ∧ request.slots ≠ [] ∧ request.gives = false →
      (start.memories.serve .remembering request).2 = start.memories) ∧
    ∀ (slot : Nat) key half, start.memories.keys[slot]? = some key → key.public? = some half →
      (start.memories.serve .remembering (.copy slot)).2.keys = start.memories.keys ++ [key] ∧
      (start.memories.serve .remembering (.half slot)).2.keys =
        start.memories.keys ++ [.publicKey half] := by
  refine ⟨serveAll_memories start requests, ?_, ?_, ?_, ?_, ?_, ?_⟩
  · intro account _ point made
    exact Account.follows made
  · intro slot account point hash known made first
    obtain ⟨later, found, sameOrigin, more, events⟩ := exists_later start requests known
    have stays : Event.FirstBrings point later.events hash := events ▸ first.append more
    refine ⟨later.key, ?_, (Account.follows (sameOrigin ▸ made)).first stays⟩
    rw [serveAll_memories, memories, List.getElem?_map, found]
    rfl
  · intro unseeded gifts
    rw [serveAll_memories]
    exact serveAll_origins unseeded gifts
  · intro slot key known apart
    exact getElem?_serveAll apart known
  · rintro request (failed | ⟨absent, asks, gift⟩)
    · exact serve_of_failed failed
    · exact serve_of_no_registry absent asks gift
  · intro slot key half known point
    constructor
    · rw [serve, push, known]
      rfl
    · have halved : Manner.remembering.half? key = some (.publicKey half) :=
        congrArg (Option.map Key.publicKey) point
      rw [serve, push, known, Option.bind_some, halved]
      rfl

/-- A hash of nothing at all. -/
def falseHash : HashValue := .ofDigest "sha256" []

/-- A point that was given a false hash, and the private key of the point, before there is a
registry. -/
def deceived : Family Account :=
  ⟨none, [⟨.point .p256 1 2, [.given falseHash]⟩, ⟨.pair .p256 1 2 3, []⟩]⟩

/-- The public half of the private key is copied, compared and asked, and so is the point, which is
given another hash. -/
def examination : List Request :=
  [.half 1, .call 0 (.give (.ofDigest "sha256" [1])), .install .standard, .compare 0 2, .copy 2,
    .call 0 (.hash "sha512"), .call 3 .natural]

/-- The private key alone, before there is a registry. -/
def honest : Family Account := ⟨none, [⟨.pair .p256 1 2 3, []⟩]⟩

/-- The false hash is answered for good, and the private key of the point, which is not asked, does
not learn of it.  A private key that was given no hash replies as if it remembered nothing. -/
theorem given_hash_is_answered_for_good :
    (∃ key : Key, (deceived.memories.serveAll .remembering examination).2.keys[0]? = some key ∧
      ∀ installed, (key.hash installed "sha256").1 = .ok falseHash) ∧
    (deceived.memories.serveAll .remembering examination).2.keys[1]? =
      some (.privateKey (.ofParts .p256 1 2 3)) ∧
    (deceived.memories.serve .remembering (.call 1 (.hash "sha256"))).2 = deceived.memories ∧
    (deceived.memories.serve .remembering (.half 1)).2.keys =
      deceived.memories.keys ++ [.publicKey (.ofPoint .p256 1 2)] ∧
    (honest.memories.serveAll .remembering [.install .standard, .half 0, .compare 1 0,
        .call 0 .subject]).1 =
      (honest.origins.serveAll .forgetful [.install .standard, .half 0, .compare 1 0,
        .call 0 .subject]).1 := by
  obtain ⟨-, -, first, -, apart, failed, halves⟩ :=
    memories_follow_the_first_events deceived examination
  refine ⟨?_, ?_, ?_, ?_, ?_⟩
  · have given : Event.FirstBrings (.ofPoint .p256 1 2) [.given falseHash] falseHash :=
      ⟨[], .given falseHash, [], rfl, rfl, fun _ mem => nomatch mem⟩
    exact first 0 _ _ falseHash rfl rfl given
  · exact apart 1 _ rfl (by decide)
  · exact failed _ (Or.inl rfl)
  · exact (halves 1 _ _ rfl rfl).2
  · have unseeded : ∀ account ∈ honest.keys, account.Unseeded honest.installed := by
      intro account mem
      cases List.mem_singleton.mp mem
      exact fun _ mem => nomatch mem
    exact (memories_follow_the_first_events honest _).2.2.2.1 unseeded (by decide)

end Family

end SimplePki
