import SimplePki.Proofs.Key.History

/-!
# What is asked of one key

A key is asked for hashes, for digests, for its name, and a public key may be given a hash.  Each of
these calls can be answered from what has happened to the key, and then something more has happened.
If the key was never given a hash, they can even be answered from what it is made of, with each hash
computed afresh.  With a hash that was given a key answers, true or not.

A call that fails changes nothing, and neither does any call but a gift before there is a registry.

## Main definitions

* `Key.Call`, `Key.Reply`, `Key.call`: what is asked of a key, what it replies and remembers
* `Key.Account.call`, `Key.Origin.call`: the same by the events, and with nothing remembered
* `Key.Follows`: a key answers and remembers what events brought, the first under each algorithm

## Main results

* `Key.Account.call_key`: a key replies as its events say
* `Key.Account.call_of_unseeded`: without given hashes it replies as if it remembered nothing
* `Key.call_cases`, `Key.call_of_failed`: a call is a question, and changes nothing if it fails
* `Key.Account.follows`: a key follows the events that happened to it
-/

namespace SimplePki

namespace PublicKey

/-- A point that is given what a key remembers is the key. -/
theorem foldl_withHash_memo (half : PublicKey) (distinct : half.memo.Distinct) :
    half.memo.hashes.foldl withHash (ofPoint half.curve half.x half.y) = half := by
  have given (key : PublicKey) (hashes : List HashValue) : hashes.foldl withHash key =
      { key with memo := hashes.foldl HashKey.insert key.memo } := by
    induction hashes generalizing key with
    | nil => rfl
    | cons hash rest ih => exact ih (key.withHash hash)
  have memo : half.memo.hashes.foldl HashKey.insert .empty = half.memo :=
    HashKey.ofList_hashes distinct
  rw [given, ofPoint, memo]

/-- A key that cannot compute a hash remembers what it did. -/
theorem hash_snd_of_error {installed : Installed} {algorithm : String} {key : PublicKey}
    {error : Error} (h : key.trueHash installed algorithm = .error error) :
    (key.hash installed algorithm).2 = key := by
  rw [PublicKey.hash, h]
  cases key.memo.find? algorithm <;> rfl

end PublicKey

namespace Key

variable {installed : Installed}

/-- Something that is asked of one key.  Only a public key can be given a hash, or be asked for its
natural one. -/
inductive Call where
  | give (hash : HashValue)
  | hash (algorithm : String)
  | digest (algorithm : String)
  | natural
  | subject

/-- Whether a call gives the key a hash. -/
def Call.gives : Call → Bool
  | give _ => true
  | _ => false

/-- What is replied; nothing where there is nothing to say. -/
inductive Reply where
  | nothing
  | hash (answer : Outcome HashValue)
  | digest (answer : Outcome Octets)
  | subject (answer : Outcome SExpr)
  | verdict (holds : Bool)
  deriving DecidableEq

/-- Whether a reply reports an error. -/
def Reply.failed : Reply → Bool
  | hash (.error _) | digest (.error _) | subject (.error _) => true
  | _ => false

/-- The reply to a call, and the key that remembers it. -/
def call (installed : Installed) (key : Key) : Call → Reply × Key
  | .give hash =>
    match key with
    | publicKey half => (.nothing, publicKey (half.withHash hash))
    | _ => (.nothing, key)
  | .hash algorithm =>
    let (answer, key) := key.hash installed algorithm
    (.hash answer, key)
  | .digest algorithm =>
    let (answer, key) := key.hash installed algorithm
    (.digest (answer.map HashValue.digest), key)
  | .natural =>
    match key with
    | publicKey half =>
      let (answer, half) := half.naturalHash installed
      (.hash answer, publicKey half)
    | _ => (.nothing, key)
  | .subject =>
    let (answer, key) := key.subject installed
    (.subject answer, key)

namespace Account

/-- The reply to a call by the events, and what has happened then.  A private key is named by a copy
of its half, so that nothing happens to the key. -/
def call (installed : Installed) (account : Account) : Call → Reply × Account
  | .give hash =>
    match account.origin with
    | .point _ _ _ => (.nothing, account.note (.given hash))
    | _ => (.nothing, account)
  | .hash algorithm =>
    (.hash (account.answer installed algorithm), account.asked installed [algorithm])
  | .digest algorithm =>
    (.digest ((account.answer installed algorithm).map HashValue.digest),
      account.asked installed [algorithm])
  | .natural =>
    match account.origin with
    | .point curve _ _ =>
      (.hash (account.answer installed curve.digestAlgorithm.name),
        account.asked installed [curve.digestAlgorithm.name])
    | _ => (.nothing, account)
  | .subject =>
    match account.origin with
    | .hashes known => (.subject ((HashKey.ofList known).first.map HashValue.encode), account)
    | .point curve _ _ =>
      (.subject ((account.answer installed curve.digestAlgorithm.name).map HashValue.encode),
        account.asked installed [curve.digestAlgorithm.name])
    | .pair curve _ _ _ =>
      (.subject ((account.answer installed curve.digestAlgorithm.name).map HashValue.encode),
        account)

/-- A hash that is given is kept behind the others. -/
theorem key_note_given (curve : Curve) (x y : Nat) (events : List Event) (hash : HashValue) :
    (note ⟨.point curve x y, events⟩ (.given hash)).key =
      .publicKey (PublicKey.withHash ⟨curve, x, y, .ofList (hashes ⟨.point curve x y, events⟩)⟩
        hash) := by
  rw [key, hashes_note_given rfl, HashKey.ofList_append_singleton]
  rfl

/-- A key replies to a call as its events say, and they tell what it remembers then. -/
theorem call_key (account : Account) (call : Call) :
    account.key.call installed call =
      ((account.call installed call).1, (account.call installed call).2.key) := by
  cases call with
  | hash algorithm =>
    rw [Key.call, hash_key]
    rfl
  | digest algorithm =>
    rw [Key.call, hash_key]
    rfl
  | give hash =>
    obtain ⟨origin, events⟩ := account
    cases origin with
    | point curve x y =>
      dsimp only [Account.call]
      rw [key_note_given]
      rfl
    | _ => rfl
  | natural =>
    obtain ⟨origin, events⟩ := account
    cases origin with
    | point curve x y =>
      change (Reply.hash ((key ⟨.point curve x y, events⟩).hash installed _).1,
        ((key ⟨.point curve x y, events⟩).hash installed _).2) = _
      rw [hash_key]
      rfl
    | _ => rfl
  | subject =>
    obtain ⟨origin, events⟩ := account
    cases origin with
    | hashes known => rfl
    | point curve x y =>
      change (Reply.subject (((key ⟨.point curve x y, events⟩).hash installed _).1.map _),
        ((key ⟨.point curve x y, events⟩).hash installed _).2) = _
      rw [hash_key]
      rfl
    | pair curve x y scalar =>
      change (Reply.subject (((key ⟨.pair curve x y scalar, events⟩).hash installed
        curve.digestAlgorithm.name).1.map _), _) = _
      rw [hash_key]
      rfl

/-- Keys are compared by what has happened to them: both are asked under the algorithms of the
first, up to an agreement. -/
def compare (installed : Installed) (a b : Account) : Bool × Account × Account :=
  ((a.origin.tried installed).any (agrees installed a b),
    a.asked installed (upTo (agrees installed a b) (a.origin.tried installed)),
    b.asked installed (upTo (agrees installed a b) (a.origin.tried installed)))

/-- What the public half knows of the key. -/
def half? (account : Account) : Option Account :=
  match account.origin with
  | .hashes _ => none
  | .point curve x y => some ⟨.point curve x y, account.events⟩
  | .pair curve x y _ => some ⟨.point curve x y, account.events⟩

end Account

namespace Origin

/-- The reply to a call with each hash computed afresh. -/
def call (installed : Installed) (origin : Origin) : Call → Reply
  | .give _ => .nothing
  | .hash algorithm => .hash (origin.fresh installed algorithm)
  | .digest algorithm => .digest ((origin.fresh installed algorithm).map HashValue.digest)
  | .natural =>
    match origin with
    | .point curve _ _ => .hash (origin.fresh installed curve.digestAlgorithm.name)
    | _ => .nothing
  | .subject =>
    match origin with
    | .hashes known => .subject ((HashKey.ofList known).first.map HashValue.encode)
    | .point curve _ _ | .pair curve _ _ _ =>
      .subject ((origin.fresh installed curve.digestAlgorithm.name).map HashValue.encode)

/-- Whether two keys have a hash in common, each hash computed afresh. -/
def sameAs (installed : Installed) (a b : Origin) : Bool :=
  (a.tried installed).any fun algorithm =>
    agree (a.fresh installed algorithm) (b.fresh installed algorithm)

end Origin

/-! ### Keys that were given no hash -/

/-- The event is a question, asked under the registry that is installed or before there was one. -/
def Event.IsQuestion (installed : Installed) : Event → Prop
  | given _ => False
  | asked known _ => known = none ∨ known = installed

/-- The key was never given a hash. -/
def Account.Unseeded (installed : Installed) (account : Account) : Prop :=
  ∀ event ∈ account.events, event.IsQuestion installed

namespace Account

/-- A key that was given no hash answers what would be computed. -/
theorem answer_of_unseeded {account : Account} (h : account.Unseeded installed)
    (algorithm : String) :
    account.answer installed algorithm = account.origin.fresh installed algorithm := by
  cases brought : account.first? algorithm with
  | none => rw [answer, brought]
  | some hash =>
    rw [answer, brought]
    dsimp only
    cases point : account.origin.half? with
    | none =>
      rw [first?, hashes, point] at brought
      cases brought
    | some half =>
      rw [Origin.fresh_of_half? point]
      -- the event that brought the hash was a question, which brought what is computed now
      obtain ⟨named, _, event, _, split, brings, -⟩ := (first?_eq_some_iff point).mp brought
      have question : event.IsQuestion installed := h event (by rw [split]; simp)
      cases event with
      | given _ => exact question.elim
      | asked known under =>
        obtain ⟨registry, alg, rfl, registered, rfl, rfl⟩ := brings
        rcases question with absent | rfl
        · cases absent
        · rw [← named]
          exact (PublicKey.trueHash_of_mem registered half).symm

theorem Unseeded.asked {account : Account} (h : account.Unseeded installed)
    (algorithms : List String) : (account.asked installed algorithms).Unseeded installed := by
  intro event mem
  rcases List.mem_append.mp mem with old | new
  · exact h event old
  · obtain ⟨_, -, rfl⟩ := List.mem_map.mp new
    exact Or.inr rfl

/-- Unless it is given a hash, such a key replies as if it remembered nothing. -/
theorem call_of_unseeded {account : Account} (h : account.Unseeded installed) {call : Call}
    (gift : call.gives = false) :
    (account.call installed call).1 = account.origin.call installed call ∧
      (account.call installed call).2.origin = account.origin ∧
      (account.call installed call).2.Unseeded installed := by
  have fresh := answer_of_unseeded h
  have asked := h.asked
  have named (algorithm : String) :
      Reply.subject ((account.answer installed algorithm).map HashValue.encode) =
        .subject ((account.origin.fresh installed algorithm).map HashValue.encode) := by rw [fresh]
  obtain ⟨origin, events⟩ := account
  cases call with
  | give hash => exact nomatch gift
  | hash algorithm => exact ⟨congrArg Reply.hash (fresh algorithm), rfl, asked [algorithm]⟩
  | digest algorithm =>
    refine ⟨?_, rfl, asked [algorithm]⟩
    rw [Account.call, fresh]
    rfl
  | natural =>
    cases origin with
    | point curve x y => exact ⟨congrArg Reply.hash (fresh _), rfl, asked [_]⟩
    | _ => exact ⟨rfl, rfl, h⟩
  | subject =>
    cases origin with
    | hashes known => exact ⟨rfl, rfl, h⟩
    | point curve x y => exact ⟨named _, rfl, asked [_]⟩
    | pair curve x y scalar => exact ⟨named _, rfl, h⟩

end Account

/-! ### Failures -/

/-- A key whose public half stays as it is stays so itself. -/
theorem hash_snd_of_half {installed : Installed} {algorithm : String} {key : Key}
    (h : ∀ half, key.public? = some half → (half.hash installed algorithm).2 = half) :
    (key.hash installed algorithm).2 = key := by
  cases key with
  | hashKey known => rfl
  | publicKey half => exact congrArg publicKey (h half rfl)
  | privateKey pair =>
    exact congrArg (fun half => privateKey ⟨half, pair.scalar⟩) (h pair.half rfl)

/-- A key that cannot answer remembers what it did. -/
theorem hash_of_error {installed : Installed} {algorithm : String} {key : Key} {error : Error}
    (h : (key.hash installed algorithm).1 = .error error) :
    (key.hash installed algorithm).2 = key := by
  apply hash_snd_of_half
  intro half point
  rw [hash_of_public? point] at h
  cases remembered : half.memo.find? algorithm with
  | some known => rw [PublicKey.hash_of_memo remembered]
  | none =>
    rw [PublicKey.hash_of_not_memo remembered] at h
    exact PublicKey.hash_snd_of_error h

/-- Without a registry a question changes nothing. -/
theorem hash_none (key : Key) (algorithm : String) : (key.hash none algorithm).2 = key := by
  apply hash_snd_of_half
  intro half _
  exact PublicKey.hash_snd_of_error rfl

namespace Reply

theorem failed_hash {answer : Outcome HashValue} :
    (hash answer).failed = true ↔ ∃ error, answer = .error error := by
  cases answer <;> simp [failed]

theorem failed_digest {answer : Outcome HashValue} {f : HashValue → Octets} :
    (digest (answer.map f)).failed = true ↔ ∃ error, answer = .error error := by
  cases answer <;> simp [failed, Except.map]

theorem failed_subject {answer : Outcome HashValue} {f : HashValue → SExpr} :
    (subject (answer.map f)).failed = true ↔ ∃ error, answer = .error error := by
  cases answer <;> simp [failed, Except.map]

end Reply

/-- A call that gives no hash leaves a key as it is, or asks it for one hash and fails if the key
cannot answer. -/
theorem call_cases (installed : Installed) (key : Key) {call : Call} (gift : call.gives = false) :
    (key.call installed call).2 = key ∨
      ∃ algorithm, (key.call installed call).2 = (key.hash installed algorithm).2 ∧
        ((key.call installed call).1.failed = true →
          ∃ error, (key.hash installed algorithm).1 = .error error) := by
  cases call with
  | give hash => exact nomatch gift
  | hash algorithm => exact Or.inr ⟨algorithm, rfl, Reply.failed_hash.mp⟩
  | digest algorithm => exact Or.inr ⟨algorithm, rfl, Reply.failed_digest.mp⟩
  | natural =>
    cases key with
    | publicKey half => exact Or.inr ⟨half.curve.digestAlgorithm.name, rfl, Reply.failed_hash.mp⟩
    | _ => exact Or.inl rfl
  | subject =>
    cases key with
    | publicKey half =>
      exact Or.inr ⟨half.curve.digestAlgorithm.name, rfl, Reply.failed_subject.mp⟩
    | _ => exact Or.inl rfl

/-- A call that fails changes nothing. -/
theorem call_of_failed {installed : Installed} {key : Key} {call : Call}
    (h : (key.call installed call).1.failed = true) : (key.call installed call).2 = key := by
  have gift : call.gives = false := by
    cases call with
    | give hash => cases key <;> exact nomatch h
    | _ => rfl
  rcases call_cases installed key gift with unchanged | ⟨algorithm, asked, failed⟩
  · exact unchanged
  · obtain ⟨error, answered⟩ := failed h
    rw [asked, hash_of_error answered]

theorem call_none {key : Key} {call : Call} (gift : call.gives = false) :
    (key.call none call).2 = key := by
  rcases call_cases none key gift with unchanged | ⟨algorithm, asked, -⟩
  · exact unchanged
  · rw [asked, hash_none]

theorem compare_none (a b : Key) : (compare none a b).2 = (a, b) := by
  have unchanged (hashes : List HashValue) : (hasAny none hashes b).2 = b := by
    induction hashes with
    | nil => rfl
    | cons hash rest ih =>
      rw [hasAny]
      dsimp only
      rw [hash_none]
      split
      · rfl
      · exact ih
  cases a with
  | hashKey known => exact congrArg (Prod.mk _) (unchanged known.hashes)
  | _ => rfl

/-! ### What keys remember -/

/-- A key with a point follows events if the first one under an algorithm decides its answer, and
otherwise the answer is computed.  The key remembers what the events brought, the first hash under
each algorithm, in order: a point that is given all this is the public half. -/
structure Follows (key : Key) (point : PublicKey) (events : List Event) : Prop where
  first : ∀ {hash}, Event.FirstBrings point events hash →
    ∀ installed, (key.hash installed hash.algorithm).1 = .ok hash
  fresh : ∀ {algorithm},
    (∀ event ∈ events, ∀ hash, event.Brings point hash → hash.algorithm ≠ algorithm) →
    ∀ installed, (key.hash installed algorithm).1 = point.trueHash installed algorithm
  memory : ∃ half, key.public? = some half ∧ half.memo.Distinct ∧
    half.memo.hashes =
      (events.filterMap (Event.hash? point)).eraseDupsBy HashKey.sameAlgorithm ∧
    half.memo.hashes.foldl PublicKey.withHash point = half

/-- The point of a key remembers nothing by itself. -/
theorem Origin.eq_ofPoint {origin : Origin} {point : PublicKey}
    (made : origin.half? = some point) : point = .ofPoint point.curve point.x point.y := by
  cases origin <;> cases made <;> rfl

/-- The public half remembers what the events brought. -/
theorem Account.public?_key {account : Account} {point : PublicKey}
    (made : account.origin.half? = some point) :
    account.key.public? =
      some ⟨point.curve, point.x, point.y, .ofList account.hashes⟩ := by
  obtain ⟨origin, events⟩ := account
  cases origin <;> cases made <;> rfl

/-- A key follows the events of its account. -/
theorem Account.follows {account : Account} {point : PublicKey}
    (made : account.origin.half? = some point) : account.key.Follows point account.events where
  first := by
    intro hash first installed
    rw [hash_key, answer, (first?_eq_some_iff made).mpr ⟨rfl, first⟩]
  fresh := by
    intro algorithm silent installed
    have nothing : account.first? algorithm = none := by
      by_contra brought
      obtain ⟨hash, brought⟩ := Option.ne_none_iff_exists'.mp brought
      obtain ⟨named, _, event, _, split, brings, -⟩ := (first?_eq_some_iff made).mp brought
      exact silent event (by rw [split]; simp) hash brings named
    rw [hash_key, answer, nothing]
    exact Origin.fresh_of_half? made algorithm
  memory := by
    have distinct := HashKey.distinct_ofList account.hashes
    have kept : (HashKey.ofList account.hashes).hashes =
        (account.events.filterMap (Event.hash? point)).eraseDupsBy HashKey.sameAlgorithm := by
      rw [HashKey.hashes_ofList, hashes_of_half? made]
    have given : (HashKey.ofList account.hashes).hashes.foldl PublicKey.withHash point =
        ⟨point.curve, point.x, point.y, .ofList account.hashes⟩ := by
      nth_rewrite 1 [Origin.eq_ofPoint made]
      exact PublicKey.foldl_withHash_memo
        ⟨point.curve, point.x, point.y, .ofList account.hashes⟩ distinct
    exact ⟨_, public?_key made, distinct, kept, given⟩

/-- More may have happened to a key since. -/
def Account.Later (account later : Account) : Prop :=
  later.origin = account.origin ∧ ∃ more, later.events = account.events ++ more

namespace Account

theorem Later.refl (account : Account) : account.Later account :=
  ⟨rfl, [], (List.append_nil _).symm⟩

theorem Later.trans {a b c : Account} (h : a.Later b) (h' : b.Later c) : a.Later c := by
  obtain ⟨made, more, events⟩ := h
  obtain ⟨made', more', events'⟩ := h'
  refine ⟨made'.trans made, more ++ more', ?_⟩
  rw [events', events, List.append_assoc]

theorem later_asked (account : Account) (installed : Installed) (algorithms : List String) :
    account.Later (account.asked installed algorithms) := ⟨rfl, _, rfl⟩

theorem later_call (account : Account) (installed : Installed) (call : Call) :
    account.Later (account.call installed call).2 := by
  cases call with
  | give hash =>
    rw [Account.call]
    split
    · exact ⟨rfl, _, rfl⟩
    · exact Later.refl account
  | hash algorithm => exact later_asked account installed _
  | digest algorithm => exact later_asked account installed _
  | natural =>
    rw [Account.call]
    split
    · exact later_asked account installed _
    · exact Later.refl account
  | subject =>
    rw [Account.call]
    split
    · exact Later.refl account
    · exact later_asked account installed _
    · exact Later.refl account

end Account

end Key

end SimplePki
