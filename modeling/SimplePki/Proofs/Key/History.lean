import SimplePki.Proofs.Key.Identity

/-!
# Keys and what has happened to them

A key remembers hashes that it was given and hashes that it computed.  What it remembers is here
described by what has happened to it, as a list of events in their order, and nothing else: of the
hashes that the events bring, the first under each algorithm.  So the first event under an algorithm
decides what a key answers under it, and where there is none the key computes the answer.

To ask a key is such an event.  When keys are compared, both are asked under one algorithm after the
other, up to the first one under which they agree, whichever kinds of keys they are.

## Main definitions

* `Key.Origin`: what a key is made of
* `Key.Event`: a hash that is given, or a question
* `Key.Event.Brings`, `Key.Event.FirstBrings`: the hash that an event brings, and the first one under
  its algorithm
* `Key.Account`: what a key is made of, and what has happened to it since
* `Key.Account.first?`, `Key.Account.answer`: what is answered by the events
* `Key.Account.key`: the key, as the events have left it

## Main results

* `HashKey.hashes_ofList`: of many hashes the first under each algorithm are kept, in order
* `Key.Account.first?_eq_some_iff`: the hash that is found is that of the first event
* `Key.Account.hash_key`: a key answers by its events, and asking it is one more event
* `Key.Account.answer_asked`: asking a key changes none of its answers
* `Key.Account.compare_key`: comparing keys is asking them up to the first agreement
-/

namespace SimplePki

/-! ### The first hash under each algorithm -/

namespace HashKey

variable {hash : HashValue} {algorithm : String}

/-- Whether two hashes are under one algorithm. -/
def sameAlgorithm (a b : HashValue) : Bool := a.algorithm == b.algorithm

theorem find?_foldl_insert (key : HashKey) (hashes : List HashValue) (algorithm : String) :
    (hashes.foldl insert key).find? algorithm =
      (key.find? algorithm).or (hashes.find? fun hash => hash.algorithm == algorithm) := by
  induction hashes generalizing key with
  | nil => exact (Option.or_none).symm
  | cons hash rest ih =>
    rw [List.foldl_cons, ih, find?_insert, Option.or_assoc, List.find?_cons]
    by_cases same : hash.algorithm = algorithm
    · rw [if_pos same, beq_iff_eq.mpr same]
      rfl
    · rw [if_neg same, beq_false_of_ne same]
      rfl

/-- Of many hashes the first under an algorithm is found. -/
theorem find?_ofList (hashes : List HashValue) (algorithm : String) :
    (ofList hashes).find? algorithm = hashes.find? fun hash => hash.algorithm == algorithm :=
  find?_foldl_insert empty hashes algorithm

theorem ofList_append_singleton (hashes : List HashValue) (hash : HashValue) :
    ofList (hashes ++ [hash]) = (ofList hashes).insert hash := by
  rw [ofList, List.foldl_append]
  rfl

/-- Hashes that are given to a key one after the other are kept behind what it knows, except those
under an algorithm that it knows or that came before. -/
theorem hashes_foldl_insert (key : HashKey) (hashes : List HashValue) :
    (hashes.foldl insert key).hashes =
      key.hashes ++
        (hashes.filter fun hash => (key.find? hash.algorithm).isNone).eraseDupsBy
          sameAlgorithm := by
  induction hashes generalizing key with
  | nil => exact (List.append_nil _).symm
  | cons hash rest ih =>
    rw [List.foldl_cons, ih]
    cases known : key.find? hash.algorithm with
    | some _ =>
      have kept : key.insert hash = key := by rw [insert, known, Option.isSome_some, if_pos rfl]
      rw [kept, List.filter_cons_of_neg (by simp [known])]
    | none =>
      have added : (key.insert hash).hashes = key.hashes ++ [hash] := by
        rw [insert, known, Option.isSome_none, if_neg Bool.false_ne_true]
      have others (other : HashValue) : ((key.insert hash).find? other.algorithm).isNone =
          ((key.find? other.algorithm).isNone && decide (sameAlgorithm other hash = false)) := by
        rw [find?_insert, sameAlgorithm]
        cases key.find? other.algorithm with
        | some _ => rfl
        | none =>
          by_cases same : other.algorithm = hash.algorithm
          · simp [same]
          · simp [same, Ne.symm same]
      rw [added, List.filter_cons_of_pos (by simp [known]), List.eraseDupsBy_cons,
        List.filter_filter]
      simp only [others, List.append_assoc, List.cons_append, List.nil_append, Bool.and_comm]

/-- Of many hashes the first under each algorithm are kept, in order. -/
theorem hashes_ofList (hashes : List HashValue) :
    (ofList hashes).hashes = hashes.eraseDupsBy sameAlgorithm := by
  rw [ofList, hashes_foldl_insert]
  have all (hash : HashValue) : (empty.find? hash.algorithm).isNone = true := rfl
  simp only [all, List.filter_true]
  rfl

/-- Hashes under different algorithms are all kept. -/
theorem ofList_hashes {key : HashKey} (distinct : key.Distinct) : ofList key.hashes = key := by
  have kept (hashes : List HashValue) (distinct : (hashes.map HashValue.algorithm).Nodup) :
      ofList hashes = ⟨hashes⟩ := by
    induction hashes using List.reverseRecOn with
    | nil => rfl
    | append_singleton rest hash ih =>
      rw [List.map_append, List.nodup_append] at distinct
      obtain ⟨before, -, apart⟩ := distinct
      have absent : ¬(find? ⟨rest⟩ hash.algorithm).isSome = true := by
        rw [find?, List.find?_isSome]
        rintro ⟨other, mem, same⟩
        exact apart _ (List.mem_map_of_mem mem) _ List.mem_cons_self (beq_iff_eq.mp same)
      rw [ofList_append_singleton, ih before, insert, if_neg absent]
  exact kept key.hashes distinct

/-- A hash is dropped where another one under its algorithm came before. -/
theorem ofList_append_of_find? {hashes : List HashValue} {hash known : HashValue}
    (found : (hashes.find? fun other => other.algorithm == hash.algorithm) = some known) :
    ofList (hashes ++ [hash]) = ofList hashes := by
  rw [ofList_append_singleton, insert, find?_ofList, found, Option.isSome_some, if_pos rfl]

end HashKey

namespace PublicKey

variable {installed : Installed}

/-- A key that was given hashes answers with the first one under the algorithm, or computes the
answer, and remembers what it would compute behind them. -/
theorem hash_ofList (curve : Curve) (x y : Nat) (hashes : List HashValue) (algorithm : String) :
    PublicKey.hash installed algorithm ⟨curve, x, y, .ofList hashes⟩ =
      let computed := (ofPoint curve x y).trueHash installed algorithm
      (match hashes.find? fun hash => hash.algorithm == algorithm with
        | some hash => .ok hash
        | none => computed,
        ⟨curve, x, y, .ofList (hashes ++ computed.toOption.toList)⟩) := by
  have memo := HashKey.find?_ofList hashes algorithm
  cases computed : (ofPoint curve x y).trueHash installed algorithm with
  | error error =>
    have computed : (⟨curve, x, y, .ofList hashes⟩ : PublicKey).trueHash installed algorithm =
        .error error := computed
    rw [PublicKey.hash, memo, computed]
    cases hashes.find? fun hash => hash.algorithm == algorithm <;>
      simp [Except.toOption]
  | ok hash =>
    have named := algorithm_of_trueHash computed
    have computed : (⟨curve, x, y, .ofList hashes⟩ : PublicKey).trueHash installed algorithm =
        .ok hash := computed
    rw [PublicKey.hash, memo, computed]
    cases found : hashes.find? fun hash => hash.algorithm == algorithm with
    | some known =>
      rw [← named] at found
      simp [Except.toOption, HashKey.ofList_append_of_find? found]
    | none => simp [Except.toOption, withHash, HashKey.ofList_append_singleton]

end PublicKey

namespace Key

variable {installed : Installed}

/-! ### Origins and events -/

/-- What a key is made of: hashes, a point, or a point and a scalar. -/
inductive Origin where
  | hashes (known : List HashValue)
  | point (curve : Curve) (x y : Nat)
  | pair (curve : Curve) (x y scalar : Nat)

namespace Origin

/-- The key that remembers the given hashes; one that is known by hashes has no others. -/
def key (memo : HashKey) : Origin → Key
  | hashes known => .hashKey (.ofList known)
  | point curve x y => .publicKey ⟨curve, x, y, memo⟩
  | pair curve x y scalar => .privateKey ⟨⟨curve, x, y, memo⟩, scalar⟩

/-- The public half, with nothing remembered. -/
def half? : Origin → Option PublicKey
  | hashes _ => none
  | point curve x y => some (.ofPoint curve x y)
  | pair curve x y _ => some (.ofPoint curve x y)

/-- The hash under an algorithm, computed afresh where there is a point. -/
def fresh (installed : Installed) (algorithm : String) (origin : Origin) : Outcome HashValue :=
  match origin with
  | hashes known => (HashKey.ofList known).hash algorithm
  | point curve x y => (PublicKey.ofPoint curve x y).trueHash installed algorithm
  | pair curve x y _ => (PublicKey.ofPoint curve x y).trueHash installed algorithm

theorem fresh_of_half? {origin : Origin} {half : PublicKey} (h : origin.half? = some half)
    (algorithm : String) :
    origin.fresh installed algorithm = half.trueHash installed algorithm := by
  cases origin <;> cases h <;> rfl

end Origin

/-- Something that happens to a key: it is given a hash, or it is asked for the one under an
algorithm, at a time when a registry may be installed. -/
inductive Event where
  | given (hash : HashValue)
  | asked (installed : Installed) (algorithm : String)

/-- The hash that an event brings to a point: the one that is given, or the true one, if it can be
computed. -/
def Event.hash? (half : PublicKey) : Event → Option HashValue
  | given hash => some hash
  | asked installed algorithm => (half.trueHash installed algorithm).toOption

/-- The event brings a hash to a point: the hash is given, or it is the digest of the point's
encoding under an algorithm that is asked for and registered. -/
def Event.Brings (half : PublicKey) (hash : HashValue) : Event → Prop
  | given other => other = hash
  | asked installed algorithm =>
    ∃ registry alg, installed = some registry ∧ alg ∈ registry.algorithms ∧ algorithm = alg.name ∧
      hash = half.hashUnder alg

theorem Event.hash?_eq_some_iff {half : PublicKey} {event : Event} {hash : HashValue} :
    event.hash? half = some hash ↔ event.Brings half hash := by
  cases event with
  | given other => exact Option.some_inj
  | asked installed algorithm =>
    have computed : (asked installed algorithm).hash? half = some hash ↔
        half.trueHash installed algorithm = .ok hash := by
      rw [Event.hash?]
      cases half.trueHash installed algorithm <;> simp [Except.toOption]
    rw [computed, Event.Brings]
    cases installed with
    | none => exact ⟨fun h => (nomatch h), fun ⟨_, _, h, _⟩ => nomatch h⟩
    | some registry => simp [PublicKey.trueHash_eq_ok_iff]

/-- Of the events that bring a point a hash under the same algorithm, the first one brings this
hash. -/
def Event.FirstBrings (half : PublicKey) (events : List Event) (hash : HashValue) : Prop :=
  ∃ earlier event later, events = earlier ++ event :: later ∧ event.Brings half hash ∧
    ∀ before ∈ earlier, ∀ other, before.Brings half other → other.algorithm ≠ hash.algorithm

/-- What came first stays so, whatever happens later. -/
theorem Event.FirstBrings.append {half : PublicKey} {events : List Event} {hash : HashValue}
    (h : FirstBrings half events hash) (more : List Event) :
    FirstBrings half (events ++ more) hash := by
  obtain ⟨earlier, event, later, rfl, brings, first⟩ := h
  refine ⟨earlier, event, later ++ more, ?_, brings, first⟩
  rw [List.append_assoc, List.cons_append]

/-- What a key is made of, and what has happened to it since, the first event first. -/
structure Account where
  origin : Origin
  events : List Event

namespace Account

/-- The hashes that the events brought, in order. -/
def hashes (account : Account) : List HashValue :=
  match account.origin.half? with
  | none => []
  | some half => account.events.filterMap (Event.hash? half)

/-- The hash of the first event that brought one under an algorithm. -/
def first? (account : Account) (algorithm : String) : Option HashValue :=
  account.hashes.find? fun hash => hash.algorithm == algorithm

/-- The answer by the events: the first hash that they brought under the algorithm, or what is
computed afresh. -/
def answer (installed : Installed) (algorithm : String) (account : Account) : Outcome HashValue :=
  match account.first? algorithm with
  | some hash => .ok hash
  | none => account.origin.fresh installed algorithm

/-- The key, as the events have left it. -/
def key (account : Account) : Key := account.origin.key (.ofList account.hashes)

/-- The account after one more event. -/
def note (account : Account) (event : Event) : Account :=
  { account with events := account.events ++ [event] }

/-- The account after questions for the hashes under some algorithms. -/
def asked (account : Account) (installed : Installed) (algorithms : List String) : Account :=
  { account with events := account.events ++ algorithms.map (.asked installed) }

variable {account : Account} {algorithm other : String}

theorem asked_nil (account : Account) : account.asked installed [] = account := by
  rw [asked, List.map_nil, List.append_nil]

theorem asked_cons (account : Account) (algorithm : String) (rest : List String) :
    account.asked installed (algorithm :: rest) =
      (account.asked installed [algorithm]).asked installed rest := by
  rw [asked, asked, asked, List.map_cons, List.append_cons]
  rfl

theorem hashes_append (origin : Origin) (events more : List Event) :
    hashes ⟨origin, events ++ more⟩ = hashes ⟨origin, events⟩ ++ hashes ⟨origin, more⟩ := by
  unfold hashes
  cases origin.half? with
  | none => rfl
  | some half => exact List.filterMap_append

theorem hashes_of_half? {half : PublicKey} (h : account.origin.half? = some half) :
    account.hashes = account.events.filterMap (Event.hash? half) := by
  rw [hashes, h]

/-- The hash that is found is that of the first event which brought one under the algorithm. -/
theorem first?_eq_some_iff {half : PublicKey} (h : account.origin.half? = some half)
    {hash : HashValue} :
    account.first? algorithm = some hash ↔
      hash.algorithm = algorithm ∧ Event.FirstBrings half account.events hash := by
  rw [first?, hashes_of_half? h, List.find?_eq_some_iff_append, beq_iff_eq]
  refine and_congr_right fun named => ?_
  subst named
  -- a list of hashes is cut where the list of events is, since each event brings one hash at most
  constructor
  · rintro ⟨before, after, split, passed⟩
    obtain ⟨front, back, cut, rfl, tail⟩ := List.filterMap_eq_append_iff.mp split
    obtain ⟨silent, event, later, rfl, nothing, brings, -⟩ := List.filterMap_eq_cons_iff.mp tail
    refine ⟨front ++ silent, event, later, ?_, Event.hash?_eq_some_iff.mp brings, ?_⟩
    · rw [cut, List.append_assoc]
    · intro other mem brought found
      have found := Event.hash?_eq_some_iff.mpr found
      rcases List.mem_append.mp mem with mem | mem
      · simpa using passed brought (List.mem_filterMap.mpr ⟨other, mem, found⟩)
      · rw [nothing other mem] at found
        exact nomatch found
  · rintro ⟨earlier, event, later, split, brings, first⟩
    refine ⟨earlier.filterMap (Event.hash? half), later.filterMap (Event.hash? half), ?_, ?_⟩
    · rw [split, List.filterMap_append,
        List.filterMap_cons_some (Event.hash?_eq_some_iff.mpr brings)]
    · intro brought mem
      obtain ⟨other, mem, found⟩ := List.mem_filterMap.mp mem
      simpa using first other mem brought (Event.hash?_eq_some_iff.mp found)

/-- A question brings what is computed, if there is a point to compute it of. -/
theorem hashes_asked_of_half? {half : PublicKey} (h : account.origin.half? = some half)
    (algorithm : String) :
    (account.asked installed [algorithm]).hashes =
      account.hashes ++ (half.trueHash installed algorithm).toOption.toList := by
  rw [asked, hashes_append]
  congr 1
  rw [hashes]
  dsimp only
  rw [h]
  dsimp only
  rw [List.map_cons, List.map_nil, List.filterMap_cons]
  cases computed : half.trueHash installed algorithm <;>
    simp [Event.hash?, computed, Except.toOption]

/-- A gift brings the hash that is given. -/
theorem hashes_note_given {half : PublicKey} (h : account.origin.half? = some half)
    (hash : HashValue) : (account.note (.given hash)).hashes = account.hashes ++ [hash] := by
  rw [note, hashes_append]
  congr 1
  rw [hashes]
  dsimp only
  rw [h]
  rfl

/-- A key answers by its events, and asking it is one more of them. -/
theorem hash_key (account : Account) (algorithm : String) :
    account.key.hash installed algorithm =
      (account.answer installed algorithm, (account.asked installed [algorithm]).key) := by
  obtain ⟨origin, events⟩ := account
  cases origin with
  | hashes known => rfl
  | point curve x y =>
    have more : (asked ⟨.point curve x y, events⟩ installed [algorithm]).hashes = _ :=
      hashes_asked_of_half? rfl algorithm
    rw [key, key, more]
    dsimp only [Origin.key, Key.hash]
    rw [PublicKey.hash_ofList]
    rfl
  | pair curve x y scalar =>
    have more : (asked ⟨.pair curve x y scalar, events⟩ installed [algorithm]).hashes = _ :=
      hashes_asked_of_half? rfl algorithm
    rw [key, key, more]
    dsimp only [Origin.key, Key.hash, PrivateKey.hash]
    rw [PublicKey.hash_ofList]
    rfl

/-- Asking a key changes none of its answers. -/
theorem answer_asked (account : Account) (algorithms : List String) (other : String) :
    (account.asked installed algorithms).answer installed other =
      account.answer installed other := by
  induction algorithms generalizing account with
  | nil => rw [asked_nil]
  | cons algorithm rest ih =>
    rw [asked_cons, ih]
    have unchanged : ((account.key.hash installed algorithm).2.hash installed other).1 =
        (account.key.hash installed other).1 := hash_hash account.key algorithm other
    rw [hash_key, hash_key, hash_key] at unchanged
    exact unchanged

end Account

/-! ### Comparing keys -/

/-- The items up to the first one with a property, that one included. -/
def upTo {α : Type} (p : α → Bool) : List α → List α
  | [] => []
  | item :: rest => if p item then [item] else item :: upTo p rest

theorem agree_comm (a b : Outcome HashValue) : agree a b = agree b a := by
  cases a with
  | error _ => cases b <;> rfl
  | ok hash =>
    cases b with
    | error _ => rfl
    | ok other => exact hash.same_comm other

/-- The algorithms under which a key compares itself to others: those of its hashes, or those that
are registered. -/
def Origin.tried (installed : Installed) : Origin → List String
  | hashes known => (HashKey.ofList known).hashes.map HashValue.algorithm
  | _ => installed.elim [] Registry.names

namespace Account

/-- Whether two keys answer alike under an algorithm. -/
def agrees (installed : Installed) (a b : Account) (algorithm : String) : Bool :=
  agree (a.answer installed algorithm) (b.answer installed algorithm)

theorem agrees_asked (a b : Account) (algorithms others : List String) :
    agrees installed (a.asked installed algorithms) (b.asked installed others) =
      agrees installed a b := by
  funext algorithm
  rw [agrees, answer_asked, answer_asked]
  rfl

/-- Keys with points ask each other under one algorithm after the other. -/
theorem shareAny_key (algs : List DigestAlgorithm) (a b : Account) :
    shareAny installed algs a.key b.key =
      ((algs.map DigestAlgorithm.name).any (agrees installed a b),
        (a.asked installed (upTo (agrees installed a b) (algs.map DigestAlgorithm.name))).key,
        (b.asked installed (upTo (agrees installed a b) (algs.map DigestAlgorithm.name))).key) := by
  induction algs generalizing a b with
  | nil =>
    rw [List.map_nil, upTo, asked_nil, asked_nil]
    rfl
  | cons alg rest ih =>
    rw [shareAny, hash_key, hash_key]
    dsimp only
    rw [ih, agrees_asked, List.map_cons, List.any_cons, upTo]
    cases agreed : agrees installed a b alg.name with
    | true =>
      have agreed : agree (a.answer installed alg.name) (b.answer installed alg.name) = true :=
        agreed
      rw [if_pos agreed, if_pos rfl, Bool.true_or]
    | false =>
      have differ : ¬agree (a.answer installed alg.name) (b.answer installed alg.name) = true :=
        Bool.eq_false_iff.mp agreed
      rw [if_neg differ, if_neg Bool.false_ne_true, Bool.false_or, ← asked_cons, ← asked_cons]

/-- A key that is known by hashes asks another one for them, in order. -/
theorem hasAny_key {a : Account} {known : List HashValue} (made : a.origin = .hashes known)
    {hashes : List HashValue} (among : ∀ hash ∈ hashes, hash ∈ (HashKey.ofList known).hashes)
    (b : Account) :
    hasAny installed hashes b.key =
      ((hashes.map HashValue.algorithm).any (agrees installed a b),
        (b.asked installed
          (upTo (agrees installed a b) (hashes.map HashValue.algorithm))).key) := by
  induction hashes generalizing b with
  | nil =>
    rw [List.map_nil, upTo, asked_nil]
    rfl
  | cons hash rest ih =>
    obtain ⟨mem, others⟩ := List.forall_mem_cons.mp among
    -- under the algorithm of one of its hashes the key answers with that hash
    have own : a.answer installed hash.algorithm = .ok hash := by
      have found := (HashKey.find?_eq_some_iff (HashKey.distinct_ofList known)).mpr ⟨mem, rfl⟩
      have none : a.first? hash.algorithm = none := by rw [first?, Account.hashes, made]; rfl
      rw [answer, none, made]
      exact HashKey.hash_eq_ok_iff.mpr found
    have same : agree (b.answer installed hash.algorithm) (.ok hash) =
        agrees installed a b hash.algorithm := by rw [agrees, own, agree_comm]
    have kept : agrees installed a (b.asked installed [hash.algorithm]) = agrees installed a b := by
      have both : agrees installed (a.asked installed []) _ = _ :=
        agrees_asked a b [] [hash.algorithm]
      rwa [asked_nil] at both
    rw [hasAny, hash_key]
    dsimp only
    rw [same, ih others, kept, List.map_cons, List.any_cons, upTo]
    cases agrees installed a b hash.algorithm with
    | true => rfl
    | false =>
      rw [if_neg Bool.false_ne_true, if_neg Bool.false_ne_true, Bool.false_or, ← asked_cons]

/-- Comparing keys is asking both of them under the algorithms of the first, in order and up to the
first agreement, and finding one. -/
theorem compare_key (a b : Account) :
    compare installed a.key b.key =
      ((a.origin.tried installed).any (agrees installed a b),
        (a.asked installed (upTo (agrees installed a b) (a.origin.tried installed))).key,
        (b.asked installed (upTo (agrees installed a b) (a.origin.tried installed))).key) := by
  obtain ⟨origin, events⟩ := a
  cases origin with
  | hashes known =>
    have made : (Account.mk (.hashes known) events).origin = .hashes known := rfl
    have found : hasAny installed (HashKey.ofList known).hashes b.key = _ :=
      hasAny_key made (fun _ mem => mem) b
    change ((hasAny installed (HashKey.ofList known).hashes b.key).1, _,
      (hasAny installed (HashKey.ofList known).hashes b.key).2) = _
    rw [found]
    rfl
  | point curve x y =>
    cases installed with
    | none =>
      have nothing : (Origin.point curve x y).tried none = [] := rfl
      rw [nothing, upTo, asked_nil, asked_nil]
      rfl
    | some registry => exact shareAny_key registry.algorithms ⟨.point curve x y, events⟩ b
  | pair curve x y scalar =>
    cases installed with
    | none =>
      have nothing : (Origin.pair curve x y scalar).tried none = [] := rfl
      rw [nothing, upTo, asked_nil, asked_nil]
      rfl
    | some registry => exact shareAny_key registry.algorithms ⟨.pair curve x y scalar, events⟩ b

end Account

end Key

end SimplePki
