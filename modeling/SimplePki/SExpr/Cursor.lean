import SimplePki.Octets.Base64
import SimplePki.Octets.Hex

/-!
# Cursors and readers

A cursor is a place in an input: the number of octets behind it and the octets ahead.  A reader
moves a cursor forward and yields a value or a fault; either way it leaves a cursor, so that one
can say of every reader that it never moves backwards and never leaves the input.

## Main definitions

* `Cursor`, `ReadError`, `Reader`
* `Cursor.Reaches`: when a cursor lies further on in the same input
* `Reader.Proceeds`, `Reader.Advances`: readers that never go back, and that consume something
* `Reader.takeWhile`, `Reader.takeThrough`, `Reader.expect`: readers without a grammar
* `Reader.collect`: repetition of a step that consumes something

## Main results

* `Reader.Proceeds.bind`, `Reader.Advances.bind`, `Reader.Proceeds.bind_advances`: both properties
  pass to readers that run one after the other
-/

namespace SimplePki

/-- A place in an input: how many octets lie behind, and the octets ahead. -/
structure Cursor where
  offset : Nat
  ahead : Octets
  deriving DecidableEq, Repr

/-- Why octets spell no expression. -/
inductive ReadError where
  /-- The input ends inside an expression. -/
  | unexpectedEnd
  /-- An octet that cannot stand at its offset. -/
  | unexpectedOctet (octet : UInt8) (offset : Nat)
  /-- A length with a leading zero, beyond the machine's words, or unlike what follows it. -/
  | invalidLength (offset : Nat)
  /-- Hexadecimal notation that spells no octets. -/
  | invalidHex (fault : Hex.Fault)
  /-- Base64 notation that spells no octets. -/
  | invalidBase64 (fault : Base64.Fault)
  /-- A list or a transport block inside too many others. -/
  | tooDeep (offset : Nat)
  /-- Something other than whitespace behind the expression. -/
  | trailingOctets (offset : Nat)
  deriving DecidableEq, Repr

/-- Moves a cursor and yields a value or a fault, leaving a cursor either way. -/
abbrev Reader := EStateM ReadError Cursor

namespace Cursor

/-- The start of an input. -/
def start (input : Octets) : Cursor := ⟨0, input⟩

/-- The cursor behind the next `n` octets. -/
def skip (cursor : Cursor) (n : Nat) : Cursor := ⟨cursor.offset + n, cursor.ahead.drop n⟩

/-- The cursor behind the octets ahead that satisfy a predicate. -/
def skipWhile (p : UInt8 → Bool) (cursor : Cursor) : Cursor :=
  ⟨cursor.offset + (cursor.ahead.takeWhile p).length, cursor.ahead.dropWhile p⟩

/-- The cursor behind the whitespace ahead. -/
def skipBlank (cursor : Cursor) : Cursor := cursor.skipWhile Octets.isBlank

/-- A later place in the same input: some octets ahead of the first are behind the second. -/
def Reaches (first second : Cursor) : Prop :=
  ∃ passed : Octets, first.ahead = passed ++ second.ahead ∧
    second.offset = first.offset + passed.length

theorem Reaches.refl (cursor : Cursor) : cursor.Reaches cursor := ⟨[], rfl, rfl⟩

theorem Reaches.trans {a b c : Cursor} (hab : a.Reaches b) (hbc : b.Reaches c) : a.Reaches c := by
  obtain ⟨p, hp, hpo⟩ := hab
  obtain ⟨q, hq, hqo⟩ := hbc
  exact ⟨p ++ q, by rw [hp, hq, List.append_assoc], by rw [hqo, hpo, List.length_append]; omega⟩

theorem Reaches.length_le {a b : Cursor} (h : a.Reaches b) : b.ahead.length ≤ a.ahead.length := by
  obtain ⟨p, hp, -⟩ := h
  rw [hp, List.length_append]
  omega

theorem reaches_cons {cursor : Cursor} {octet : UInt8} {rest : Octets}
    (h : cursor.ahead = octet :: rest) : cursor.Reaches ⟨cursor.offset + 1, rest⟩ :=
  ⟨[octet], h, rfl⟩

theorem reaches_skipWhile (p : UInt8 → Bool) (cursor : Cursor) :
    cursor.Reaches (cursor.skipWhile p) :=
  ⟨cursor.ahead.takeWhile p, (List.takeWhile_append_dropWhile).symm, rfl⟩

theorem reaches_skipBlank (cursor : Cursor) : cursor.Reaches cursor.skipBlank :=
  reaches_skipWhile _ cursor

end Cursor

namespace Reader

/-- Leaves the cursor at a later place of the same input, on success as on failure. -/
def Proceeds {α : Type} (reader : Reader α) : Prop :=
  ∀ cursor, match reader cursor with
    | .ok _ next => cursor.Reaches next
    | .error _ next => cursor.Reaches next

/-- Consumes at least one octet whenever it succeeds. -/
def Advances {α : Type} (reader : Reader α) : Prop :=
  ∀ cursor value next, reader cursor = .ok value next → next.ahead.length < cursor.ahead.length

/-! ### Readers without a grammar -/

/-- How many octets are behind. -/
def offset : Reader Nat := fun cursor => .ok cursor.offset cursor

/-- The octet ahead, left where it is. -/
def peek : Reader (Option UInt8) := fun cursor => .ok cursor.ahead.head? cursor

/-- The octet ahead, consumed. -/
def next : Reader UInt8 := fun cursor =>
  match cursor.ahead with
  | [] => .error .unexpectedEnd cursor
  | octet :: rest => .ok octet ⟨cursor.offset + 1, rest⟩

/-- Consumes one given octet. -/
def expect (wanted : UInt8) : Reader Unit := fun cursor =>
  match cursor.ahead with
  | [] => .error .unexpectedEnd cursor
  | octet :: rest =>
    if octet = wanted then .ok () ⟨cursor.offset + 1, rest⟩
    else .error (.unexpectedOctet octet cursor.offset) cursor

/-- Consumes one given octet if it is ahead. -/
def skipOptional (wanted : UInt8) : Reader Unit := fun cursor =>
  match cursor.ahead with
  | [] => .ok () cursor
  | octet :: rest =>
    if octet = wanted then .ok () ⟨cursor.offset + 1, rest⟩ else .ok () cursor

/-- Consumes the octets ahead that satisfy a predicate. -/
def takeWhile (p : UInt8 → Bool) : Reader Octets := fun cursor =>
  .ok (cursor.ahead.takeWhile p) (cursor.skipWhile p)

/-- Consumes the whitespace ahead. -/
def skipBlank : Reader Unit := fun cursor => .ok () cursor.skipBlank

/-- The next `n` octets. -/
def takeExactly (n : Nat) : Reader Octets := fun cursor =>
  let taken := cursor.ahead.take n
  if taken.length = n then .ok taken (cursor.skip n) else .error .unexpectedEnd cursor

/-- The octets up to a closing octet, which is consumed with them. -/
def takeThrough (close : UInt8) : Reader Octets := fun cursor =>
  let taken := cursor.ahead.takeWhile (· != close)
  match cursor.ahead.dropWhile (· != close) with
  | [] => .error .unexpectedEnd cursor
  | _ :: rest => .ok taken ⟨cursor.offset + taken.length + 1, rest⟩

/-! ### Moving forward -/

variable {α β : Type}

theorem Proceeds.length_le {reader : Reader α} (h : reader.Proceeds) {cursor next : Cursor}
    {value : α} (run : reader cursor = .ok value next) :
    next.ahead.length ≤ cursor.ahead.length := by
  have := h cursor
  rw [run] at this
  exact this.length_le

theorem proceeds_pure (value : α) : Proceeds (pure value) :=
  fun cursor => Cursor.Reaches.refl cursor

theorem proceeds_throw (error : ReadError) : Proceeds (throw error : Reader α) :=
  fun cursor => Cursor.Reaches.refl cursor

theorem Proceeds.bind {reader : Reader α} {rest : α → Reader β} (h : reader.Proceeds)
    (hrest : ∀ value, (rest value).Proceeds) : Proceeds (reader >>= rest) := by
  intro cursor
  have first := h cursor
  change match EStateM.bind reader rest cursor with | .ok _ next => _ | .error _ next => _
  unfold EStateM.bind
  cases run : reader cursor with
  | ok value next =>
    rw [run] at first
    have second := hrest value next
    dsimp only
    cases again : rest value next with
    | ok _ _ => rw [again] at second; exact first.trans second
    | error _ _ => rw [again] at second; exact first.trans second
  | error _ _ => rw [run] at first; exact first

theorem proceeds_offset : Proceeds offset := fun cursor => Cursor.Reaches.refl cursor

theorem proceeds_peek : Proceeds peek := fun cursor => Cursor.Reaches.refl cursor

theorem proceeds_next : Proceeds next := by
  intro cursor
  match h : cursor.ahead with
  | [] => simpa [next, h] using Cursor.Reaches.refl cursor
  | _ :: _ => simpa [next, h] using Cursor.reaches_cons h

theorem proceeds_expect (wanted : UInt8) : Proceeds (expect wanted) := by
  intro cursor
  match h : cursor.ahead with
  | [] => simpa [expect, h] using Cursor.Reaches.refl cursor
  | octet :: _ =>
    by_cases same : octet = wanted
    · simpa [expect, h, same] using Cursor.reaches_cons h
    · simpa [expect, h, same] using Cursor.Reaches.refl cursor

theorem proceeds_skipOptional (wanted : UInt8) : Proceeds (skipOptional wanted) := by
  intro cursor
  match h : cursor.ahead with
  | [] => simpa [skipOptional, h] using Cursor.Reaches.refl cursor
  | octet :: _ =>
    by_cases same : octet = wanted
    · simpa [skipOptional, h, same] using Cursor.reaches_cons h
    · simpa [skipOptional, h, same] using Cursor.Reaches.refl cursor

theorem proceeds_takeWhile (p : UInt8 → Bool) : Proceeds (takeWhile p) :=
  fun cursor => Cursor.reaches_skipWhile p cursor

theorem proceeds_skipBlank : Proceeds skipBlank := fun cursor => Cursor.reaches_skipBlank cursor

theorem proceeds_takeExactly (n : Nat) : Proceeds (takeExactly n) := by
  intro cursor
  by_cases h : (cursor.ahead.take n).length = n
  · simp only [takeExactly, h, if_true]
    exact ⟨cursor.ahead.take n, (List.take_append_drop n cursor.ahead).symm,
      by simp [Cursor.skip, h]⟩
  · simpa only [takeExactly, h, if_false] using Cursor.Reaches.refl cursor

theorem proceeds_takeThrough (close : UInt8) : Proceeds (takeThrough close) := by
  intro cursor
  match h : cursor.ahead.dropWhile (· != close) with
  | [] => simpa only [takeThrough, h] using Cursor.Reaches.refl cursor
  | octet :: rest =>
    simp only [takeThrough, h]
    refine ⟨cursor.ahead.takeWhile (· != close) ++ [octet], ?_, by simp [Nat.add_assoc]⟩
    rw [List.append_assoc, List.singleton_append, ← h, List.takeWhile_append_dropWhile]

theorem Advances.bind {reader : Reader α} {rest : α → Reader β} (h : reader.Advances)
    (hrest : ∀ value, (rest value).Proceeds) : Advances (reader >>= rest) := by
  intro cursor value last run
  change EStateM.bind reader rest cursor = _ at run
  unfold EStateM.bind at run
  cases first : reader cursor with
  | ok middle next =>
    rw [first] at run
    exact Nat.lt_of_le_of_lt (Proceeds.length_le (hrest middle) run) (h _ _ _ first)
  | error _ _ =>
    rw [first] at run
    exact nomatch run

theorem Proceeds.bind_advances {reader : Reader α} {rest : α → Reader β} (h : reader.Proceeds)
    (hrest : ∀ value, (rest value).Advances) : Advances (reader >>= rest) := by
  intro cursor value last run
  change EStateM.bind reader rest cursor = _ at run
  unfold EStateM.bind at run
  cases first : reader cursor with
  | ok middle next =>
    rw [first] at run
    exact Nat.lt_of_lt_of_le (hrest middle _ _ _ run) (Proceeds.length_le h first)
  | error _ _ =>
    rw [first] at run
    exact nomatch run

theorem advances_throw (error : ReadError) : Advances (throw error : Reader α) :=
  fun _ _ _ run => nomatch run

theorem advances_next : Advances next := by
  intro cursor value last run
  match h : cursor.ahead with
  | [] => simp [next, h] at run
  | _ :: _ =>
    simp only [next, h, EStateM.Result.ok.injEq] at run
    simp [← run.2]

theorem advances_expect (wanted : UInt8) : Advances (expect wanted) := by
  intro cursor value last run
  match h : cursor.ahead with
  | [] => simp [expect, h] at run
  | octet :: rest =>
    by_cases same : octet = wanted
    · simp only [expect, h, same, if_true, EStateM.Result.ok.injEq] at run
      simp [← run.2]
    · simp [expect, h, same] at run

/-! ### Repetition -/

/-- Repeats a step that consumes something until it yields nothing; the items already found are
kept in reverse. -/
def collect (step : Reader (Option α)) (advances : step.Advances) (found : List α) :
    Reader (List α) := fun cursor =>
  match _run : step cursor with
  | .ok none next => .ok found.reverse next
  | .ok (some item) next => collect step advances (item :: found) next
  | .error error next => .error error next
termination_by cursor => cursor.ahead.length
decreasing_by exact advances _ _ _ _run

theorem collect_apply (step : Reader (Option α)) (advances : step.Advances) (found : List α)
    (cursor : Cursor) :
    collect step advances found cursor =
      match step cursor with
      | .ok none next => .ok found.reverse next
      | .ok (some item) next => collect step advances (item :: found) next
      | .error error next => .error error next := by
  rw [collect]
  split <;> simp_all

theorem Proceeds.collect {step : Reader (Option α)} (h : step.Proceeds) (advances : step.Advances)
    (found : List α) : Proceeds (Reader.collect step advances found) := by
  intro cursor
  generalize size : cursor.ahead.length = n
  induction n using Nat.strongRecOn generalizing found cursor with
  | ind n ih =>
    have first := h cursor
    rw [collect_apply]
    cases run : step cursor with
    | error _ _ => rw [run] at first; exact first
    | ok value next =>
      rw [run] at first
      cases value with
      | none => exact first
      | some item =>
        have later := ih _ (size ▸ advances _ _ _ run) (item :: found) next rfl
        dsimp only
        cases again : Reader.collect step advances (item :: found) next with
        | ok _ _ => rw [again] at later; exact first.trans later
        | error _ _ => rw [again] at later; exact first.trans later

end Reader

end SimplePki
