import SimplePki.Proofs.SExpr.Following

/-!
# A reading head stays in its input and comes to an end

Wherever in an input a head starts, and in however many lists and blocks, it follows the reader:
what is inside a list or a block is read one level deeper, and the level is left where it ends.  So
neither has a head gone back nor left the input, nor gone too deep, and no fault of its own has
stopped it.

The input of a block is shorter than the block, so that the steps that are enough for an input are
enough for all the blocks in it.

## Main definitions

* `Head.Keeps`: what a head did, it did without faults and without going back
* `Head.Agrees`: a part of a head that keeps to the input as a reader does

## Main results

* `Reader.length_le_of_base64Through`: what is in a block is no longer than what writes it
* `Head.Mirrors.nested`, `Head.follows_transport`, `Head.follows_value`: lists, blocks and
  expressions
* `Head.heads_keep_to_their_input`
-/

namespace SimplePki

open Octets

theorem Reader.length_le_of_takeThrough {close : UInt8} {cursor next : Cursor} {body : Octets}
    (read : takeThrough close cursor = .ok body next) : body.length ≤ cursor.ahead.length := by
  simp only [takeThrough] at read
  split at read
  · cases read
  · obtain ⟨rfl, -⟩ := EStateM.Result.ok.inj read
    exact (List.takeWhile_prefix _).length_le

/-- What base64 writes is no longer than what is ahead. -/
theorem Reader.length_le_of_base64Through {close : UInt8} {cursor next : Cursor} {block : Octets}
    (read : base64Through close cursor = .ok block next) :
    block.length ≤ cursor.ahead.length := by
  rw [base64Through] at read
  cases taken : takeThrough close cursor with
  | error error stop =>
    rw [bind_of_error taken] at read
    cases read
  | ok body stop =>
    rw [bind_of_ok taken] at read
    cases decoded : Base64.decode (compact body) with
    | error fault =>
      rw [decoded] at read
      cases read
    | ok octets =>
      rw [decoded] at read
      obtain ⟨rfl, -⟩ := EStateM.Result.ok.inj read
      calc octets.length
        _ ≤ (compact body).length := Base64.length_le_of_decode decoded
        _ ≤ body.length := length_compact_le body
        _ ≤ cursor.ahead.length := length_le_of_takeThrough taken

namespace Head

open SExpr (nestingLimit)

variable {α : Type} {input : Octets} {depth steps : Nat}

/-! ### Lists and blocks -/

/-- The reader of a block at a depth. -/
def blockAt (depth : Nat) : Reader SExpr :=
  if depth < nestingLimit then Reader.transport (Reader.expression (nestingLimit - (depth + 1)))
  else do throw (.tooDeep (← Reader.offset))

theorem blockAt_of_lt (room : depth < nestingLimit) :
    blockAt depth = Reader.transport (Reader.expression (nestingLimit - (depth + 1))) :=
  if_pos room

theorem blockAt_of_le (full : nestingLimit ≤ depth) :
    blockAt depth = (do throw (.tooDeep (← Reader.offset))) :=
  if_neg (Nat.not_lt.mpr full)

theorem nested_tooDeep {run : Run α} {pos : Nat} (full : nestingLimit ≤ depth) :
    nested run ⟨pos, depth⟩ = .error (.refused (.tooDeep pos)) ⟨pos, depth⟩ := by
  have refused : descend ⟨pos, depth⟩ = .error (.refused (.tooDeep pos)) ⟨pos, depth⟩ :=
    if_pos full
  rw [nested, bind_of_error refused]

/-- A block is an input of its own, in which the head of the block around it does not move. -/
theorem inside_complete {block : Octets} {element : Run SExpr} {reader : Reader SExpr}
    (proceeds : reader.Proceeds) {head : Head}
    (h : Mirrors block ⟨0, head.depth⟩ (element ⟨0, head.depth⟩) (reader (Cursor.start block))) :
    inside (complete block element) head =
      match Reader.complete reader block with
      | .ok expr => .ok expr head
      | .error error => .error (.refused error) head := by
  rw [inside, complete, Reader.complete]
  cases read : reader (Cursor.start block) with
  | error error next =>
    rw [read] at h
    obtain ⟨stop, made, -⟩ := h.of_error
    rw [bind_of_error made]
  | ok expr next =>
    rw [read] at h
    obtain ⟨made, -⟩ := h.of_ok
    have within := (Cursor.start_in block).after proceeds read
    have ending := within.offset_add_length
    have front : sub block.length next.ahead.length = pure next.offset := by
      rw [← ending, Nat.add_comm, sub_add_left]
    have blanks := length_takeWhile_lt_iff isBlank next.ahead
    rw [bind_of_ok made, place_bind, bind_of_ok (slice_rest within _), front, pure_bind]
    dsimp only [Cursor.skipBlank, Cursor.skipWhile]
    cases behind : next.ahead.dropWhile isBlank with
    | nil =>
      rw [if_neg (mt blanks.mp (absurd behind))]
      rfl
    | cons octet rest =>
      rw [behind] at blanks
      rw [if_pos (blanks.mpr (List.cons_ne_nil _ _))]
      rfl

section

variable (shallow : depth ≤ nestingLimit)

include shallow

theorem mirrors_hinted {offset : Nat} {ahead : Octets}
    (inside : Cursor.In ⟨offset, 0x5B :: ahead⟩ input) (short : ahead.length < steps) :
    Mirrors input ⟨offset, depth⟩ (hinted input steps ⟨offset, depth⟩)
      (Reader.hinted ⟨offset, 0x5B :: ahead⟩) := by
  refine mirrors_move_bind shallow inside short ?_
  exact (follows_skipBlank shallow).bind Reader.proceeds_skipBlank fun _ =>
    (follows_octets shallow).bind Reader.proceeds_octets fun hint =>
    (follows_skipBlank shallow).bind Reader.proceeds_skipBlank fun _ =>
    (follows_expect shallow _).bind (Reader.proceeds_expect _) fun _ =>
    (follows_skipBlank shallow).bind Reader.proceeds_skipBlank fun _ =>
    (follows_octets shallow).bind Reader.proceeds_octets fun value => follows_pure shallow _

theorem follows_item {element : Run SExpr} {reader : Reader SExpr}
    (h : Follows input depth steps element reader) (proceeds : reader.Proceeds) :
    Follows input depth steps (item input element steps) (Reader.item reader) := by
  refine (follows_skipBlank shallow).bind Reader.proceeds_skipBlank fun _ cursor inside short => ?_
  obtain ⟨offset, ahead⟩ := cursor
  rw [peek_bind _ inside, Reader.peek_bind]
  cases ahead with
  | nil => exact mirrors_of_refused shallow inside
  | cons octet rest =>
    dsimp only [List.head?_cons]
    by_cases closing : octet = 0x29
    · subst closing
      rw [if_pos rfl, if_pos rfl]
      exact mirrors_move_bind shallow inside (Nat.lt_of_succ_lt short) (follows_pure shallow none)
    · rw [if_neg closing, if_neg closing]
      exact h.bind proceeds (fun expr => follows_pure shallow (some expr)) _ inside short

/-- What is in a list or a block is read one level deeper, and the level is left where it ends. -/
theorem Mirrors.nested {run : Run α} {pos : Nat} {read : EStateM.Result ReadError Cursor α}
    (room : depth < nestingLimit)
    (h : Mirrors input ⟨pos, depth + 1⟩ (run ⟨pos, depth + 1⟩) read) :
    Mirrors input ⟨pos, depth⟩ (nested run ⟨pos, depth⟩) read := by
  have descended : descend ⟨pos, depth⟩ = .ok () ⟨pos, depth + 1⟩ :=
    if_neg (Nat.not_le.mpr room)
  rw [Head.nested, bind_of_ok descended]
  cases read with
  | ok value next =>
    obtain ⟨made, within⟩ := h.of_ok
    rw [bind_of_ok made]
    exact .ok ⟨within.forward, within.inside, shallow⟩
  | error error next =>
    obtain ⟨stop, made, within⟩ := h.of_error
    rw [bind_of_error made]
    exact .refused ⟨within.forward, within.inside, within.shallow⟩

theorem mirrors_listed {element : Run SExpr} {bounded : Reader.Bounded} {offset : Nat}
    {ahead : Octets} (inside : Cursor.In ⟨offset, 0x28 :: ahead⟩ input)
    (short : ahead.length < steps) (h : Follows input depth steps element bounded.run) :
    Mirrors input ⟨offset, depth⟩
      ((do move; let items ← repeated (item input element steps) steps []; pure (.list items) :
        Run SExpr) ⟨offset, depth⟩)
      (Reader.listOf bounded ⟨offset, 0x28 :: ahead⟩) := by
  have items := (follows_item shallow h bounded.proceeds).repeated (Reader.proceeds_item bounded)
    (Reader.advances_item bounded) (Nat.le_refl steps) []
  exact mirrors_move_bind shallow inside short
    (items.bind ((Reader.proceeds_item bounded).collect _ _) fun found => follows_pure shallow _)

/-- What is in a block is shorter than the block. -/
theorem follows_block {element : Octets → Run SExpr} {bounded : Reader.Bounded}
    (h : ∀ block, Follows block depth steps (element block) bounded.run) :
    Follows input depth (steps + 1)
      (do expect input 0x7B
          let block ← base64Through input 0x7D
          inside (complete block (element block)))
      (Reader.transport bounded) := by
  intro cursor within short
  refine (follows_expect shallow _ cursor within short).bind fun _ opened taken => ?_
  have fewer := Reader.advances_expect _ _ _ _ taken
  have here := within.after (Reader.proceeds_expect _) taken
  have shorter : opened.ahead.length < steps + 1 := by omega
  refine (follows_base64Through shallow _ opened here shorter).bind fun block closed read => ?_
  have there := here.after (Reader.proceeds_base64Through _) read
  have size := Reader.length_le_of_base64Through read
  have small : (Cursor.start block).ahead.length < steps := by
    change block.length < steps
    omega
  have same := h block (Cursor.start block) (Cursor.start_in block) small
  rw [inside_complete bounded.proceeds same]
  cases Reader.complete bounded.run block with
  | ok expr => exact mirrors_of_ok shallow there (.refl _)
  | error error => exact mirrors_of_refused shallow there

/-- Where nothing may nest any more, it is not looked at what follows the brace. -/
theorem follows_transport {element : Octets → Run SExpr}
    (h : depth < nestingLimit → ∀ block, Follows block (depth + 1) steps (element block)
      (Reader.expression (nestingLimit - (depth + 1))).run) :
    Follows input depth (steps + 1) (transport input element) (blockAt depth) := by
  intro cursor inside short
  by_cases room : depth < nestingLimit
  · rw [blockAt_of_lt room]
    exact (follows_block room (h room) cursor inside short).nested shallow room
  · have full := Nat.not_lt.mp room
    rw [blockAt_of_le full, transport, nested_tooDeep full]
    exact mirrors_of_refused shallow inside

/-- What a head does at a parenthesis and at a brace decides what it does at an expression. -/
theorem follows_value_succ {inner : Option Reader.Bounded}
    (list : ∀ {offset ahead}, Cursor.In ⟨offset, 0x28 :: ahead⟩ input → ahead.length < steps →
      Mirrors input ⟨offset, depth⟩ (listOf input (value steps input) steps ⟨offset, depth⟩)
        (Reader.expressionAt inner ⟨offset, 0x28 :: ahead⟩))
    (block : ∀ {offset ahead}, Cursor.In ⟨offset, 0x7B :: ahead⟩ input → ahead.length < steps →
      Mirrors input ⟨offset, depth⟩ (transport input (value steps) ⟨offset, depth⟩)
        (Reader.expressionAt inner ⟨offset, 0x7B :: ahead⟩)) :
    Follows input depth (steps + 1) (value (steps + 1) input) (Reader.bounded inner).run := by
  refine (follows_skipBlank shallow).bind Reader.proceeds_skipBlank fun _ cursor inside short => ?_
  obtain ⟨offset, ahead⟩ := cursor
  rw [peek_bind _ inside]
  cases ahead with
  | nil => exact mirrors_of_refused shallow inside
  | cons opening rest =>
    have fewer : rest.length < steps := Nat.lt_of_succ_lt_succ short
    dsimp only [List.head?_cons]
    by_cases isList : opening = 0x28
    · subst isList
      exact list inside fewer
    by_cases isBlock : opening = 0x7B
    · subst isBlock
      exact block inside fewer
    rw [Reader.expressionAt, Reader.offset_bind, Reader.peek_bind]
    dsimp only [List.head?_cons]
    rw [if_neg isList, if_neg isList, if_neg isBlock, if_neg isBlock]
    by_cases isHinted : opening = 0x5B
    · subst isHinted
      exact mirrors_hinted shallow inside (Nat.lt_of_succ_lt short)
    · rw [if_neg isHinted, if_neg isHinted]
      exact (follows_octets shallow).bind Reader.proceeds_octets
        (fun octets => follows_pure shallow _) _ inside short

end

/-- A head reads expressions as the reader does that may nest them as deep as is left, with one
step more than there are octets ahead. -/
theorem follows_value (input : Octets) (shallow : depth ≤ nestingLimit) :
    Follows input depth steps (value steps input)
      (Reader.expression (nestingLimit - depth)).run := by
  -- on the steps, of which an input inside a block needs fewer than the one around it
  induction steps generalizing input depth with
  | zero => exact fun _ _ short => absurd short (Nat.not_lt_zero _)
  | succ steps ih =>
    have blocks : Follows input depth (steps + 1) (transport input (value steps)) (blockAt depth) :=
      follows_transport shallow fun room block => ih block room
    by_cases room : depth < nestingLimit
    · have left : nestingLimit - depth = nestingLimit - (depth + 1) + 1 := by omega
      rw [blockAt_of_lt room] at blocks
      rw [left, Reader.expression]
      refine follows_value_succ shallow (fun inside short => ?_) (fun inside short => ?_)
      · exact (mirrors_listed room inside short (ih input room)).nested shallow room
      · exact blocks _ inside (Nat.succ_lt_succ short)
    · have full := Nat.not_lt.mp room
      have left : nestingLimit - depth = 0 := Nat.sub_eq_zero_of_le full
      rw [blockAt_of_le full] at blocks
      rw [left, Reader.expression]
      refine follows_value_succ shallow (fun inside _ => ?_) (fun inside short => ?_)
      · rw [listOf, nested_tooDeep full]
        exact mirrors_of_refused shallow inside
      · exact blocks _ inside (Nat.succ_lt_succ short)

/-! ### Faults do not occur -/

/-- What a head did, it did without faults: it is no further back, in the input and not too deep,
and only the input can have stopped it. -/
def Keeps (input : Octets) (head : Head) : EStateM.Result Halt Head α → Prop
  | .ok _ stop => head.Precedes input stop
  | .error (.refused _) stop => head.Precedes input stop
  | .error _ _ => False

theorem Mirrors.keeps {head : Head} {result : EStateM.Result Halt Head α}
    {read : EStateM.Result ReadError Cursor α} (h : Mirrors input head result read) :
    Keeps input head result := by
  cases h with
  | ok within => exact within
  | refused within => exact within

/-- A part of a head keeps to the input and does what a reader does from there. -/
structure Agrees (input : Octets) (head : Head) (run : Run α) (reader : Reader α) : Prop where
  keeps : Keeps input head (run head)
  mirrors : Mirrors input head (run head) (reader ⟨head.pos, input.drop head.pos⟩)

theorem Follows.agrees {run : Run α} {reader : Reader α} (h : Follows input depth steps run reader)
    {pos : Nat} (inside : pos ≤ input.length) (enough : input.length < pos + steps) :
    Agrees input ⟨pos, depth⟩ run reader := by
  have short : (input.drop pos).length < steps := by
    rw [List.length_drop]
    exact Nat.sub_lt_left_of_lt_add inside enough
  have same := h ⟨pos, input.drop pos⟩ (Cursor.drop_in inside) short
  exact ⟨same.keeps, same⟩

/-- What takes an octet at least moves the head. -/
theorem Agrees.advances {head : Head} {run : Run α} {reader : Reader α}
    (h : Agrees input head run reader) (proceeds : reader.Proceeds) (advances : reader.Advances)
    (inside : head.pos ≤ input.length) {value : α} {stop : Head}
    (made : run head = .ok value stop) : head.pos < stop.pos ∧ stop.depth = head.depth := by
  have here := Cursor.drop_in inside
  have same := h.mirrors
  rw [made] at same
  generalize read : reader ⟨head.pos, input.drop head.pos⟩ = result at same
  cases same with
  | ok within =>
    have before := here.offset_add_length
    have behind := (here.after proceeds read).offset_add_length
    have fewer := advances _ _ _ read
    dsimp only at before fewer ⊢
    exact ⟨by omega, rfl⟩

/-- Wherever in an input a head stands, and in however many lists and blocks, each of its parts goes
forward in the input without going too deep, whether it succeeds or refuses the input, and has no
faults: nothing is fetched from outside the input, no depth falls below zero and every repetition
ends.  It does so as the reader does.  Expressions and octet strings, when they are read, are not
empty and leave the depth as it was. -/
theorem heads_keep_to_their_input (input : Octets) (head : Head) (steps : Nat)
    (inside : head.pos ≤ input.length) (shallow : head.depth ≤ nestingLimit)
    (enough : input.length < head.pos + steps) :
    (Agrees input head (value steps input) (Reader.expression (nestingLimit - head.depth)).run ∧
      Agrees input head (transport input (value steps)) (blockAt head.depth) ∧
      Agrees input head (octets input steps) Reader.octets ∧
      Agrees input head (decimal input steps) Reader.length ∧
      Agrees input head (token input steps) (Reader.takeWhile isTokenOctet) ∧
      (∀ close, Agrees input head (through input close) (Reader.takeThrough close)) ∧
      Agrees input head (hexadecimal input) Reader.hexadecimal ∧
      Agrees input head (base64 input) Reader.base64 ∧
      Agrees input head (quoted input steps) Reader.quoted ∧
      Agrees input head (escape input) Reader.escape) ∧
    (∀ expr stop, value steps input head = .ok expr stop →
      head.pos < stop.pos ∧ stop.depth = head.depth) ∧
    (∀ string stop, octets input steps head = .ok string stop →
      head.pos < stop.pos ∧ stop.depth = head.depth) := by
  obtain ⟨pos, depth⟩ := head
  dsimp only at inside shallow enough
  have values := (follows_value input shallow).agrees inside enough
  have blocks : Follows input depth (steps + 1) _ _ :=
    follows_transport shallow fun room block => follows_value block room
  have strings := (follows_octets shallow).agrees inside enough
  refine ⟨⟨values, blocks.agrees inside (Nat.lt_succ_of_lt enough), strings, ?_, ?_, ?_, ?_, ?_, ?_,
    ?_⟩, ?_, ?_⟩
  · exact (follows_decimal shallow).agrees inside enough
  · exact (follows_token shallow).agrees inside enough
  · exact fun close => (follows_through shallow close).agrees inside enough
  · exact (follows_hexadecimal shallow).agrees inside enough
  · exact (follows_base64 shallow).agrees inside enough
  · exact (follows_quoted shallow).agrees inside enough
  · exact (follows_escape shallow).agrees inside enough
  · exact fun _ _ => values.advances (Reader.expression _).proceeds (Reader.expression _).advances
      inside
  · exact fun _ _ => strings.advances Reader.proceeds_octets Reader.advances_octets inside

/-- In a list is a block with a list in it: three levels, for which there is room in 253 others and
not in one more. -/
theorem heads_stop_at_the_last_level :
    let input : Octets := [0x28, 0x61, 0x7B, 0x4B, 0x47, 0x49, 0x70, 0x7D, 0x29]
    let expr : SExpr := .list [.ofOctets [0x61], .list [.ofOctets [0x62]]]
    (value 10 input ⟨0, 253⟩ = .ok expr ⟨9, 253⟩ ∧ 0 < 9) ∧
    value 10 input ⟨0, 254⟩ = .error (.refused (.tooDeep 0)) ⟨8, 256⟩ ∧
      Precedes input ⟨0, 254⟩ ⟨8, 256⟩ := by
  intro input expr
  have room : value 10 input ⟨0, 253⟩ = .ok expr ⟨9, 253⟩ := by
    dsimp only [input, expr]
    rfl
  have none : value 10 input ⟨0, 254⟩ = .error (.refused (.tooDeep 0)) ⟨8, 256⟩ := by
    dsimp only [input]
    rfl
  have moved := (heads_keep_to_their_input input ⟨0, 253⟩ 10 (by decide) (by decide)
    (by decide)).2.1 _ _ room
  have kept := (heads_keep_to_their_input input ⟨0, 254⟩ 10 (by decide) (by decide)
    (by decide)).1.1.keeps
  rw [none] at kept
  exact ⟨⟨room, moved.1⟩, none, kept⟩

end Head

end SimplePki
