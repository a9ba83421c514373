import SimplePki.Proofs.SExpr.Nesting

/-!
# What is behind a reader does not matter

A reader sees more of its input than it passes: it looks at the octet ahead to decide what to do,
and stops at the first octet that is none of its own.  What it makes of the octets it passed depends
on these only as far as the input ends somewhere: if the input is cut anywhere behind them, the same
octets are passed and the same value is found.

Looking at the octet ahead is not local by itself, since the cut may come right in front of it.  It is
when something is always passed after it.

## Main definitions

* `Reader.Local`: what a reader passed is read alike if the input is cut behind it

## Main results

* `Reader.Local.bind`, `Reader.Local.peek_bind`, `Reader.Local.collect`: one local reader after the
  other, behind a look ahead, and again and again
* `Reader.local_expression`: expressions are read locally
-/

namespace SimplePki.Reader

open Octets

variable {α β : Type}

/-- Passes the same octets with the same value if the input is cut anywhere behind them. -/
structure Local (reader : Reader α) : Prop where
  proceeds : reader.Proceeds
  cut : ∀ {offset place : Nat} {passed rest kept : Octets} {value : α},
    reader ⟨offset, passed ++ rest⟩ = .ok value ⟨place, rest⟩ → kept <+: rest →
      reader ⟨offset, passed ++ kept⟩ = .ok value ⟨place, kept⟩

/-! ### Readers without a grammar -/

theorem passed_of_run {reader : Reader α} (h : reader.Proceeds) {offset place : Nat}
    {ahead rest : Octets} {value : α} (run : reader ⟨offset, ahead⟩ = .ok value ⟨place, rest⟩) :
    ∃ passed, ahead = passed ++ rest := by
  have reached := h ⟨offset, ahead⟩
  rw [run] at reached
  obtain ⟨passed, split, -⟩ := reached
  exact ⟨passed, split⟩

/-- A cut leaves the octet behind what was passed, or none. -/
theorem head?_of_cut {kept rest : Octets} (shorter : kept <+: rest) {octet : UInt8}
    (h : kept.head? = some octet) : rest.head? = some octet := by
  obtain ⟨gone, rfl⟩ := shorter
  rw [List.head?_append, h]
  rfl

/-- A reader that leaves every cursor where it is. -/
theorem local_of_stays {reader : Reader α} (value : Nat → α)
    (stays : ∀ cursor, reader cursor = .ok (value cursor.offset) cursor) : Local reader where
  proceeds := fun cursor => by
    rw [stays]
    exact Cursor.Reaches.refl cursor
  cut := by
    intro offset place passed rest kept found run _
    rw [stays] at run ⊢
    obtain ⟨rfl, same⟩ := EStateM.Result.ok.inj run
    obtain ⟨rfl, all⟩ := Cursor.mk.inj same
    rw [List.append_left_eq_self.mp all]
    rfl

theorem local_pure (value : α) : Local (pure value) :=
  local_of_stays (fun _ => value) fun _ => rfl

theorem local_offset : Local offset := local_of_stays id fun _ => rfl

theorem local_throw (error : ReadError) : Local (throw error : Reader α) :=
  ⟨proceeds_throw error, fun run => nomatch run⟩

/-- What the second reader passed is ahead of the first, and is kept when the input is cut. -/
theorem Local.bind {reader : Reader α} {rest : α → Reader β} (h : Local reader)
    (hrest : ∀ value, Local (rest value)) : Local (reader >>= rest) where
  proceeds := h.proceeds.bind fun value => (hrest value).proceeds
  cut := by
    intro offset place passed behind kept value run shorter
    obtain ⟨middle, ⟨between, ahead⟩, first, second⟩ := bind_eq_ok run
    obtain ⟨front, split⟩ := passed_of_run h.proceeds first
    obtain ⟨back, rfl⟩ := passed_of_run (hrest middle).proceeds second
    obtain rfl : passed = front ++ back := by
      rw [← List.append_assoc] at split
      exact List.append_cancel_right split
    rw [List.append_assoc] at first ⊢
    rw [bind_of_ok (h.cut first ((List.prefix_append_right_inj back).mpr shorter))]
    exact (hrest middle).cut second shorter

/-- After something has been passed, the octet that was ahead is the first of it. -/
theorem Local.peek_bind {rest : Option UInt8 → Reader β} (h : ∀ octet, Local (rest octet))
    (advances : Advances (peek >>= rest)) : Local (peek >>= rest) where
  proceeds := proceeds_peek.bind fun octet => (h octet).proceeds
  cut := by
    intro offset place passed behind kept value run shorter
    cases passed with
    | nil => exact absurd (advances _ _ _ run) (Nat.lt_irrefl _)
    | cons octet passed =>
      rw [Reader.peek_bind] at run ⊢
      exact (h _).cut run shorter

theorem Local.offset_peek_bind {rest : Nat → Option UInt8 → Reader β}
    (h : ∀ start octet, Local (rest start octet))
    (advances : Advances (offset >>= fun start => peek >>= rest start)) :
    Local (offset >>= fun start => peek >>= rest start) where
  proceeds := proceeds_offset.bind fun start =>
    proceeds_peek.bind fun octet => (h start octet).proceeds
  cut := by
    intro offset place passed behind kept value run shorter
    cases passed with
    | nil => exact absurd (advances _ _ _ run) (Nat.lt_irrefl _)
    | cons octet passed =>
      rw [offset_bind, Reader.peek_bind] at run ⊢
      exact (h _ _).cut run shorter

theorem local_next : Local next where
  proceeds := proceeds_next
  cut := by
    intro offset place passed rest kept value run _
    cases passed with
    | nil => exact absurd (advances_next _ _ _ run) (Nat.lt_irrefl _)
    | cons octet passed =>
      simp only [next, List.cons_append, EStateM.Result.ok.injEq, Cursor.mk.injEq,
        List.append_left_eq_self] at run ⊢
      simp [run]

theorem local_expect (wanted : UInt8) : Local (expect wanted) where
  proceeds := proceeds_expect wanted
  cut := by
    intro offset place passed rest kept value run _
    cases passed with
    | nil => exact absurd (advances_expect _ _ _ _ run) (Nat.lt_irrefl _)
    | cons octet passed =>
      by_cases same : octet = wanted
      · simp only [expect, List.cons_append, if_pos same, EStateM.Result.ok.injEq,
          Cursor.mk.injEq, List.append_left_eq_self] at run ⊢
        simp [run]
      · simp [expect, same] at run

theorem skipOptional_eq (wanted : UInt8) (offset : Nat) (ahead : Octets) :
    skipOptional wanted ⟨offset, ahead⟩ =
      if ahead.head? = some wanted then .ok () ⟨offset + 1, ahead.tail⟩
      else .ok () ⟨offset, ahead⟩ := by
  cases ahead with
  | nil => rfl
  | cons octet rest =>
    by_cases same : octet = wanted
    · simp [skipOptional, same]
    · simp [skipOptional, same]

theorem local_skipOptional (wanted : UInt8) : Local (skipOptional wanted) where
  proceeds := proceeds_skipOptional wanted
  cut := by
    intro offset place passed rest kept value run shorter
    rw [skipOptional_eq] at run ⊢
    cases passed with
    | cons octet passed =>
      by_cases same : octet = wanted
      · simp [same] at run ⊢
        exact run
      · -- the octet was not passed
        rw [if_neg (by simp [same])] at run
        have all := (Cursor.mk.inj (EStateM.Result.ok.inj run).2).2
        exact absurd (List.append_left_eq_self.mp all) (List.cons_ne_nil _ _)
    | nil =>
      rw [List.nil_append] at run ⊢
      have other : rest.head? ≠ some wanted := by
        intro same
        rw [if_pos same] at run
        have all := congrArg List.length (Cursor.mk.inj (EStateM.Result.ok.inj run).2).2
        cases rest with
        | nil => exact nomatch same
        | cons octet rest => simp at all
      -- an octet that was left is still ahead, unless it was cut off
      rw [if_neg other] at run
      rw [if_neg fun same => other (head?_of_cut shorter same)]
      simp at run
      simp [run]

/-- Octets of one kind end where they did, or at the cut. -/
theorem local_takeWhile (p : UInt8 → Bool) : Local (takeWhile p) where
  proceeds := proceeds_takeWhile p
  cut := by
    intro offset place passed rest kept value run shorter
    obtain ⟨rfl, ended⟩ := EStateM.Result.ok.inj run
    obtain ⟨rfl, dropped⟩ := Cursor.mk.inj ended
    dsimp only at dropped ⊢
    have taken : (passed ++ rest).takeWhile p = passed := by
      have whole := List.takeWhile_append_dropWhile (p := p) (l := passed ++ rest)
      rw [dropped] at whole
      exact List.append_cancel_right whole
    have each : ∀ octet ∈ passed, p octet = true := by
      rw [← taken]
      exact List.all_eq_true.mp List.all_takeWhile
    have stop : ∀ octet, kept.head? = some octet → p octet = false := by
      intro octet front
      have known := List.head?_dropWhile_not p (passed ++ rest)
      rw [dropped, head?_of_cut shorter front] at known
      exact known
    rw [taken]
    exact takeWhile_append each stop offset

theorem local_takeExactly (n : Nat) : Local (takeExactly n) where
  proceeds := proceeds_takeExactly n
  cut := by
    intro offset place passed rest kept value run _
    simp only [takeExactly] at run
    split at run
    · next exact =>
      obtain ⟨rfl, ended⟩ := EStateM.Result.ok.inj run
      obtain ⟨rfl, dropped⟩ := Cursor.mk.inj ended
      dsimp only at exact dropped ⊢
      have taken : (passed ++ rest).take n = passed := by
        have whole := List.take_append_drop n (passed ++ rest)
        rw [dropped] at whole
        exact List.append_cancel_right whole
      rw [taken] at exact ⊢
      rw [← exact]
      exact takeExactly_append passed offset kept
    · cases run

/-- The closing octet is the last that was passed. -/
theorem local_takeThrough (close : UInt8) : Local (takeThrough close) where
  proceeds := proceeds_takeThrough close
  cut := by
    intro offset place passed rest kept value run _
    simp only [takeThrough] at run
    split at run
    · cases run
    · next last behind dropped =>
      obtain ⟨rfl, ended⟩ := EStateM.Result.ok.inj run
      obtain ⟨rfl, rfl⟩ := Cursor.mk.inj ended
      have known := List.head?_dropWhile_not (· != close) (passed ++ behind)
      rw [dropped] at known
      obtain rfl : last = close := by simpa using known
      have whole : (passed ++ behind).takeWhile (· != last) ++
          (passed ++ behind).dropWhile (· != last) = passed ++ behind :=
        List.takeWhile_append_dropWhile
      rw [dropped, List.append_cons] at whole
      have taken := List.append_cancel_right whole
      have each : ∀ octet ∈ (passed ++ behind).takeWhile (· != last), octet ≠ last := by
        intro octet mem
        simpa using List.all_eq_true.mp List.all_takeWhile octet mem
      nth_rewrite 1 [← taken]
      rw [List.append_assoc]
      exact takeThrough_append each offset kept

/-- Every step passes something, so that the octets passed by the others are fewer. -/
theorem Local.collect {step : Reader (Option α)} (h : Local step) (advances : step.Advances)
    (found : List α) : Local (Reader.collect step advances found) where
  proceeds := h.proceeds.collect advances found
  cut := by
    intro offset place passed rest kept values run shorter
    -- on the number of octets passed, of which the first step takes some
    generalize size : passed.length = n
    induction n using Nat.strongRecOn generalizing found offset passed with
    | ind n ih =>
      rw [collect_apply] at run ⊢
      cases first : step ⟨offset, passed ++ rest⟩ with
      | error error next =>
        rw [first] at run
        exact nomatch run
      | ok value next =>
        rw [first] at run
        obtain ⟨between, ahead⟩ := next
        obtain ⟨front, split⟩ := passed_of_run h.proceeds first
        cases value with
        | none =>
          obtain ⟨rfl, same⟩ := EStateM.Result.ok.inj run
          obtain ⟨rfl, rfl⟩ := Cursor.mk.inj same
          rw [h.cut first shorter]
        | some item =>
          obtain ⟨back, rfl⟩ := passed_of_run (h.proceeds.collect advances _) run
          obtain rfl : passed = front ++ back := by
            rw [← List.append_assoc] at split
            exact List.append_cancel_right split
          have fewer : back.length < n := by
            have := advances _ _ _ first
            simp only [List.length_append] at this size
            omega
          rw [List.append_assoc] at first ⊢
          rw [h.cut first ((List.prefix_append_right_inj back).mpr shorter)]
          exact ih _ fewer (item :: found) run rfl

/-! ### Octet strings -/

theorem local_skipBlank : Local skipBlank :=
  (local_takeWhile isBlank).bind fun _ => local_pure ()

theorem local_length : Local length := by
  refine local_offset.bind fun _ => (local_takeWhile _).bind fun _ => ?_
  split
  · exact local_throw _
  · exact local_pure _

theorem local_octalDigit : Local octalDigit := by
  refine local_offset.bind fun _ => local_next.bind fun _ => ?_
  split
  · exact local_pure _
  · exact local_throw _

theorem local_hexEscape : Local hexEscape := by
  refine local_next.bind fun _ => local_next.bind fun _ => ?_
  split
  · exact local_pure _
  · exact local_throw _

theorem local_octalEscape (first : UInt8) (start : Nat) : Local (octalEscape first start) := by
  refine local_octalDigit.bind fun _ => local_octalDigit.bind fun _ => ?_
  dsimp only
  split
  · exact local_pure _
  · exact local_throw _

theorem local_escape : Local escape := by
  refine local_offset.bind fun start => local_next.bind fun octet => ?_
  split
  · exact local_pure _
  · split
    · exact local_hexEscape
    · split
      · exact local_octalEscape octet start
      · split
        · exact (local_skipOptional _).bind fun _ => local_pure _
        · split
          · exact (local_skipOptional _).bind fun _ => local_pure _
          · exact local_throw _

theorem local_quotedPiece : Local quotedPiece := by
  refine local_next.bind fun _ => ?_
  split
  · exact local_pure _
  · split
    · exact local_escape.bind fun _ => local_pure _
    · exact local_pure _

theorem local_quoted : Local quoted :=
  (local_expect _).bind fun _ => (local_quotedPiece.collect _ _).bind fun _ => local_pure _

theorem local_hexadecimal : Local hexadecimal := by
  refine (local_expect _).bind fun _ => (local_takeThrough _).bind fun _ => ?_
  split
  · exact local_pure _
  · exact local_throw _

theorem local_base64Through (close : UInt8) : Local (base64Through close) := by
  refine (local_takeThrough _).bind fun _ => ?_
  split
  · exact local_pure _
  · exact local_throw _

theorem local_of_delimited? {opening : UInt8} {body : Reader Octets}
    (h : delimited? opening = some body) : Local body := by
  unfold delimited? at h
  split at h
  · obtain rfl := Option.some.inj h
    exact local_quoted
  · split at h
    · obtain rfl := Option.some.inj h
      exact local_hexadecimal
    · split at h
      · obtain rfl := Option.some.inj h
        exact (local_expect _).bind fun _ => local_base64Through _
      · exact nomatch h

theorem local_measured (start n : Nat) : Local (measured start n) := by
  refine Local.offset_peek_bind (fun stop opening => ?_) (advances_measured start n)
  cases opening with
  | none => exact local_throw _
  | some opening =>
    dsimp only
    split
    · exact (local_expect _).bind fun _ => local_takeExactly _
    · split
      · exact local_throw _
      · next body h =>
        refine (local_of_delimited? h).bind fun _ => ?_
        split
        · exact local_pure _
        · exact local_throw _

theorem local_counted : Local counted :=
  local_offset.bind fun _ => local_length.bind fun _ => local_measured _ _

theorem local_octets : Local octets := by
  refine Local.offset_peek_bind (fun start opening => ?_) advances_octets
  cases opening with
  | none => exact local_throw _
  | some opening =>
    dsimp only
    split
    · exact local_counted
    · split
      · next h => exact local_of_delimited? h
      · split
        · exact local_next.bind fun _ => (local_takeWhile _).bind fun _ => local_pure _
        · exact local_throw _

/-! ### Expressions -/

theorem local_item {element : Bounded} (h : Local element.run) : Local (item element.run) := by
  refine local_skipBlank.bind fun _ => Local.peek_bind (fun octet => ?_) ?_
  · cases octet with
    | none => exact local_throw _
    | some octet =>
      dsimp only
      split
      · exact (local_expect _).bind fun _ => local_pure _
      · exact h.bind fun _ => local_pure _
  · refine proceeds_peek.bind_advances fun octet => ?_
    cases octet with
    | none => exact advances_throw _
    | some octet =>
      dsimp only
      split
      · exact (advances_expect _).bind fun _ => proceeds_pure _
      · exact element.advances.bind fun _ => proceeds_pure _

theorem local_listOf {element : Bounded} (h : Local element.run) : Local (listOf element) :=
  (local_expect _).bind fun _ => ((local_item h).collect _ _).bind fun _ => local_pure _

/-- What a transport block holds is an input of its own, which no cut reaches. -/
theorem local_transport (element : Bounded) : Local (transport element) := by
  refine (local_expect _).bind fun _ => (local_base64Through _).bind fun _ => ?_
  split
  · exact local_pure _
  · exact local_throw _

theorem local_hinted : Local hinted :=
  (local_expect _).bind fun _ => local_skipBlank.bind fun _ => local_octets.bind fun _ =>
    local_skipBlank.bind fun _ => (local_expect _).bind fun _ => local_skipBlank.bind fun _ =>
      local_octets.bind fun _ => local_pure _

theorem local_plain : Local plain := local_octets.bind fun _ => local_pure _

theorem local_expressionAt {inner : Option Bounded}
    (h : ∀ element, inner = some element → Local element.run) : Local (expressionAt inner) := by
  refine Local.offset_peek_bind (fun start opening => ?_) (advances_expressionAt inner)
  cases opening with
  | none => exact local_throw _
  | some opening =>
    dsimp only
    split
    · cases inner with
      | none => exact local_throw _
      | some element => exact local_listOf (h element rfl)
    · split
      · cases inner with
        | none => exact local_throw _
        | some element => exact local_transport element
      · split
        · exact local_hinted
        · exact local_plain

theorem local_bounded {inner : Option Bounded}
    (h : ∀ element, inner = some element → Local element.run) : Local (bounded inner).run :=
  local_skipBlank.bind fun _ => local_expressionAt h

/-- An expression is read locally within every budget. -/
theorem local_expression (budget : Nat) : Local (expression budget).run := by
  induction budget with
  | zero => exact local_bounded fun _ none => nomatch none
  | succ budget ih =>
    apply local_bounded
    rintro _ ⟨⟩
    exact ih

end SimplePki.Reader
