import SimplePki.Proofs.SExpr.Reads

/-!
# What is read is nested within the budget

A reader of expressions never yields more nesting than its budget allows: lists and transport blocks
both use up one unit of it, and only lists nest what they hold any deeper.

## Main definitions

* `Reader.Shallow`: a reader yields expressions within a budget only

## Main results

* `Reader.shallow_expression`, `SExpr.nesting_le_of_read`
-/

namespace SimplePki

namespace Reader

variable {α β : Type}

/-- A reader that runs after another succeeds on what the first has left. -/
theorem bind_eq_ok {reader : Reader α} {rest : α → Reader β} {cursor last : Cursor} {value : β}
    (run : (reader >>= rest) cursor = .ok value last) :
    ∃ middle next, reader cursor = .ok middle next ∧ rest middle next = .ok value last := by
  cases first : reader cursor with
  | ok middle next =>
    rw [bind_of_ok first] at run
    exact ⟨middle, next, rfl, run⟩
  | error error next =>
    rw [bind_of_error first] at run
    exact nomatch run

/-- What holds of every value of a step holds of all that are collected. -/
theorem forall_of_collect {step : Reader (Option α)} {advances : step.Advances} {P : α → Prop}
    (each : ∀ cursor value next, step cursor = .ok (some value) next → P value)
    {found values : List α} (before : ∀ value ∈ found, P value) {cursor next : Cursor}
    (run : collect step advances found cursor = .ok values next) : ∀ value ∈ values, P value := by
  generalize size : cursor.ahead.length = n
  induction n using Nat.strongRecOn generalizing found cursor with
  | ind n ih =>
    rw [collect_apply] at run
    cases first : step cursor with
    | error error after =>
      rw [first] at run
      exact nomatch run
    | ok value after =>
      rw [first] at run
      cases value with
      | none =>
        obtain ⟨rfl, -⟩ := EStateM.Result.ok.inj run
        intro value mem
        exact before value (List.mem_reverse.mp mem)
      | some value =>
        have shorter := advances _ _ _ first
        have more : ∀ other ∈ value :: found, P other :=
          List.forall_mem_cons.mpr ⟨each _ _ _ first, before⟩
        exact ih _ (size ▸ shorter) more run rfl

/-- Yields expressions only that are nested within a budget. -/
def Shallow (reader : Reader SExpr) (budget : Nat) : Prop :=
  ∀ cursor expr next, reader cursor = .ok expr next → expr.nesting ≤ budget

theorem eq_of_item {element : Reader SExpr} {cursor next : Cursor} {expr : SExpr}
    (run : item element cursor = .ok (some expr) next) :
    ∃ before, element before = .ok expr next := by
  obtain ⟨_, between, -, run⟩ := bind_eq_ok run
  rw [peek_bind] at run
  cases ahead : between.ahead.head? with
  | none =>
    rw [ahead] at run
    exact nomatch run
  | some octet =>
    rw [ahead] at run
    dsimp only at run
    by_cases closes : octet = 0x29
    · rw [if_pos closes] at run
      obtain ⟨_, _, -, run⟩ := bind_eq_ok run
      exact nomatch (EStateM.Result.ok.inj run).1
    · rw [if_neg closes] at run
      obtain ⟨read, after, elementRun, same⟩ := bind_eq_ok run
      obtain ⟨known, rfl⟩ := EStateM.Result.ok.inj same
      exact ⟨between, Option.some.inj known ▸ elementRun⟩

theorem shallow_listOf {element : Bounded} {budget : Nat} (h : Shallow element.run budget) :
    Shallow (listOf element) (budget + 1) := by
  intro cursor expr next run
  obtain ⟨_, between, -, run⟩ := bind_eq_ok run
  obtain ⟨items, after, collected, made⟩ := bind_eq_ok run
  obtain ⟨rfl, -⟩ := EStateM.Result.ok.inj made
  have each : ∀ item ∈ items, item.nesting ≤ budget := by
    refine forall_of_collect ?_ (fun _ mem => absurd mem List.not_mem_nil) collected
    intro cursor item next run
    obtain ⟨before, read⟩ := eq_of_item run
    exact h _ _ _ read
  rw [SExpr.nesting]
  exact Nat.succ_le_succ (SExpr.nestingItems_le_iff.mpr each)

theorem exists_run_of_complete {element : Reader SExpr} {input : Octets} {expr : SExpr}
    (h : complete element input = .ok expr) :
    ∃ next, element (Cursor.start input) = .ok expr next := by
  unfold complete at h
  split at h
  · cases h
  · next value after run =>
    split at h
    · cases h
      exact ⟨after, run⟩
    · cases h

/-- A transport block holds a whole input, and nests it no deeper. -/
theorem shallow_transport {element : Bounded} {budget : Nat} (h : Shallow element.run budget) :
    Shallow (transport element) budget := by
  intro cursor expr next run
  obtain ⟨_, _, -, run⟩ := bind_eq_ok run
  obtain ⟨input, between, -, run⟩ := bind_eq_ok run
  cases completed : complete element.run input with
  | error error =>
    rw [completed] at run
    exact nomatch run
  | ok read =>
    rw [completed] at run
    obtain ⟨rfl, -⟩ := EStateM.Result.ok.inj run
    obtain ⟨after, read⟩ := exists_run_of_complete completed
    exact h _ _ _ read

theorem shallow_hinted (budget : Nat) : Shallow hinted budget := by
  intro cursor expr next run
  obtain ⟨_, _, -, run⟩ := bind_eq_ok run
  obtain ⟨_, _, -, run⟩ := bind_eq_ok run
  obtain ⟨hint, _, -, run⟩ := bind_eq_ok run
  obtain ⟨_, _, -, run⟩ := bind_eq_ok run
  obtain ⟨_, _, -, run⟩ := bind_eq_ok run
  obtain ⟨_, _, -, run⟩ := bind_eq_ok run
  obtain ⟨value, _, -, made⟩ := bind_eq_ok run
  obtain ⟨rfl, -⟩ := EStateM.Result.ok.inj made
  exact Nat.zero_le budget

theorem shallow_plain (budget : Nat) : Shallow plain budget := by
  intro cursor expr next run
  obtain ⟨value, _, -, made⟩ := bind_eq_ok run
  obtain ⟨rfl, -⟩ := EStateM.Result.ok.inj made
  exact Nat.zero_le budget

/-- An expression is a list, a transport block or an atom, and where nothing may nest an atom. -/
theorem expressionAt_eq_ok {inner : Option Bounded} {cursor next : Cursor} {expr : SExpr}
    (run : expressionAt inner cursor = .ok expr next) :
    (∃ element, inner = some element ∧
      (listOf element cursor = .ok expr next ∨ transport element cursor = .ok expr next)) ∨
      hinted cursor = .ok expr next ∨ plain cursor = .ok expr next := by
  rw [expressionAt, offset_bind, peek_bind] at run
  cases ahead : cursor.ahead.head? with
  | none =>
    rw [ahead] at run
    cases run
  | some opening =>
    rw [ahead] at run
    dsimp only at run
    by_cases list : opening = 0x28
    · rw [if_pos list] at run
      cases inner with
      | none => cases run
      | some element => exact Or.inl ⟨element, rfl, Or.inl run⟩
    · rw [if_neg list] at run
      by_cases block : opening = 0x7B
      · rw [if_pos block] at run
        cases inner with
        | none => cases run
        | some element => exact Or.inl ⟨element, rfl, Or.inr run⟩
      · rw [if_neg block] at run
        by_cases hint : opening = 0x5B
        · rw [if_pos hint] at run
          exact Or.inr (Or.inl run)
        · rw [if_neg hint] at run
          exact Or.inr (Or.inr run)

/-- What is read within a budget is nested within it. -/
theorem shallow_expression (budget : Nat) : Shallow (expression budget).run budget := by
  induction budget with
  | zero =>
    intro cursor expr next run
    obtain ⟨_, _, -, run⟩ := bind_eq_ok run
    rcases expressionAt_eq_ok run with ⟨_, none, -⟩ | hint | atom
    · exact nomatch none
    · exact shallow_hinted 0 _ _ _ hint
    · exact shallow_plain 0 _ _ _ atom
  | succ budget ih =>
    intro cursor expr next run
    obtain ⟨_, _, -, run⟩ := bind_eq_ok run
    rcases expressionAt_eq_ok run with ⟨_, inner, list | block⟩ | hint | atom
    · cases inner
      exact shallow_listOf ih _ _ _ list
    · cases inner
      exact Nat.le_succ_of_le (shallow_transport ih _ _ _ block)
    · exact shallow_hinted _ _ _ _ hint
    · exact shallow_plain _ _ _ _ atom

end Reader

namespace SExpr

/-- No input holds an expression that is nested beyond the limit. -/
theorem nesting_le_of_read {input : Octets} {expr : SExpr} (h : read input = .ok expr) :
    expr.nesting ≤ nestingLimit := by
  obtain ⟨next, run⟩ := Reader.exists_run_of_complete h
  exact Reader.shallow_expression nestingLimit _ _ _ run

end SExpr

end SimplePki
