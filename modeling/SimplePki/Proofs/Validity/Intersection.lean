import SimplePki.Proofs.Validity

/-!
# The common part of many validities

Validities are intersected one after the other, and it is over as soon as two of them have nothing
in common.  The bounds that are met with on the way are the latest lower and the earliest upper one,
and nothing is lost by giving up early: an interval without instants has none in common with any
other.

Where intervals have an instant in common, their common part is determined by the instants that it
contains.  So neither the order of the intervals nor their repetition makes a difference, which is
shown here without comparing bounds.

## Main definitions

* `Validity.overlap`: the common part of two intervals, instants or not
* `Validity.Ordered`: the lower bound is not behind the upper one
* `Validity.intersectAll`: the common part of many intervals, if it has an instant

## Main results

* `Validity.ordered_iff`: an interval is ordered exactly if it contains an instant
* `Validity.eq_of_contains`: an interval with an instant is determined by its instants
* `Validity.intersectAll_congr`: which intervals there are decides, and not in what order
* `Validity.intersection_is_of_instants`
-/

namespace SimplePki

namespace Instant

/-- The instant a second before the earlier of two. -/
def before (a b : Instant) : Instant := ⟨min a.seconds b.seconds - 1, 0⟩

/-- The instant a second after the later of two. -/
def after (a b : Instant) : Instant := ⟨max a.seconds b.seconds + 1, 0⟩

theorem before_le_left (a b : Instant) : before a b ≤ a := by
  rw [le_iff, before]
  dsimp only
  omega

theorem not_le_before (a b : Instant) : ¬b ≤ before a b := by
  rw [le_iff, before]
  dsimp only
  omega

theorem le_after_left (a b : Instant) : a ≤ after a b := by
  rw [le_iff, after]
  dsimp only
  omega

theorem not_after_le (a b : Instant) : ¬after a b ≤ b := by
  rw [le_iff, after]
  dsimp only
  omega

/-- The beginning of 1970. -/
def epoch : Instant := ⟨0, 0⟩

theorem inCalendar_epoch : epoch.InCalendar :=
  ⟨⟨⟨1970, 1, 1⟩, by decide, by decide⟩, by decide⟩

end Instant

namespace Validity

variable {a b c validity : Validity} {validities others : List Validity} {instant : Instant}

theorem contains_iff :
    validity.contains instant = true ↔
      (∀ first, validity.notBefore = some first → first ≤ instant) ∧
        ∀ last, validity.notAfter = some last → instant ≤ last := by
  simp [contains, Option.all_eq_true]

/-! ### Intervals with instants -/

/-- Where there are both bounds, the lower is not behind the upper. -/
def Ordered (validity : Validity) : Prop :=
  ∀ first last, validity.notBefore = some first → validity.notAfter = some last → first ≤ last

/-- An instant for an interval: its lower bound, or its upper one, or any instant. -/
def instantOf (validity : Validity) : Instant :=
  (validity.notBefore.or validity.notAfter).getD .epoch

theorem contains_instantOf (h : validity.Ordered) :
    validity.contains validity.instantOf = true := by
  obtain ⟨notBefore, notAfter⟩ := validity
  rw [contains_iff]
  cases notBefore with
  | some first =>
    refine ⟨?_, fun last bounded => h first last rfl bounded⟩
    intro other same
    rw [← Option.some.inj same]
    exact Instant.le_refl first
  | none =>
    refine ⟨fun _ missing => (nomatch missing), fun last bounded => ?_⟩
    have bounded : notAfter = some last := bounded
    subst bounded
    exact Instant.le_refl last

theorem InCalendar.instantOf (h : validity.InCalendar) : validity.instantOf.InCalendar := by
  obtain ⟨notBefore, notAfter⟩ := validity
  cases notBefore with
  | some first => exact h.notBefore first rfl
  | none =>
    cases notAfter with
    | some last => exact h.notAfter last rfl
    | none => exact Instant.inCalendar_epoch

/-- An interval is ordered exactly if it contains an instant. -/
theorem ordered_iff : validity.Ordered ↔ ∃ instant, validity.contains instant = true := by
  constructor
  · intro h
    exact ⟨_, contains_instantOf h⟩
  · rintro ⟨instant, within⟩ first last lower upper
    obtain ⟨above, below⟩ := contains_iff.mp within
    exact Instant.le_trans (above first lower) (below last upper)

/-- What bounds the instants of an interval from below is not behind its own lower bound. -/
theorem exists_notBefore (h : a.Ordered)
    (within : ∀ instant, a.contains instant = true → b.contains instant = true) {first : Instant}
    (lower : b.notBefore = some first) : ∃ own, a.notBefore = some own ∧ first ≤ own := by
  cases bound : a.notBefore with
  | none =>
    -- an unbounded interval has an instant in front of any other
    have upper := (contains_iff.mp (contains_instantOf h)).2
    have early : a.contains (.before a.instantOf first) = true := by
      refine contains_iff.mpr ⟨fun _ missing => (nomatch bound.symm.trans missing), ?_⟩
      intro last bounded
      exact Instant.le_trans (Instant.before_le_left _ _) (upper last bounded)
    have behind := (contains_iff.mp (within _ early)).1 first lower
    exact absurd behind (Instant.not_le_before _ _)
  | some own =>
    refine ⟨own, rfl, ?_⟩
    have lowest : a.contains own = true := by
      refine contains_iff.mpr ⟨fun other same => ?_, fun last upper => h own last bound upper⟩
      rw [Option.some.inj (same.symm.trans bound)]
      exact Instant.le_refl own
    exact (contains_iff.mp (within own lowest)).1 first lower

/-- What bounds the instants of an interval from above is not in front of its own upper bound. -/
theorem exists_notAfter (h : a.Ordered)
    (within : ∀ instant, a.contains instant = true → b.contains instant = true) {last : Instant}
    (upper : b.notAfter = some last) : ∃ own, a.notAfter = some own ∧ own ≤ last := by
  cases bound : a.notAfter with
  | none =>
    have lower := (contains_iff.mp (contains_instantOf h)).1
    have late : a.contains (.after a.instantOf last) = true := by
      refine contains_iff.mpr ⟨?_, fun _ missing => (nomatch bound.symm.trans missing)⟩
      intro first bounded
      exact Instant.le_trans (lower first bounded) (Instant.le_after_left _ _)
    have front := (contains_iff.mp (within _ late)).2 last upper
    exact absurd front (Instant.not_after_le _ _)
  | some own =>
    refine ⟨own, rfl, ?_⟩
    have highest : a.contains own = true := by
      refine contains_iff.mpr ⟨fun first lower => h first own lower bound, fun other same => ?_⟩
      rw [Option.some.inj (same.symm.trans bound)]
      exact Instant.le_refl own
    exact (contains_iff.mp (within own highest)).2 last upper

/-- Bounds that are missing together, and each of which comes up to the other, are the same. -/
theorem eq_of_related (bounds : Instant → Instant → Prop)
    (antisymm : ∀ p q, bounds p q → bounds q p → p = q) {x y : Option Instant}
    (forth : ∀ p, x = some p → ∃ q, y = some q ∧ bounds p q)
    (back : ∀ q, y = some q → ∃ p, x = some p ∧ bounds q p) : x = y := by
  cases x with
  | none =>
    cases y with
    | none => rfl
    | some q =>
      obtain ⟨_, missing, -⟩ := back q rfl
      exact nomatch missing
  | some p =>
    obtain ⟨q, known, toward⟩ := forth p rfl
    obtain ⟨other, again, fro⟩ := back q known
    cases again
    rw [known, antisymm _ _ toward fro]

/-- An interval with an instant is determined by its instants. -/
theorem eq_of_contains (h : a.Ordered)
    (same : ∀ instant, a.contains instant = true ↔ b.contains instant = true) : a = b := by
  have ordered : b.Ordered := ordered_iff.mpr ⟨_, (same _).mp (contains_instantOf h)⟩
  have lower : b.notBefore = a.notBefore :=
    eq_of_related (fun p q => p ≤ q) (fun _ _ => Instant.le_antisymm)
      (fun _ => exists_notBefore h fun instant => (same instant).mp)
      (fun _ => exists_notBefore ordered fun instant => (same instant).mpr)
  have upper : b.notAfter = a.notAfter :=
    eq_of_related (fun p q => q ≤ p) (fun _ _ below above => Instant.le_antisymm above below)
      (fun _ => exists_notAfter h fun instant => (same instant).mp)
      (fun _ => exists_notAfter ordered fun instant => (same instant).mpr)
  exact congrArg₂ Validity.mk lower.symm upper.symm

/-! ### Two intervals -/

/-- The common part of two intervals, whether it has an instant or not. -/
def overlap (a b : Validity) : Validity :=
  ⟨meet Instant.later a.notBefore b.notBefore, meet Instant.earlier a.notAfter b.notAfter⟩

/-- The common part contains what both contain. -/
theorem contains_overlap :
    (a.overlap b).contains instant = true ↔
      a.contains instant = true ∧ b.contains instant = true := by
  simp only [contains, overlap, meet_later_all, meet_earlier_all, Bool.and_eq_true]
  exact and_and_and_comm

/-- Intervals are intersected if their common part has an instant. -/
theorem intersect_eq_some_iff :
    a.intersect b = some c ↔ (a.overlap b).Ordered ∧ a.overlap b = c := by
  unfold intersect
  dsimp only
  split
  · next first last lower upper =>
    have bounds : (a.overlap b).Ordered ↔ first ≤ last := by
      constructor
      · intro ordered
        exact ordered first last lower upper
      · intro le p q isLower isUpper
        cases lower.symm.trans isLower
        cases upper.symm.trans isUpper
        exact le
    split
    · next le =>
      rw [Option.some.injEq]
      exact (and_iff_right (bounds.mpr le)).symm
    · next gt => exact iff_of_false nofun fun both => gt (bounds.mp both.1)
  · next missing =>
    have ordered : (a.overlap b).Ordered :=
      fun p q isLower isUpper => absurd isUpper (missing p q isLower)
    rw [Option.some.injEq]
    exact (and_iff_right ordered).symm

/-! ### Many intervals -/

/-- The common part of many intervals, if it has an instant: they are intersected one after the
other, up to the first two without a common instant. -/
def intersectAll (validities : List Validity) : Option Validity :=
  validities.foldlM intersect always

/-- The common part of many intervals, whether it has an instant or not. -/
def overlapAll (validities : List Validity) : Validity := validities.foldl overlap always

theorem contains_foldl_overlap :
    (validities.foldl overlap validity).contains instant = true ↔
      validity.contains instant = true ∧ ∀ other ∈ validities, other.contains instant = true := by
  induction validities generalizing validity with
  | nil => simp
  | cons first rest ih =>
    rw [List.foldl_cons, ih, contains_overlap, List.forall_mem_cons, and_assoc]

/-- An interval that was intersected with others has an instant only if it had one before. -/
theorem Ordered.of_foldl (h : (validities.foldl overlap validity).Ordered) : validity.Ordered := by
  obtain ⟨instant, within⟩ := ordered_iff.mp h
  exact ordered_iff.mpr ⟨instant, (contains_foldl_overlap.mp within).1⟩

/-- Giving up at the first two intervals without a common instant loses nothing: the outcome is the
common part of all, if that has an instant. -/
theorem foldlM_intersect_eq_some_iff (h : validity.Ordered) :
    validities.foldlM intersect validity = some c ↔
      (validities.foldl overlap validity).Ordered ∧ validities.foldl overlap validity = c := by
  induction validities generalizing validity with
  | nil =>
    change some validity = some c ↔ _
    rw [Option.some.injEq]
    exact (and_iff_right h).symm
  | cons first rest ih =>
    rw [List.foldlM_cons, List.foldl_cons]
    change (validity.intersect first).bind _ = some c ↔ _
    rw [Option.bind_eq_some_iff]
    constructor
    · rintro ⟨between, common, others⟩
      obtain ⟨ordered, rfl⟩ := intersect_eq_some_iff.mp common
      exact (ih ordered).mp others
    · intro both
      have ordered : (validity.overlap first).Ordered := both.1.of_foldl
      exact ⟨_, intersect_eq_some_iff.mpr ⟨ordered, rfl⟩, (ih ordered).mpr both⟩

theorem ordered_always : always.Ordered := fun _ _ missing => nomatch missing

theorem contains_overlapAll :
    (overlapAll validities).contains instant = true ↔
      ∀ other ∈ validities, other.contains instant = true := by
  rw [overlapAll, contains_foldl_overlap]
  exact and_iff_right rfl

theorem intersectAll_eq_some_iff :
    intersectAll validities = some c ↔
      (overlapAll validities).Ordered ∧ overlapAll validities = c :=
  foldlM_intersect_eq_some_iff ordered_always

/-- Intervals with the same common instants have the same common part. -/
theorem intersectAll_congr
    (same : ∀ instant, (∀ validity ∈ validities, validity.contains instant = true) ↔
      ∀ validity ∈ others, validity.contains instant = true) :
    intersectAll validities = intersectAll others := by
  have contained (instant : Instant) : (overlapAll validities).contains instant = true ↔
      (overlapAll others).contains instant = true := by
    rw [contains_overlapAll, contains_overlapAll]
    exact same instant
  apply Option.ext
  intro common
  rw [intersectAll_eq_some_iff, intersectAll_eq_some_iff]
  constructor
  · rintro ⟨ordered, rfl⟩
    rw [← eq_of_contains ordered contained]
    exact ⟨ordered, rfl⟩
  · rintro ⟨ordered, rfl⟩
    rw [← eq_of_contains ordered fun instant => (contained instant).symm]
    exact ⟨ordered, rfl⟩

/-- There is a common part exactly if there is an instant that all intervals contain. -/
theorem exists_intersectAll_iff :
    (∃ common, intersectAll validities = some common) ↔
      ∃ instant, ∀ validity ∈ validities, validity.contains instant = true := by
  simp only [intersectAll_eq_some_iff, exists_eq_right', ← contains_overlapAll]
  exact ordered_iff

/-! ### Bounds that can be shown -/

theorem eq_some_of_meet {choose : Instant → Instant → Instant}
    (one : ∀ p q, choose p q = p ∨ choose p q = q) {x y : Option Instant} {bound : Instant}
    (h : meet choose x y = some bound) : x = some bound ∨ y = some bound := by
  cases x with
  | none => exact Or.inr h
  | some p =>
    cases y with
    | none => exact Or.inl h
    | some q =>
      cases h
      rcases one p q with same | same
      · exact Or.inl (congrArg some same.symm)
      · exact Or.inr (congrArg some same.symm)

/-- Bounds are taken over from the intervals, so that they can be shown if those of the intervals
can. -/
theorem InCalendar.overlap (shownA : a.InCalendar) (shownB : b.InCalendar) :
    (a.overlap b).InCalendar where
  notBefore first lower := by
    have taken := eq_some_of_meet (fun p q => (ite_eq_or_eq (p ≤ q) q p).symm) lower
    exact taken.elim (shownA.notBefore first) (shownB.notBefore first)
  notAfter last upper := by
    have taken := eq_some_of_meet (fun p q => ite_eq_or_eq (p ≤ q) p q) upper
    exact taken.elim (shownA.notAfter last) (shownB.notAfter last)

theorem InCalendar.foldl_overlap (shown : validity.InCalendar)
    (all : ∀ other ∈ validities, other.InCalendar) :
    (validities.foldl Validity.overlap validity).InCalendar := by
  induction validities generalizing validity with
  | nil => exact shown
  | cons first rest ih =>
    obtain ⟨shownFirst, others⟩ := List.forall_mem_cons.mp all
    exact ih (shown.overlap shownFirst) others

theorem inCalendar_always : always.InCalendar :=
  ⟨fun _ missing => (nomatch missing), fun _ missing => (nomatch missing)⟩

/-- Any number of intervals, inverted and unbounded ones among them, have the same outcome in every
order.  They have a common part exactly if some instant lies in all of them, and the common part
contains the instants that lie in all of them, and no others.  If their bounds can be shown, so can
those of the common part, and an instant that lies in it. -/
theorem intersection_is_of_instants (validities : List Validity) :
    (∀ others : List Validity, others.Perm validities →
      intersectAll others = intersectAll validities) ∧
    ((∃ common, intersectAll validities = some common) ↔
      ∃ instant, ∀ validity ∈ validities, validity.contains instant = true) ∧
    ∀ common, intersectAll validities = some common →
      (∀ instant, common.contains instant = true ↔
        ∀ validity ∈ validities, validity.contains instant = true) ∧
      ((∀ validity ∈ validities, validity.InCalendar) → common.InCalendar ∧
        ∃ instant, instant.InCalendar ∧ common.contains instant = true) := by
  refine ⟨?_, exists_intersectAll_iff, ?_⟩
  · intro others reordered
    refine intersectAll_congr fun instant => ?_
    exact forall_congr' fun validity => imp_congr_left reordered.mem_iff
  · intro common found
    obtain ⟨ordered, rfl⟩ := intersectAll_eq_some_iff.mp found
    refine ⟨fun instant => contains_overlapAll, fun shown => ?_⟩
    have inside : (overlapAll validities).InCalendar := inCalendar_always.foldl_overlap shown
    exact ⟨inside, _, inside.instantOf, contains_instantOf ordered⟩

/-- The middle of the leap second at the end of June 1972; it comes before July begins. -/
def leap : Instant := ⟨78796799, 1500000000⟩

/-- The beginning of July 1972. -/
def july : Instant := ⟨78796800, 0⟩

/-- Intervals that meet in a leap second have that one instant in common, in whatever order they are
taken; with an interval that ends before it begins there is none. -/
theorem intervals_meet_in_a_leap_second :
    intersectAll [⟨some leap, none⟩, always, ⟨none, some leap⟩, ⟨none, some july⟩] =
      some ⟨some leap, some leap⟩ ∧
    intersectAll [⟨none, some july⟩, ⟨none, some leap⟩, always, ⟨some leap, none⟩] =
      some ⟨some leap, some leap⟩ ∧
    (∀ instant, (⟨some leap, some leap⟩ : Validity).contains instant = true →
      (⟨none, some july⟩ : Validity).contains instant = true) ∧
    intersectAll [always, ⟨some july, some leap⟩] = none := by
  have found : intersectAll [⟨some leap, none⟩, always, ⟨none, some leap⟩, ⟨none, some july⟩] =
      some ⟨some leap, some leap⟩ := by decide
  obtain ⟨inAnyOrder, -, contents⟩ := intersection_is_of_instants
    [⟨some leap, none⟩, always, ⟨none, some leap⟩, ⟨none, some july⟩]
  refine ⟨found, ?_, ?_, by decide⟩
  · rw [inAnyOrder _ (by decide), found]
  · intro instant within
    exact ((contents _ found).1 instant).mp within _ (by decide)

end Validity

end SimplePki
