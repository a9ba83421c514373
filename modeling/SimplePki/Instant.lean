import SimplePki.Calendar

/-!
# Instants

An instant is a second of universal time and a fraction of it.  A leap second has no second of its
own: it is the second before it with a fraction of one second or more.  Leap seconds come at the end
of a minute, but an instant may lie in one behind any second.

## Main definitions

* `Instant`, ordered by second and fraction
* `Instant.isLeap`, `Instant.cut`: leap seconds, and an instant without the fraction of its second
* `Instant.ofDate?`: midnight of a day

## Main results

* `Instant.le_refl`, `Instant.le_trans`, `Instant.le_antisymm`, `Instant.le_total`: the order is
  total
-/

namespace SimplePki

/-- A second since the beginning of 1970, and the nanoseconds that have passed of it. -/
structure Instant where
  seconds : Int
  nanos : Nat
  deriving DecidableEq, Repr

namespace Instant

/-- The nanoseconds of a second. -/
def nanosPerSecond : Nat := 1000000000

/-- The seconds of a day. -/
def secondsPerDay : Int := 86400

/-- Earlier second, or same second and no larger fraction. -/
protected def le (a b : Instant) : Prop :=
  a.seconds < b.seconds ∨ (a.seconds = b.seconds ∧ a.nanos ≤ b.nanos)

instance : LE Instant := ⟨Instant.le⟩

instance (a b : Instant) : Decidable (a ≤ b) :=
  inferInstanceAs (Decidable (a.seconds < b.seconds ∨ (a.seconds = b.seconds ∧ a.nanos ≤ b.nanos)))

theorem le_iff {a b : Instant} :
    a ≤ b ↔ a.seconds < b.seconds ∨ (a.seconds = b.seconds ∧ a.nanos ≤ b.nanos) := Iff.rfl

theorem le_refl (a : Instant) : a ≤ a := Or.inr ⟨rfl, Nat.le_refl _⟩

theorem le_trans {a b c : Instant} (hab : a ≤ b) (hbc : b ≤ c) : a ≤ c := by
  rw [le_iff] at *
  omega

theorem le_antisymm {a b : Instant} (hab : a ≤ b) (hba : b ≤ a) : a = b := by
  rw [le_iff] at *
  cases a
  cases b
  simp only [Instant.mk.injEq]
  simp only at hab hba
  omega

theorem le_total (a b : Instant) : a ≤ b ∨ b ≤ a := by
  rw [le_iff, le_iff]
  omega

/-- The later of two instants. -/
def later (a b : Instant) : Instant := if a ≤ b then b else a

/-- The earlier of two instants. -/
def earlier (a b : Instant) : Instant := if a ≤ b then a else b

theorem later_le_iff {a b c : Instant} : later a b ≤ c ↔ a ≤ c ∧ b ≤ c := by
  unfold later
  split
  · next h => exact ⟨fun hb => ⟨le_trans h hb, hb⟩, And.right⟩
  · next h => exact ⟨fun ha => ⟨ha, le_trans ((le_total a b).resolve_left h) ha⟩, And.left⟩

theorem le_earlier_iff {a b c : Instant} : c ≤ earlier a b ↔ c ≤ a ∧ c ≤ b := by
  unfold earlier
  split
  · next h => exact ⟨fun ha => ⟨ha, le_trans ha h⟩, And.left⟩
  · next h => exact ⟨fun hb => ⟨le_trans hb ((le_total a b).resolve_left h), hb⟩, And.right⟩

/-- Whether the instant lies in a leap second. -/
def isLeap (instant : Instant) : Bool := nanosPerSecond ≤ instant.nanos

/-- The instant without the fraction of its second, or of the leap second that it lies in. -/
def cut (instant : Instant) : Instant :=
  ⟨instant.seconds, if instant.isLeap then nanosPerSecond else 0⟩

/-- The day of an instant. -/
def date (instant : Instant) : Date := .ofDays (instant.seconds / secondsPerDay)

/-- The second of a day, a leap second not counted. -/
def secondOfDay (instant : Instant) : Nat := (instant.seconds % secondsPerDay).toNat

/-- Midnight at the beginning of a day, if there is such a day. -/
def ofDate? (date : Date) : Option Instant :=
  if date.isValid then some ⟨date.toDays * secondsPerDay, 0⟩ else none

end Instant

end SimplePki
