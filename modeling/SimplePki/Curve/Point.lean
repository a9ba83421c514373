import SimplePki.Curve

/-!
# Points and their multiples

Points are added in Jacobian coordinates, where `(x, y, z)` stands for `(x / z², y / z³)` and a
third coordinate of zero for the point at infinity, so that a multiple takes a single division.

## Main definitions

* `Modular.sub`, `Modular.pow`, `Modular.inverse`: arithmetic modulo a prime
* `Jacobian`, `Jacobian.double`, `Jacobian.add`, `Jacobian.multiple`
* `Curve.multiple`: a multiple of a point in plain coordinates, none for the point at infinity
-/

namespace SimplePki

namespace Modular

/-- The difference modulo `m`. -/
def sub (m a b : Nat) : Nat := (a + (m - b % m)) % m

/-- A power modulo `m`, by repeated squaring. -/
def pow (m base exponent : Nat) : Nat :=
  if exponent = 0 then 1 % m
  else
    let half := pow m base (exponent / 2)
    let square := half * half % m
    if exponent % 2 = 1 then square * base % m else square
termination_by exponent

/-- The inverse modulo a prime. -/
def inverse (m a : Nat) : Nat := pow m a (m - 2)

end Modular

/-- A point in Jacobian coordinates. -/
structure Jacobian where
  x : Nat
  y : Nat
  z : Nat
  deriving DecidableEq, Repr

namespace Jacobian

/-- The point at infinity. -/
def infinity : Jacobian := ⟨1, 1, 0⟩

/-- Twice a point of a curve with the coefficient minus three, modulo the prime `m`. -/
def double (m : Nat) (p : Jacobian) : Jacobian :=
  if p.z = 0 ∨ p.y = 0 then infinity
  else
    -- with the coefficient minus three, `3 * x² - 3 * z⁴` is a product of two factors
    let zz := p.z * p.z % m
    let yy := p.y * p.y % m
    let beta := p.x * yy % m
    let alpha := 3 * (Modular.sub m p.x zz * (p.x + zz)) % m
    let x := Modular.sub m (alpha * alpha) (8 * beta)
    let y := Modular.sub m (alpha * Modular.sub m (4 * beta) x) (8 * yy * yy)
    ⟨x, y, 2 * p.y * p.z % m⟩

/-- The sum of two points, modulo the prime `m`. -/
def add (m : Nat) (p q : Jacobian) : Jacobian :=
  if p.z = 0 then q
  else if q.z = 0 then p
  else
    let zzp := p.z * p.z % m
    let zzq := q.z * q.z % m
    let up := p.x * zzq % m
    let uq := q.x * zzp % m
    let sp := p.y * zzq * q.z % m
    let sq := q.y * zzp * p.z % m
    let h := Modular.sub m uq up
    let r := Modular.sub m sq sp
    -- equal abscissas: the points are the same or opposite
    if h = 0 then
      if r = 0 then double m p else infinity
    else
      let hh := h * h % m
      let hhh := h * hh % m
      let v := up * hh % m
      let x := Modular.sub m (r * r) (hhh + 2 * v)
      let y := Modular.sub m (r * Modular.sub m v x) (sp * hhh)
      ⟨x, y, p.z * q.z * h % m⟩

/-- A point added to itself `n` times, by repeated doubling. -/
def multiple (m n : Nat) (p : Jacobian) : Jacobian :=
  if n = 0 then infinity
  else
    let twice := double m (multiple m (n / 2) p)
    if n % 2 = 1 then add m twice p else twice
termination_by n

/-- The plain coordinates of a point, none for the point at infinity. -/
def plain? (m : Nat) (p : Jacobian) : Option (Nat × Nat) :=
  if p.z = 0 then none
  else
    let inverse := Modular.inverse m p.z
    let square := inverse * inverse % m
    some (p.x * square % m, p.y * square * inverse % m)

end Jacobian

namespace Curve

/-- The point `a` times the generator plus `b` times the point `(x, y)`, none at infinity. -/
def combine (curve : Curve) (a b x y : Nat) : Option (Nat × Nat) :=
  let m := curve.prime
  let (gx, gy) := curve.generator
  (Jacobian.add m (Jacobian.multiple m a ⟨gx, gy, 1⟩) (Jacobian.multiple m b ⟨x, y, 1⟩)).plain? m

/-- A multiple of the generator, none at infinity. -/
def multiple (curve : Curve) (n : Nat) : Option (Nat × Nat) :=
  let m := curve.prime
  let (gx, gy) := curve.generator
  (Jacobian.multiple m n ⟨gx, gy, 1⟩).plain? m

end Curve

end SimplePki
