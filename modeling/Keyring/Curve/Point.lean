import Keyring.Curve.Field

/-!
The points of secp256k1, the curve `y² = x³ + 7`, and their group.

Sums and multiples are computed in Jacobian coordinates, which need no
division: the triple `(X, Y, Z)` stands for the point `(X / Z², Y / Z³)`, and a
triple with `Z = 0` for the point at infinity.
-/

namespace Keyring.Curve

structure AffinePoint where
  x : FieldElement
  y : FieldElement
  deriving DecidableEq

/-- The value that the square of `y` has on the curve. -/
def rightSide (x : FieldElement) : FieldElement :=
  x * x * x + 7

def AffinePoint.OnCurve (point : AffinePoint) : Prop :=
  point.y * point.y = rightSide point.x

instance (point : AffinePoint) : Decidable point.OnCurve :=
  inferInstanceAs (Decidable (_ = _))

/-- A point of the group: one with coordinates, or the neutral one. -/
inductive Point where
  | infinity
  | affine (point : AffinePoint)
  deriving DecidableEq

/-- The point at which multiples start. -/
def generator : AffinePoint where
  x := Fin.ofNat fieldSize 0x79be667ef9dcbbac55a06295ce870b07029bfcdb2dce28d959f2815b16f81798
  y := Fin.ofNat fieldSize 0x483ada7726a3c4655da4fbfc0e1108a8fd17b448a68554199c47d08ffb10d4b8

def order : Nat := 0xfffffffffffffffffffffffffffffffebaaedce6af48a03bbfd25e8cd0364141

instance : @NeZero Nat Zero.ofOfNat0 order := ⟨by decide⟩

structure Jacobian where
  x : FieldElement
  y : FieldElement
  z : FieldElement

namespace Jacobian

def infinity : Jacobian := ⟨1, 1, 0⟩

def ofAffine (point : AffinePoint) : Jacobian := ⟨point.x, point.y, 1⟩

/-- The coordinates of the point that a triple stands for. The neutral point,
which has none, gives a pair of zeros. -/
def toAffine (p : Jacobian) : AffinePoint :=
  let w := FieldElement.inverse p.z
  let w2 := w * w
  ⟨p.x * w2, p.y * (w2 * w)⟩

def toPoint (p : Jacobian) : Point :=
  if p.z = 0 then .infinity else .affine p.toAffine

def double (p : Jacobian) : Jacobian :=
  let y2 := p.y * p.y
  let s := 4 * (p.x * y2)
  let m := 3 * (p.x * p.x)
  let x := m * m - (s + s)
  ⟨x, m * (s - x) - 8 * (y2 * y2), 2 * (p.y * p.z)⟩

/-- The sum of two points, by the chord, or by the tangent where they agree. -/
def add (p q : Jacobian) : Jacobian :=
  if p.z = 0 then q
  else if q.z = 0 then p
  else
    let pz2 := p.z * p.z
    let qz2 := q.z * q.z
    let u := p.x * qz2
    let s := p.y * (qz2 * q.z)
    let h := q.x * pz2 - u
    let r := q.y * (pz2 * p.z) - s
    if h = 0 then
      if r = 0 then p.double else infinity
    else
      let h2 := h * h
      let h3 := h2 * h
      let v := u * h2
      let x := r * r - h3 - (v + v)
      ⟨x, r * (v - x) - s * h3, h * (p.z * q.z)⟩

def multiple (p : Jacobian) (factor : Nat) : Jacobian :=
  if factor = 0 then infinity
  else
    let even := (p.multiple (factor / 2)).double
    if factor % 2 = 1 then even.add p else even

end Jacobian

namespace Point

def toJacobian : Point → Jacobian
  | infinity => .infinity
  | affine point => .ofAffine point

def add (p q : Point) : Point :=
  (p.toJacobian.add q.toJacobian).toPoint

def multiple (p : Point) (factor : Nat) : Point :=
  (p.toJacobian.multiple factor).toPoint

end Point

def Point.toAffine? : Point → Option AffinePoint
  | .infinity => none
  | .affine point => some point

def generatorMultiple (factor : Nat) : Point :=
  (Point.affine generator).multiple factor

end Keyring.Curve
