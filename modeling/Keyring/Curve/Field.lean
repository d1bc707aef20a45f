/-!
The prime field of the coordinates of secp256k1.
-/

namespace Keyring.Curve

def fieldSize : Nat := 0xfffffffffffffffffffffffffffffffffffffffffffffffffffffffefffffc2f

instance : @NeZero Nat Zero.ofOfNat0 fieldSize := ⟨by decide⟩

abbrev FieldElement := Fin fieldSize

namespace FieldElement

def power (x : FieldElement) (n : Nat) : FieldElement :=
  if n = 0 then 1
  else
    let rest := power (x * x) (n / 2)
    if n % 2 = 1 then x * rest else rest

/-- The multiplicative inverse, as the power that Fermat's little theorem names;
zero for zero. -/
def inverse (x : FieldElement) : FieldElement :=
  x.power (fieldSize - 2)

/-- The root of a square. It is a power since the size of the field is three
modulo four; for other elements its square is not the element. -/
def root (x : FieldElement) : FieldElement :=
  x.power ((fieldSize + 1) / 4)

/-- Whether the number that represents the element is odd. Of an element and its
negative, unless both are zero, exactly one is odd. -/
def isOdd (x : FieldElement) : Bool :=
  x.val % 2 = 1

end FieldElement

end Keyring.Curve
