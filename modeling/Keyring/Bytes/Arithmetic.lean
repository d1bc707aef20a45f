import Keyring.Bytes.Basic

/-!
Order, addition and subtraction of numbers of a fixed length that are kept as
big-endian bytes, digit by digit as on paper.
-/

namespace Keyring

namespace Bytes

/-- Whether the first of two byte strings comes first in a dictionary. For equal
lengths that is the order of the numbers. -/
def less : Bytes → Bytes → Bool
  | _, [] => false
  | [], _ :: _ => true
  | a :: as, b :: bs => a < b || (a = b && less as bs)

/-- The sum of two equally long byte strings in the same length, and the carry
out of its left end. -/
def addCarry : Bytes → Bytes → Bytes × UInt16
  | a :: as, b :: bs =>
    let (rest, carry) := addCarry as bs
    let sum := a.toUInt16 + b.toUInt16 + carry
    (sum.toUInt8 :: rest, sum >>> 8)
  | _, _ => ([], 0)

/-- The difference of two equally long byte strings in the same length, and the
borrow out of its left end. -/
def subtractBorrow : Bytes → Bytes → Bytes × Int16
  | a :: as, b :: bs =>
    let (rest, borrow) := subtractBorrow as bs
    let difference := a.toUInt16.toInt16 - b.toUInt16.toInt16 - borrow
    if difference < 0 then ((difference + 256).toUInt16.toUInt8 :: rest, 1)
    else (difference.toUInt16.toUInt8 :: rest, 0)
  | _, _ => ([], 0)

theorem length_addCarry (as bs : Bytes) (h : as.length = bs.length) :
    (addCarry as bs).1.length = as.length := by
  induction as generalizing bs with
  | nil => simp [addCarry]
  | cons a as ih =>
    cases bs with
    | nil => simp at h
    | cons b bs =>
      have := ih bs (by simpa using h)
      simp [addCarry, this]

theorem length_subtractBorrow (as bs : Bytes) (h : as.length = bs.length) :
    (subtractBorrow as bs).1.length = as.length := by
  induction as generalizing bs with
  | nil => simp [subtractBorrow]
  | cons a as ih =>
    cases bs with
    | nil => simp at h
    | cons b bs =>
      have := ih bs (by simpa using h)
      simp only [subtractBorrow]
      split <;> simp [this]

end Bytes

namespace Block

variable {n : Nat}

def less (a b : Block n) : Bool :=
  a.bytes.less b.bytes

def add? (a b : Block n) : Option (Block n) :=
  if (a.bytes.addCarry b.bytes).2 = 0 then
    some ⟨(a.bytes.addCarry b.bytes).1, by
      rw [Bytes.length_addCarry _ _ (by simp), a.length_bytes]⟩
  else none

/-- The difference of two numbers, of which the first is not the smaller one. -/
def subtract (a b : Block n) : Block n :=
  ⟨(a.bytes.subtractBorrow b.bytes).1, by
    rw [Bytes.length_subtractBorrow _ _ (by simp), a.length_bytes]⟩

end Block

end Keyring
