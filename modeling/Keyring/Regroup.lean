import Keyring.Bytes.Basic
import Keyring.Error

/-!
Regrouping of bits: a sequence of values of one width becomes a sequence of
values of another width that spells the same bits.

The values pass through a window of bits that are read but not yet written.
The window is cut to one bit less than both widths together, which is all that
can be pending.
-/

namespace Keyring

structure GroupWidth where
  bits : Nat
  bits_pos : 0 < bits
  bits_le : bits ≤ 8
  deriving DecidableEq

namespace GroupWidth

def byte : GroupWidth := ⟨8, by decide, by decide⟩

def quintet : GroupWidth := ⟨5, by decide, by decide⟩

def ofNat? (bits : Nat) : Option GroupWidth :=
  if h : 0 < bits ∧ bits ≤ 8 then some ⟨bits, h.1, h.2⟩ else none

end GroupWidth

/-- What becomes of a last group that is not full. -/
inductive Leftover where
  /-- It is filled up with zeros. -/
  | fill
  /-- It must be shorter than an input group and hold zeros, and is dropped. -/
  | drop
  deriving DecidableEq, Repr

namespace Regroup

def lowMask (bits : Nat) : UInt32 :=
  (1 <<< UInt32.ofNat bits) - 1

/-- The bits that are read but not yet written: the low `count` bits of
`window`. -/
structure Pending where
  window : UInt32
  count : Nat

/-- Takes the bits of one more value into the window. -/
def Pending.push (source target : GroupWidth) (pending : Pending) (value : UInt8) :
    Pending where
  window := (pending.window <<< UInt32.ofNat source.bits ||| value.toUInt32) &&&
    lowMask (source.bits + target.bits - 1)
  count := pending.count + source.bits

/-- Writes full groups from the upper end of the pending bits as long as there
are any, and returns how many bits are left. -/
def emit (target : GroupWidth) (window : UInt32) (count : Nat) : Bytes × Nat :=
  if target.bits ≤ count then
    let rest := count - target.bits
    let group := (window >>> UInt32.ofNat rest) &&& lowMask target.bits
    let (groups, left) := emit target window rest
    (group.toUInt8 :: groups, left)
  else
    ([], count)
termination_by count
decreasing_by
  have := target.bits_pos
  omega

def Pending.filled (target : GroupWidth) (pending : Pending) : UInt8 :=
  ((pending.window <<< UInt32.ofNat (target.bits - pending.count)) &&&
    lowMask target.bits).toUInt8

def finish (source target : GroupWidth) (leftover : Leftover) (pending : Pending) :
    Except KeyError Bytes :=
  match leftover with
  | .fill => .ok (if 0 < pending.count then [pending.filled target] else [])
  | .drop =>
    if source.bits ≤ pending.count ∨ pending.filled target ≠ 0 then .error .badPadding
    else .ok []

/-- Reads the values from the left, writing groups as they fill up. -/
def run (source target : GroupWidth) (leftover : Leftover) (pending : Pending) :
    Bytes → Except KeyError Bytes
  | [] => finish source target leftover pending
  | value :: rest =>
    if value.toUInt32 >>> UInt32.ofNat source.bits ≠ 0 then .error .badPadding
    else do
      let next := pending.push source target value
      let (groups, left) := emit target next.window next.count
      return groups ++ (← run source target leftover ⟨next.window, left⟩ rest)

end Regroup

/-- Spells the bits of values of one width by values of another width. A value
that is wider than its width is refused. -/
def regroup (source target : GroupWidth) (leftover : Leftover) (values : Bytes) :
    Except KeyError Bytes :=
  Regroup.run source target leftover ⟨0, 0⟩ values

end Keyring
