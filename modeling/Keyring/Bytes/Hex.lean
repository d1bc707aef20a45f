import Keyring.Bytes.Basic

/-!
The hexadecimal form of byte strings: two digits a byte, written in lower case
and read in either.
-/

namespace Keyring.Hex

def digit (value : UInt8) : Char :=
  if value < 10 then Char.ofNat (0x30 + value.toNat) else Char.ofNat (0x57 + value.toNat)

def value? (c : Char) : Option UInt8 :=
  if '0' ≤ c ∧ c ≤ '9' then some (UInt8.ofNat (c.toNat - 0x30))
  else if 'a' ≤ c ∧ c ≤ 'f' then some (UInt8.ofNat (c.toNat - 0x57))
  else if 'A' ≤ c ∧ c ≤ 'F' then some (UInt8.ofNat (c.toNat - 0x37))
  else none

/-- Writes the high digit of each byte before its low one. -/
def encode (bytes : Bytes) : List Char :=
  bytes.flatMap fun b : UInt8 => [digit (b >>> 4), digit (b &&& 0x0f)]

/-- Refuses other characters and an odd number of digits. -/
def decode? : List Char → Option Bytes
  | [] => some []
  | [_] => none
  | high :: low :: rest => do
    let h ← value? high
    let l ← value? low
    let bytes ← decode? rest
    return (h <<< 4 ||| l) :: bytes

end Keyring.Hex
