import Keyring.Bytes.Basic

/-!
The base 64 form of byte strings. Each three bytes are written as four
characters of six bits, and `=` fills up the last group.

Reading is strict: the padding has to be there, and the bits of the last
character that belong to no byte have to be zero. So each byte string has
exactly one form.
-/

namespace Keyring.Base64

def alphabet : List Char :=
  "ABCDEFGHIJKLMNOPQRSTUVWXYZabcdefghijklmnopqrstuvwxyz0123456789+/".toList

def symbol (value : UInt8) : Char :=
  alphabet.getD (value &&& 0x3f).toNat 'A'

def value? (c : Char) : Option UInt8 :=
  (alphabet.idxOf? c).map UInt8.ofNat

def encode : Bytes → List Char
  | [] => []
  | [a] => [symbol (a >>> 2), symbol (a <<< 4), '=', '=']
  | [a, b] => [symbol (a >>> 2), symbol (a <<< 4 ||| b >>> 4), symbol (b <<< 2), '=']
  | a :: b :: c :: rest =>
    symbol (a >>> 2) :: symbol (a <<< 4 ||| b >>> 4) :: symbol (b <<< 2 ||| c >>> 6) ::
      symbol c :: encode rest

/-- Refuses characters outside the alphabet, an open last group, and a last
character whose spare bits are not zero. -/
def decode? : List Char → Option Bytes
  | [] => some []
  | [p, q, '=', '='] => do
    let x ← value? p
    let y ← value? q
    if y &&& 0x0f = 0 then some [x <<< 2 ||| y >>> 4] else none
  | [p, q, r, '='] => do
    let x ← value? p
    let y ← value? q
    let z ← value? r
    if z &&& 0x03 = 0 then some [x <<< 2 ||| y >>> 4, y <<< 4 ||| z >>> 2] else none
  | p :: q :: r :: s :: rest => do
    let x ← value? p
    let y ← value? q
    let z ← value? r
    let w ← value? s
    let bytes ← decode? rest
    return (x <<< 2 ||| y >>> 4) :: (y <<< 4 ||| z >>> 2) :: (z <<< 6 ||| w) :: bytes
  | _ => none

end Keyring.Base64
