import Keyring.Digest.Basic

/-!
The block cipher Blowfish with its costly key schedule.

A block of 64 bits passes sixteen rounds, each of which mixes one half into the
other through four tables. The round keys and the tables start as the digits of
π; the schedule mixes the key into the round keys and then replaces all of them
by running the cipher over its own output.
-/

namespace Keyring.Blowfish

def keyCount : Nat := 18

def tableSize : Nat := 4 * 256

/-- The alternating sum of `power / index`, `power / (k² (index + 2))`, and so on,
which ends when the terms vanish. -/
def arctanSum (k : Nat) (power index : Nat) : Int :=
  if power = 0 ∨ k < 2 then 0
  else (power / index : Nat) - arctanSum k (power / (k * k)) (index + 2)
termination_by power
decreasing_by
  have : 1 < k * k := Nat.one_lt_mul_iff.2 (by omega)
  exact Nat.div_lt_self (by omega) this

/-- The fractional part of π in `bits` bits, by Machin's formula with
sixty-four more bits for the rounding of the terms. -/
def piFraction (bits : Nat) : Nat :=
  let scale := 1 <<< (bits + 64)
  let pi := 16 * arctanSum 5 (scale / 5) 1 - 4 * arctanSum 239 (scale / 239) 1
  (pi - 3 * scale).toNat >>> 64

def initialWords : List UInt32 :=
  let count := keyCount + tableSize
  wordsOfBytes32 (Bytes.ofNat (4 * count) (piFraction (32 * count)))

structure State where
  keys : Array UInt32
  tables : Array UInt32

def State.initial : State where
  keys := (initialWords.take keyCount).toArray
  tables := (initialWords.drop keyCount).toArray

/-- The mixing function: each byte of a half selects a word from its table. -/
@[inline] def mix (tables : Array UInt32) (half : UInt32) : UInt32 :=
  ((tables.getD (half >>> 24).toNat 0 +
      tables.getD (256 + ((half >>> 16) &&& 0xff).toNat) 0) ^^^
    tables.getD (512 + ((half >>> 8) &&& 0xff).toNat) 0) +
    tables.getD (768 + (half &&& 0xff).toNat) 0

/-- Rounds from the one with the given number on, two at a time. -/
def rounds (keys tables : Array UInt32) : (pairs round : Nat) → (left right : UInt32) → UInt64
  | 0, round, left, right =>
    let left := left ^^^ keys.getD round 0
    let right := right ^^^ keys.getD (round + 1) 0
    right.toUInt64 <<< 32 ||| left.toUInt64
  | pairs + 1, round, left, right =>
    let left := left ^^^ keys.getD round 0
    let right := right ^^^ mix tables left ^^^ keys.getD (round + 1) 0
    let left := left ^^^ mix tables right
    rounds keys tables pairs (round + 2) left right

/-- Enciphers one block, the left half of which is the upper one. -/
def encipher (keys tables : Array UInt32) (block : UInt64) : UInt64 :=
  rounds keys tables 8 0 (block >>> 32).toUInt32 block.toUInt32

/-- Replaces pairs of round keys by the cipher of the block before, into which
the two halves of the salt enter by turns. -/
def refillKeys (tables : Array UInt32) : (pairs place : Nat) → (keys : Array UInt32) →
    (block salt other : UInt64) → Array UInt32 × UInt64
  | 0, _, keys, block, _, _ => (keys, block)
  | pairs + 1, place, keys, block, salt, other =>
    let block := encipher keys tables (block ^^^ salt)
    let keys := keys.setIfInBounds place (block >>> 32).toUInt32
    let keys := keys.setIfInBounds (place + 1) block.toUInt32
    refillKeys tables pairs (place + 2) keys block other salt

/-- Replaces pairs of words in the tables in the same way. -/
def refillTables (keys : Array UInt32) : (pairs place : Nat) → (tables : Array UInt32) →
    (block salt other : UInt64) → Array UInt32
  | 0, _, tables, _, _, _ => tables
  | pairs + 1, place, tables, block, salt, other =>
    let block := encipher keys tables (block ^^^ salt)
    let tables := tables.setIfInBounds place (block >>> 32).toUInt32
    let tables := tables.setIfInBounds (place + 1) block.toUInt32
    refillTables keys pairs (place + 2) tables block other salt

/-- Mixes a key of as many words as there are round keys, and the two halves of
a salt, into a state. -/
def State.expand (state : State) (key : Array UInt32) (salt other : UInt64) : State :=
  let keys := state.keys.zipWith (· ^^^ ·) key
  let (keys, block) := refillKeys state.tables (keyCount / 2) 0 keys 0 salt other
  ⟨keys, refillTables keys (tableSize / 2) 0 state.tables block other salt⟩

def State.expandMany : (rounds : Nat) → (state : State) → (first second : Array UInt32) → State
  | 0, state, _, _ => state
  | rounds + 1, state, first, second =>
    State.expandMany rounds ((state.expand first 0 0).expand second 0 0) first second

def State.encipherMany (state : State) : (times : Nat) → UInt64 → UInt64
  | 0, block => block
  | times + 1, block => state.encipherMany times (encipher state.keys state.tables block)

end Keyring.Blowfish
