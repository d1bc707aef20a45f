import Keyring.Bytes.Basic

/-!
What the digest functions share: the completion of a message to whole blocks,
and reading and writing words.
-/

namespace Keyring

/-- A digest function of `n` bytes that works in blocks of a fixed length. -/
structure HashFunction (n : Nat) where
  blockLength : Nat
  digest : Bytes → Block n

namespace HashFunction

/-- The bytes that complete a message of the given length to whole blocks: a
one bit, as few zero bits as possible, and the field that holds the length. -/
def completion (blockLength messageLength : Nat) (lengthField : Bytes) : Bytes :=
  let used := messageLength + 1 + lengthField.length
  0x80 :: List.replicate ((blockLength - used % blockLength) % blockLength) 0 ++ lengthField

end HashFunction

/-- Words of four bytes, the most significant byte first. -/
def wordsOfBytes32 : Bytes → List UInt32
  | a :: b :: c :: d :: rest =>
    (a.toUInt32 <<< 24 ||| b.toUInt32 <<< 16 ||| c.toUInt32 <<< 8 ||| d.toUInt32) ::
      wordsOfBytes32 rest
  | _ => []

def bytesOfWord32 (word : UInt32) : Bytes :=
  [(word >>> 24).toUInt8, (word >>> 16).toUInt8, (word >>> 8).toUInt8, word.toUInt8]

/-- Words of four bytes, the least significant byte first. -/
def wordsOfBytes32LE : Bytes → List UInt32
  | a :: b :: c :: d :: rest =>
    (a.toUInt32 ||| b.toUInt32 <<< 8 ||| c.toUInt32 <<< 16 ||| d.toUInt32 <<< 24) ::
      wordsOfBytes32LE rest
  | _ => []

def bytesOfWord32LE (word : UInt32) : Bytes :=
  [word.toUInt8, (word >>> 8).toUInt8, (word >>> 16).toUInt8, (word >>> 24).toUInt8]

/-- Words of eight bytes, the most significant byte first. -/
def wordsOfBytes64 : Bytes → List UInt64
  | a :: b :: c :: d :: e :: f :: g :: h :: rest =>
    (a.toUInt64 <<< 56 ||| b.toUInt64 <<< 48 ||| c.toUInt64 <<< 40 ||| d.toUInt64 <<< 32 |||
      e.toUInt64 <<< 24 ||| f.toUInt64 <<< 16 ||| g.toUInt64 <<< 8 ||| h.toUInt64) ::
      wordsOfBytes64 rest
  | _ => []

def bytesOfWord64 (word : UInt64) : Bytes :=
  [(word >>> 56).toUInt8, (word >>> 48).toUInt8, (word >>> 40).toUInt8, (word >>> 32).toUInt8,
    (word >>> 24).toUInt8, (word >>> 16).toUInt8, (word >>> 8).toUInt8, word.toUInt8]

@[simp] theorem length_bytesOfWord32 (word : UInt32) : (bytesOfWord32 word).length = 4 := rfl

@[simp] theorem length_bytesOfWord32LE (word : UInt32) :
    (bytesOfWord32LE word).length = 4 := rfl

@[simp] theorem length_bytesOfWord64 (word : UInt64) : (bytesOfWord64 word).length = 8 := rfl

def rotateLeft32 (word : UInt32) (count : UInt32) : UInt32 :=
  word <<< count ||| word >>> (32 - count)

def rotateRight32 (word : UInt32) (count : UInt32) : UInt32 :=
  word >>> count ||| word <<< (32 - count)

def rotateRight64 (word : UInt64) (count : UInt64) : UInt64 :=
  word >>> count ||| word <<< (64 - count)

end Keyring
