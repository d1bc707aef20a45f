import Keyring.Digest.Basic

/-!
Keyed digests, and the stretching of a passphrase by many of them.
-/

namespace Keyring.HashFunction

variable {n : Nat}

/-- A key as one block of the digest function: a long key is replaced by its
digest, and zeros follow. -/
def keyBlock (hash : HashFunction n) (key : Bytes) : Bytes :=
  let short := if hash.blockLength < key.length then (hash.digest key).bytes else key
  short ++ List.replicate (hash.blockLength - short.length) 0

/-- The digest of a message under a key that fills one block, by two nested
digests that start with the key in two disguises. -/
def keyedByBlock (hash : HashFunction n) (block message : Bytes) : Block n :=
  let inner := hash.digest (block.map (· ^^^ 0x36) ++ message)
  hash.digest (block.map (· ^^^ 0x5c) ++ inner.bytes)

/-- The digest of a message under a key of any length (HMAC). -/
def keyed (hash : HashFunction n) (key message : Bytes) : Block n :=
  hash.keyedByBlock (hash.keyBlock key) message

/-- The exclusive or of a sum and further keyed digests, each made from the one
before. -/
def iterateKeyed (hash : HashFunction n) (block : Bytes) :
    (rounds : Nat) → (last sum : Block n) → Block n
  | 0, _, sum => sum
  | rounds + 1, last, sum =>
    let next := hash.keyedByBlock block last.bytes
    hash.iterateKeyed block rounds next (sum.xor next)

/-- The first block of key material that many rounds of keyed digests draw from
a passphrase and a salt (PBKDF2). -/
def stretch (hash : HashFunction n) (passphrase salt : Bytes) (rounds : Nat) : Block n :=
  let block := hash.keyBlock passphrase
  let first := hash.keyedByBlock block (salt ++ Bytes.ofNat 4 1)
  hash.iterateKeyed block (rounds - 1) first first

end Keyring.HashFunction
