import Keyring.Digest.Keyed
import Keyring.Digest.Sha256

/-!
Nonces that depend on nothing but the key and the digest: a generator of random
bits made of keyed digests, seeded with both (RFC 6979).
-/

namespace Keyring

structure NonceSource where
  key : Block 32
  value : Block 32

namespace NonceSource

def mac (key : Block 32) (message : Bytes) : Block 32 :=
  Sha256.function.keyed key.bytes message

/-- Replaces the key and then the value, under a separating byte and optional
further input. -/
def renew (source : NonceSource) (separator : UInt8) (input : Bytes) : NonceSource :=
  let key := mac source.key (source.value.bytes ++ separator :: input)
  ⟨key, mac key source.value.bytes⟩

def seeded (secret : Block 32) (digest : Digest) : NonceSource :=
  let seed := secret.bytes ++ digest.bytes
  let start : NonceSource := ⟨Block.zero 32, ⟨List.replicate 32 1, by simp⟩⟩
  (start.renew 0 seed).renew 1 seed

/-- The next block and the state that holds it. -/
def next (source : NonceSource) : NonceSource :=
  ⟨source.key, mac source.key source.value.bytes⟩

/-- The state from which another block is drawn after one that could not be
used. -/
def retry (source : NonceSource) : NonceSource :=
  source.renew 0 []

end NonceSource

end Keyring
