import Keyring.Bytes.Basic

/-!
The authenticator Poly1305: a message is read as the coefficients of a
polynomial, which is evaluated at a secret place modulo the prime `2¹³⁰ - 5`.
-/

namespace Keyring.Poly1305

def modulus : Nat := Nat.pow 2 130 - 5

def placeMask : Nat := 0x0ffffffc0ffffffc0ffffffc0fffffff

/-- The value of at most sixteen bytes with a one bit above them. -/
def coefficient (bytes : Bytes) : Nat :=
  Bytes.toNatLE (bytes ++ [1])

def evaluate (place : Nat) (message : Bytes) : Nat :=
  (Bytes.chunks 16 message).foldl
    (fun value piece => (value + coefficient piece) * place % modulus) 0

def tag (key : Block 32) (message : Bytes) : Block 16 :=
  let place := Bytes.toNatLE (key.left (m := 16) (n := 16)).bytes &&& placeMask
  let value := evaluate place message + Bytes.toNatLE (key.right (m := 16) (n := 16)).bytes
  ⟨Bytes.ofNatLE 16 value, by simp⟩

end Keyring.Poly1305
