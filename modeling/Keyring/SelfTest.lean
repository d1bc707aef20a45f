import Keyring.Amino
import Keyring.Signature.Sign

/-!
Known-answer checks of the cryptographic functions, and a check that the source
of randomness does not repeat itself.
-/

namespace Keyring.SelfTest

open Curve

def keyBytes : Bytes := Bytes.ofNat 32 1

def generatorBytes : Bytes :=
  Bytes.ofNat 33 0x0279be667ef9dcbbac55a06295ce870b07029bfcdb2dce28d959f2815b16f81798

def publicKeyTag : Bytes := [0xeb, 0x5a, 0xe9, 0x87]

def digest : Digest := ⟨List.replicate 32 0x5a, by simp⟩

/-- Runs the checks, and compares two draws from the source of randomness. -/
def run (first second : Block 32) : Except KeyError Unit :=
  match PrivateKey.ofBytes keyBytes with
  | .error _ => .error (.selfTestFailed .scalarParsing)
  | .ok key =>
    if key.publicPoint.compress.bytes ≠ generatorBytes then
      .error (.selfTestFailed .generatorMultiplication)
    else if (Amino.typeTag Amino.publicKeyType).toOption.map Block.bytes ≠
      some publicKeyTag then
      .error (.selfTestFailed .typeTag)
    else
      match key.signRecoverable digest with
      | .error _ => .error (.selfTestFailed .signatureRecovery)
      | .ok recoverable =>
        if recoverable.signature.verifies key.publicPoint digest then
          if first = second then .error (.selfTestFailed .randomSource) else .ok ()
        else .error (.selfTestFailed .signatureVerification)

end Keyring.SelfTest
