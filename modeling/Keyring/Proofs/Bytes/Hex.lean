import Keyring.Bytes.Hex
import Mathlib.Data.Nat.Notation

/-!
The hexadecimal form is made of lower case digits and is read back.
-/

namespace Keyring.Hex

/-- What the two digits of a byte are read as. -/
theorem value?_digit (b : UInt8) :
    value? (digit (b >>> 4)) = some (b >>> 4) ∧
      value? (digit (b &&& 0x0f)) = some (b &&& 0x0f) ∧
      (b >>> 4) <<< 4 ||| (b &&& 0x0f) = b := by
  have h : ∀ n : Fin 256, value? (digit (UInt8.ofFin n >>> 4)) = some (UInt8.ofFin n >>> 4) ∧
      value? (digit (UInt8.ofFin n &&& 0x0f)) = some (UInt8.ofFin n &&& 0x0f) ∧
        (UInt8.ofFin n >>> 4) <<< 4 ||| (UInt8.ofFin n &&& 0x0f) = UInt8.ofFin n := by
    decide +kernel
  exact h b.toFin

theorem decode?_encode (bytes : Bytes) : decode? (encode bytes) = some bytes := by
  induction bytes with
  | nil => rfl
  | cons b rest ih =>
      obtain ⟨hhigh, hlow, hjoin⟩ := value?_digit b
      rw [encode] at ih ⊢
      simp only [List.flatMap_cons, List.cons_append, List.nil_append, decode?, hhigh, hlow,
        ih, hjoin, Option.bind_eq_bind, Option.bind_some, Option.pure_def]

theorem mem_encode {c : Char} {bytes : Bytes} (h : c ∈ encode bytes) :
    c ∈ "0123456789abcdef".toList := by
  have hdigit : ∀ n : Fin 256, digit (UInt8.ofFin n >>> 4) ∈ "0123456789abcdef".toList ∧
      digit (UInt8.ofFin n &&& 0x0f) ∈ "0123456789abcdef".toList := by
    decide +kernel
  rw [encode, List.mem_flatMap] at h
  obtain ⟨b, -, hc⟩ := h
  rw [List.mem_cons, List.mem_singleton] at hc
  rcases hc with rfl | rfl
  · exact (hdigit b.toFin).1
  · exact (hdigit b.toFin).2

end Keyring.Hex
