import Keyring.Proofs.Bytes.Chunks
import Keyring.Text.Base64
import Mathlib.Tactic.IntervalCases

/-!
The base 64 form is read back, and cutting it into lines cuts the bytes into
groups of three.
-/

namespace Keyring.Base64

theorem value?_symbol (v : UInt8) : value? (symbol v) = some (v &&& 0x3f) := by
  have h : ∀ n : Fin 256, value? (symbol (UInt8.ofFin n)) = some (UInt8.ofFin n &&& 0x3f) := by
    decide +kernel
  exact h v.toFin

theorem symbol_mem (v : UInt8) : symbol v ∈ alphabet := by
  have h : ∀ n : Fin 256, symbol (UInt8.ofFin n) ∈ alphabet := by decide +kernel
  exact h v.toFin

theorem ne_equals_of_mem {c : Char} (h : c ∈ alphabet) : c ≠ '=' := by
  rintro rfl
  exact absurd h (by decide)

/-! ### The bytes of a group -/

theorem eq_of_bits {x y : UInt8}
    (h : ∀ i < 8, x.toBitVec.getLsbD i = y.toBitVec.getLsbD i) : x = y := by
  apply UInt8.eq_of_toBitVec_eq
  apply BitVec.eq_of_getLsbD_eq
  exact h

theorem join_first (a b : UInt8) :
    ((a >>> 2) &&& 0x3f) <<< 2 ||| ((a <<< 4 ||| b >>> 4) &&& 0x3f) >>> 4 = a := by
  apply eq_of_bits
  intro i hi
  interval_cases i <;> simp

theorem join_second (a b c : UInt8) :
    ((a <<< 4 ||| b >>> 4) &&& 0x3f) <<< 4 ||| ((b <<< 2 ||| c >>> 6) &&& 0x3f) >>> 2 = b := by
  apply eq_of_bits
  intro i hi
  interval_cases i <;> simp

theorem join_third (b c : UInt8) :
    ((b <<< 2 ||| c >>> 6) &&& 0x3f) <<< 6 ||| (c &&& 0x3f) = c := by
  apply eq_of_bits
  intro i hi
  interval_cases i <;> simp

theorem spare_bits_one (a : UInt8) : ((a <<< 4) &&& 0x3f) &&& 0x0f = 0 := by
  apply eq_of_bits
  intro i hi
  interval_cases i <;> simp

theorem spare_bits_two (b : UInt8) : ((b <<< 2) &&& 0x3f) &&& 0x03 = 0 := by
  apply eq_of_bits
  intro i hi
  interval_cases i <;> simp

/-! ### Reading back -/

theorem decode?_group {p q r s : Char} (h : s ≠ '=') (rest : List Char) :
    decode? (p :: q :: r :: s :: rest) = (value? p).bind fun x => (value? q).bind fun y =>
      (value? r).bind fun z => (value? s).bind fun w => (decode? rest).bind fun bytes =>
        some ((x <<< 2 ||| y >>> 4) :: (y <<< 4 ||| z >>> 2) :: (z <<< 6 ||| w) :: bytes) := by
  rw [decode?]
  · rfl
  · rintro - rfl
    exact absurd rfl h
  · rintro rfl
    exact absurd rfl h

theorem decode?_last_two {p q r : Char} (h : r ≠ '=') :
    decode? [p, q, r, '='] = (value? p).bind fun x => (value? q).bind fun y =>
      (value? r).bind fun z =>
        if z &&& 0x03 = 0 then some [x <<< 2 ||| y >>> 4, y <<< 4 ||| z >>> 2] else none := by
  rw [decode?]
  · rfl
  · rintro rfl
    exact absurd rfl h

theorem decode?_encode (bytes : Bytes) : decode? (encode bytes) = some bytes := by
  fun_induction encode bytes with
  | case1 => rfl
  | case2 a =>
      have hfirst := join_first a 0
      rw [UInt8.zero_shiftRight, UInt8.or_zero] at hfirst
      simp only [decode?, value?_symbol, Option.bind_eq_bind, Option.bind_some, spare_bits_one,
        if_true, hfirst]
  | case3 a b =>
      have hsecond := join_second a b 0
      rw [UInt8.zero_shiftRight, UInt8.or_zero] at hsecond
      rw [decode?_last_two (ne_equals_of_mem (symbol_mem _))]
      simp only [value?_symbol, Option.bind_some, spare_bits_two, if_true, join_first, hsecond]
  | case4 a b c rest ih =>
      rw [decode?_group (ne_equals_of_mem (symbol_mem c))]
      simp only [value?_symbol, ih, Option.bind_some, join_first, join_second, join_third]

/-! ### Lines -/

theorem encode_append {front : Bytes} (h : front.length % 3 = 0) (rest : Bytes) :
    encode (front ++ rest) = encode front ++ encode rest := by
  fun_induction encode front with
  | case1 => rfl
  | case2 a => simp at h
  | case3 a b => simp at h
  | case4 a b c front ih =>
      have hfront : front.length % 3 = 0 := by
        simp only [List.length_cons] at h
        omega
      rw [List.cons_append, List.cons_append, List.cons_append, encode, ih hfront]
      rfl

theorem length_encode (bytes : Bytes) :
    (encode bytes).length = 4 * ((bytes.length + 2) / 3) := by
  fun_induction encode bytes with
  | case1 => rfl
  | case2 a => simp
  | case3 a b => simp
  | case4 a b c rest ih =>
      simp only [List.length_cons, ih]
      omega

theorem mem_encode {c : Char} {bytes : Bytes} (h : c ∈ encode bytes) :
    c ∈ alphabet ∨ c = '=' := by
  fun_induction encode bytes with
  | case1 => cases h
  | case2 a =>
      simp only [List.mem_cons, List.not_mem_nil, or_false] at h
      rcases h with rfl | rfl | rfl | rfl
      · exact .inl (symbol_mem _)
      · exact .inl (symbol_mem _)
      · exact .inr rfl
      · exact .inr rfl
  | case3 a b =>
      simp only [List.mem_cons, List.not_mem_nil, or_false] at h
      rcases h with rfl | rfl | rfl | rfl
      · exact .inl (symbol_mem _)
      · exact .inl (symbol_mem _)
      · exact .inl (symbol_mem _)
      · exact .inr rfl
  | case4 a b c rest ih =>
      simp only [List.mem_cons] at h
      rcases h with rfl | rfl | rfl | rfl | h
      · exact .inl (symbol_mem _)
      · exact .inl (symbol_mem _)
      · exact .inl (symbol_mem _)
      · exact .inl (symbol_mem _)
      · exact ih h

/-- The form of bytes that are not empty starts with a symbol. -/
theorem exists_encode_eq_cons {bytes : Bytes} (h : bytes ≠ []) :
    ∃ v rest, encode bytes = symbol v :: rest := by
  fun_induction encode bytes with
  | case1 => exact absurd rfl h
  | case2 a => exact ⟨_, _, rfl⟩
  | case3 a b => exact ⟨_, _, rfl⟩
  | case4 a b c rest => exact ⟨_, _, rfl⟩

/-- Whole groups of the form are the form of as many groups of the bytes. -/
theorem take_drop_encode (groups : ℕ) (bytes : Bytes) :
    (encode bytes).take (4 * groups) = encode (bytes.take (3 * groups)) ∧
      (encode bytes).drop (4 * groups) = encode (bytes.drop (3 * groups)) := by
  by_cases hlong : 3 * groups ≤ bytes.length
  · have hfront : (bytes.take (3 * groups)).length = 3 * groups := List.length_take_of_le hlong
    have hlength : (encode (bytes.take (3 * groups))).length = 4 * groups := by
      rw [length_encode, hfront]
      omega
    have hsplit := encode_append (show (bytes.take (3 * groups)).length % 3 = 0 by omega)
      (bytes.drop (3 * groups))
    rw [List.take_append_drop] at hsplit
    rw [hsplit]
    exact ⟨List.take_left' hlength, List.drop_left' hlength⟩
  -- Fewer bytes make up fewer groups, the last of which may be open.
  · have hlength : (encode bytes).length ≤ 4 * groups := by
      rw [length_encode]
      omega
    rw [List.take_of_length_le hlength, List.drop_of_length_le hlength,
      List.take_of_length_le (by omega), List.drop_of_length_le (by omega)]
    exact ⟨rfl, rfl⟩

/-- Lines of whole groups are the forms of the pieces of the bytes. -/
theorem chunks_encode {groups : ℕ} (hgroups : 0 < groups) (bytes : Bytes) :
    Bytes.chunks (4 * groups) (encode bytes) =
      (Bytes.chunks (3 * groups) bytes).map encode := by
  have hsize : 0 < 3 * groups := by omega
  induction bytes using Bytes.chunks_induction hsize with
  | nil => rw [encode, Bytes.chunks_nil, Bytes.chunks_nil, List.map_nil]
  | piece bytes h ih =>
      obtain ⟨v, tail, hencode⟩ := exists_encode_eq_cons h
      have hne : encode bytes ≠ [] := by
        rw [hencode]
        exact List.cons_ne_nil _ _
      obtain ⟨htake, hdrop⟩ := take_drop_encode groups bytes
      rw [Bytes.chunks_of_ne_nil (by omega) hne, Bytes.chunks_of_ne_nil hsize h, List.map_cons,
        htake, hdrop, ih]

end Keyring.Base64
