import Keyring.Proofs.Regroup
import Keyring.Proofs.Text.Base64

/-!
The bits behind a base 64 form.

Each symbol stands for six bits. The symbols of a form spell the bits of its bytes,
and zeros behind them. Since reading is strict, a text that is read at all is the form
of the bytes to which it is read.
-/

namespace Keyring

def GroupWidth.sextet : GroupWidth := ⟨6, by decide, by decide⟩

namespace Base64

/-! ### Symbols and values -/

theorem value?_eq_none_iff {c : Char} : value? c = none ↔ c ∉ alphabet := by
  rw [value?, Option.map_eq_none_iff, List.idxOf?_eq_none_iff]

theorem mem_alphabet_of_value? {c : Char} {v : UInt8} (h : value? c = some v) :
    c ∈ alphabet := by
  by_contra hc
  rw [value?_eq_none_iff.mpr hc] at h
  cases h

theorem exists_value?_of_mem {c : Char} (h : c ∈ alphabet) : ∃ v, value? c = some v := by
  rw [← Option.ne_none_iff_exists', Ne, value?_eq_none_iff, not_not]
  exact h

theorem symbol_of_value? {c : Char} {v : UInt8} (h : value? c = some v) : symbol v = c := by
  have hall : alphabet.all (fun c => (value? c).map symbol = some c) = true := by
    decide +kernel
  have hc := List.all_eq_true.mp hall c (mem_alphabet_of_value? h)
  rwa [h, Option.map_some, decide_eq_true_eq, Option.some.injEq] at hc

theorem value?_lt {c : Char} {v : UInt8} (h : value? c = some v) : v.toNat < 2 ^ 6 := by
  have hall : alphabet.all (fun c => (value? c).all fun v => v.toNat < 2 ^ 6) = true := by
    decide +kernel
  have hc := List.all_eq_true.mp hall c (mem_alphabet_of_value? h)
  rwa [h, Option.all_some, decide_eq_true_eq] at hc

theorem value?_mask {c : Char} {v : UInt8} (h : value? c = some v) : v &&& 0x3f = v := by
  rw [← UInt8.toNat_inj, UInt8.toNat_and]
  change v.toNat &&& (2 ^ 6 - 1) = _
  rw [Nat.and_two_pow_sub_one_eq_mod, Nat.mod_eq_of_lt (value?_lt h)]

theorem symbol_mask (v : UInt8) : symbol (v &&& 0x3f) = symbol v := by
  rw [symbol, symbol, UInt8.and_assoc, UInt8.and_self]

/-- Only the low six bits of a byte matter for its symbol. -/
theorem symbol_eq_of_mask {b v : UInt8} {c : Char} (h : value? c = some v)
    (hmask : b &&& 0x3f = v &&& 0x3f) : symbol b = c := by
  rw [← symbol_mask b, hmask, symbol_mask, symbol_of_value? h]

/-! ### The form of what was read -/

section Split

variable {x y z w : UInt8}

theorem split_first (hy : y &&& 0x3f = y) :
    (x <<< 2 ||| y >>> 4) >>> 2 &&& 0x3f = x &&& 0x3f := by
  rw [← hy]
  apply eq_of_bits
  intro i hi
  interval_cases i <;> simp

theorem split_second (hz : z &&& 0x3f = z) :
    ((x <<< 2 ||| y >>> 4) <<< 4 ||| (y <<< 4 ||| z >>> 2) >>> 4) &&& 0x3f = y &&& 0x3f := by
  rw [← hz]
  apply eq_of_bits
  intro i hi
  interval_cases i <;> simp

theorem split_third (hw : w &&& 0x3f = w) :
    ((y <<< 4 ||| z >>> 2) <<< 2 ||| (z <<< 6 ||| w) >>> 6) &&& 0x3f = z &&& 0x3f := by
  rw [← hw]
  apply eq_of_bits
  intro i hi
  interval_cases i <;> simp

theorem split_fourth : (z <<< 6 ||| w) &&& 0x3f = w &&& 0x3f := by
  apply eq_of_bits
  intro i hi
  interval_cases i <;> simp

/-- Where the spare bits of a value are zeros, only the bits in front of them count. -/
theorem mask_of_spare {v front spare : UInt8} (hmask : front ||| spare = 0x3f)
    (h : v &&& spare = 0) : v &&& 0x3f = v &&& front := by
  have hsplit : v &&& (front ||| spare) = (v &&& front) ||| (v &&& spare) := by
    rw [← UInt8.toBitVec_inj]
    exact BitVec.and_or_distrib_left
  rw [← hmask, hsplit, h, UInt8.or_zero]

theorem spare_one (h : y &&& 0x0f = 0) :
    (x <<< 2 ||| y >>> 4) <<< 4 &&& 0x3f = y &&& 0x3f := by
  have hfront : (0x30 : UInt8) ||| 0x0f = 0x3f := rfl
  rw [mask_of_spare hfront h]
  apply eq_of_bits
  intro i hi
  interval_cases i <;> simp

theorem spare_two (h : z &&& 0x03 = 0) :
    (y <<< 4 ||| z >>> 2) <<< 2 &&& 0x3f = z &&& 0x3f := by
  have hfront : (0x3c : UInt8) ||| 0x03 = 0x3f := rfl
  rw [mask_of_spare hfront h]
  apply eq_of_bits
  intro i hi
  interval_cases i <;> simp

end Split

/-- What can be read is the form of the bytes to which it is read. -/
theorem encode_of_decode? {text : List Char} {bytes : Bytes} (h : decode? text = some bytes) :
    encode bytes = text := by
  -- The last value of an open group is that of its symbol because its spare bits are zeros.
  fun_induction decode? text generalizing bytes with
  | case1 =>
      cases h
      rfl
  | case2 p q =>
      simp only [Option.bind_eq_bind, Option.bind_eq_some_iff] at h
      obtain ⟨x, hx, y, hy, h⟩ := h
      split at h
      · rename_i hspare
        cases h
        rw [encode, symbol_eq_of_mask hx (split_first (value?_mask hy)),
          symbol_eq_of_mask hy (spare_one hspare)]
      · cases h
  | case3 p q r hr =>
      simp only [Option.bind_eq_bind, Option.bind_eq_some_iff] at h
      obtain ⟨x, hx, y, hy, z, hz, h⟩ := h
      split at h
      · rename_i hspare
        cases h
        rw [encode, symbol_eq_of_mask hx (split_first (value?_mask hy)),
          symbol_eq_of_mask hy (split_second (value?_mask hz)),
          symbol_eq_of_mask hz (spare_two hspare)]
      · cases h
  | case4 p q r s rest hr hs ih =>
      simp only [Option.bind_eq_bind, Option.bind_eq_some_iff] at h
      obtain ⟨x, hx, y, hy, z, hz, w, hw, behind, hrest, h⟩ := h
      cases h
      rw [encode, symbol_eq_of_mask hx (split_first (value?_mask hy)),
        symbol_eq_of_mask hy (split_second (value?_mask hz)),
        symbol_eq_of_mask hz (split_third (value?_mask hw)), symbol_eq_of_mask hw split_fourth,
        ih hrest]
  | case5 => cases h

/-- Each byte string has one form, and nothing else is read. -/
theorem decode?_eq_some_iff {text : List Char} {bytes : Bytes} :
    decode? text = some bytes ↔ text = encode bytes := by
  constructor
  · intro h
    exact (encode_of_decode? h).symm
  · rintro rfl
    exact decode?_encode bytes

theorem encode_inj {bytes other : Bytes} : encode bytes = encode other ↔ bytes = other := by
  rw [← decode?_eq_some_iff, decode?_encode, Option.some.injEq]

/-! ### Bits -/

def values (text : List Char) : Bytes :=
  text.filterMap value?

theorem length_values (text : List Char) :
    (values text).length = text.countP fun c => c ∈ alphabet := by
  rw [values, List.length_filterMap_eq_countP]
  apply List.countP_congr
  intro c _
  rw [decide_eq_true_eq, ← Option.ne_none_iff_isSome, Ne, value?_eq_none_iff, not_not]

theorem values_append (front back : List Char) :
    values (front ++ back) = values front ++ values back :=
  List.filterMap_append

theorem fits_values (text : List Char) : GroupWidth.sextet.Fits (values text) := by
  intro v hv
  obtain ⟨c, -, hc⟩ := List.mem_filterMap.mp hv
  exact value?_lt hc

def spareBits (bytes : Bytes) : ℕ :=
  2 * ((3 - bytes.length % 3) % 3)

theorem values_cons_symbol (v : UInt8) (text : List Char) :
    values (symbol v :: text) = (v &&& 0x3f) :: values text :=
  List.filterMap_cons_some (value?_symbol v)

theorem bits_eight (v : UInt8) :
    Bits.ofNat 8 v.toNat = [7, 6, 5, 4, 3, 2, 1, 0].map v.toBitVec.getLsbD :=
  rfl

theorem bits_six (v : UInt8) :
    Bits.ofNat 6 v.toNat = [5, 4, 3, 2, 1, 0].map v.toBitVec.getLsbD :=
  rfl

theorem spell_group (a b c : UInt8) :
    GroupWidth.sextet.spell [a >>> 2 &&& 0x3f, (a <<< 4 ||| b >>> 4) &&& 0x3f,
      (b <<< 2 ||| c >>> 6) &&& 0x3f, c &&& 0x3f] = Bits.ofBytes [a, b, c] := by
  simp only [GroupWidth.spell, GroupWidth.sextet, Bits.ofBytes, List.flatMap_cons,
    List.flatMap_nil, bits_six, bits_eight]
  simp

theorem spell_last_two (a b : UInt8) :
    GroupWidth.sextet.spell [a >>> 2 &&& 0x3f, (a <<< 4 ||| b >>> 4) &&& 0x3f,
      b <<< 2 &&& 0x3f] =
      Bits.ofBytes [a, b] ++ List.replicate 2 false := by
  simp only [GroupWidth.spell, GroupWidth.sextet, Bits.ofBytes, List.flatMap_cons,
    List.flatMap_nil, bits_six, bits_eight]
  simp

theorem spell_last_one (a : UInt8) :
    GroupWidth.sextet.spell [a >>> 2 &&& 0x3f, a <<< 4 &&& 0x3f] =
      Bits.ofBytes [a] ++ List.replicate 4 false := by
  simp only [GroupWidth.spell, GroupWidth.sextet, Bits.ofBytes, List.flatMap_cons,
    List.flatMap_nil, bits_six, bits_eight]
  simp

/-- The symbols of a form spell the bits of the bytes, and zeros behind them. -/
theorem spell_values_encode (bytes : Bytes) :
    GroupWidth.sextet.spell (values (encode bytes)) =
      Bits.ofBytes bytes ++ List.replicate (spareBits bytes) false := by
  fun_induction encode bytes with
  | case1 => rfl
  | case2 a =>
      rw [values_cons_symbol, values_cons_symbol]
      exact spell_last_one a
  | case3 a b =>
      rw [values_cons_symbol, values_cons_symbol, values_cons_symbol]
      exact spell_last_two a b
  | case4 a b c rest ih =>
      have hspare : spareBits (a :: b :: c :: rest) = spareBits rest := by
        simp only [spareBits, List.length_cons]
        omega
      rw [values_cons_symbol, values_cons_symbol, values_cons_symbol,
        values_cons_symbol, hspare]
      calc GroupWidth.sextet.spell (_ :: _ :: _ :: _ :: values (encode rest))
          = Bits.ofBytes [a, b, c] ++ GroupWidth.sextet.spell (values (encode rest)) := by
            rw [← spell_group, ← GroupWidth.spell_append]
            rfl
        _ = Bits.ofBytes [a, b, c] ++
              (Bits.ofBytes rest ++ List.replicate (spareBits rest) false) := by rw [ih]
        _ = Bits.ofBytes (a :: b :: c :: rest) ++ List.replicate (spareBits rest) false := by
            rw [← List.append_assoc, Bits.ofBytes, Bits.ofBytes, ← List.flatMap_append]
            rfl

/-- Forms with equally many symbols are those of equally many bytes. -/
theorem length_eq_of_length_values {bytes other : Bytes}
    (h : (values (encode bytes)).length = (values (encode other)).length) :
    bytes.length = other.length := by
  have hbits := congrArg List.length (spell_values_encode bytes)
  have hother := congrArg List.length (spell_values_encode other)
  simp only [GroupWidth.length_spell, List.length_append, Bits.length_ofBytes,
    List.length_replicate, spareBits, h] at hbits hother
  omega

theorem values_encode_inj {bytes other : Bytes} :
    values (encode bytes) = values (encode other) ↔ bytes = other := by
  constructor
  · intro h
    have hlength := length_eq_of_length_values (congrArg List.length h)
    have hbits := spell_values_encode bytes
    rw [h, spell_values_encode, spareBits, spareBits, hlength,
      List.append_cancel_right_eq] at hbits
    refine Bytes.eq_of_toNat_eq hlength ?_
    rw [← Bits.toNat_ofBytes, ← hbits, Bits.toNat_ofBytes]
  · rintro rfl
    rfl

end Base64

end Keyring
