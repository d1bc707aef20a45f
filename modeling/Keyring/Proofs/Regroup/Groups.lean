import Keyring.Proofs.Regroup
import Mathlib.Algebra.Order.Floor.Div

/-!
Bits cut into groups.

What regrouping returns is the bits of its values, cut into groups from the left. The last
group is filled up with zeros, or it is dropped; which of the two is all that the leftover
decides.
-/

namespace Keyring

namespace GroupWidth

/-- The groups into which bits are cut from the left. Zeros fill up the last one. -/
def cut (width : GroupWidth) (bits : Bits) : Bytes :=
  (Bytes.chunks width.bits bits).map fun group =>
    UInt8.ofNat (Bits.toNat (group.rightpad width.bits false))

def fullGroups (width : GroupWidth) (bits : Bits) : Bytes :=
  (width.cut bits).take (bits.length / width.bits)

def leftover (width : GroupWidth) (bits : Bits) : Bits :=
  bits.drop (bits.length / width.bits * width.bits)

instance (width : GroupWidth) (values : Bytes) : Decidable (width.Fits values) :=
  decidable_of_iff (values.all (fun v => v.toNat < 2 ^ width.bits) = true) (by simp [Fits])

variable {width : GroupWidth}

theorem cut_nil : width.cut [] = [] := by
  rw [cut, Bytes.chunks_nil, List.map_nil]

theorem cut_append {front : Bits} (h : front.length = width.bits) (back : Bits) :
    width.cut (front ++ back) = UInt8.ofNat (Bits.toNat front) :: width.cut back := by
  rw [cut, Bytes.chunks_append width.bits_pos h, List.map_cons, List.rightpad, h, Nat.sub_self,
    List.replicate_zero, List.append_nil]
  rfl

theorem cut_of_lt {bits : Bits} (hne : bits ≠ []) (h : bits.length < width.bits) :
    width.cut bits = [UInt8.ofNat (Bits.toNat (bits.rightpad width.bits false))] := by
  rw [cut, Bytes.chunks_of_ne_nil width.bits_pos hne, List.take_of_length_le h.le,
    List.drop_of_length_le h.le, Bytes.chunks_nil, List.map_singleton]

/-- Bits are cut off one group after the other, until they are too few for one. -/
theorem groups_induction (width : GroupWidth) {motive : Bits → Prop}
    (short : ∀ bits, bits.length < width.bits → motive bits)
    (group : ∀ front back, front.length = width.bits → motive back → motive (front ++ back))
    (bits : Bits) : motive bits := by
  induction bits using Bytes.chunks_induction width.bits_pos with
  | nil => exact short [] width.bits_pos
  | piece bits _ ih =>
      by_cases h : bits.length < width.bits
      · exact short bits h
      · rw [not_lt] at h
        rw [← List.take_append_drop width.bits bits]
        exact group _ _ (List.length_take_of_le h) ih

/-- A group of bits fits in the byte that it becomes. -/
theorem toNat_ofNat_toNat {group : Bits} (h : group.length = width.bits) :
    (UInt8.ofNat (Bits.toNat group)).toNat = Bits.toNat group := by
  rw [UInt8.toNat_ofNat', Nat.mod_eq_of_lt]
  calc
    Bits.toNat group < 2 ^ width.bits := h ▸ Bits.toNat_lt group
    _ ≤ 2 ^ 8 := Nat.pow_le_pow_right (by omega) width.bits_le

theorem ofNat_toNat_group {group : Bits} (h : group.length = width.bits) :
    Bits.ofNat width.bits (UInt8.ofNat (Bits.toNat group)).toNat = group := by
  rw [toNat_ofNat_toNat h, ← h, Bits.ofNat_toNat]

theorem toNat_group_lt {group : Bits} (h : group.length = width.bits) :
    (UInt8.ofNat (Bits.toNat group)).toNat < 2 ^ width.bits := by
  rw [toNat_ofNat_toNat h, ← h]
  exact Bits.toNat_lt group

theorem length_rightpad {bits : Bits} (h : bits.length < width.bits) :
    (bits.rightpad width.bits false).length = width.bits := by
  rw [List.rightpad, List.length_append, List.length_replicate]
  omega

theorem fits_cut (bits : Bits) : width.Fits (width.cut bits) := by
  induction bits using groups_induction width with
  | short bits h =>
      by_cases hne : bits = []
      · rw [hne, cut_nil]
        exact List.forall_mem_nil _
      · rw [cut_of_lt hne h, fits_cons]
        exact ⟨toNat_group_lt (length_rightpad h), List.forall_mem_nil _⟩
  | group front back h ih =>
      rw [cut_append h, fits_cons]
      exact ⟨toNat_group_lt h, ih⟩

/-- The groups spell the bits and the zeros that fill up the last one. -/
theorem spell_cut (bits : Bits) :
    ∃ n < width.bits, width.spell (width.cut bits) = bits ++ List.replicate n false := by
  induction bits using groups_induction width with
  | short bits h =>
      by_cases hne : bits = []
      · exact ⟨0, width.bits_pos, by rw [hne, cut_nil]; rfl⟩
      · have hpos : 0 < bits.length := List.length_pos_iff.mpr hne
        refine ⟨width.bits - bits.length, by omega, ?_⟩
        rw [cut_of_lt hne h, spell_cons, spell_nil, List.append_nil,
          ofNat_toNat_group (length_rightpad h)]
        rfl
  | group front back h ih =>
      obtain ⟨n, hn, hspell⟩ := ih
      refine ⟨n, hn, ?_⟩
      rw [cut_append h, spell_cons, ofNat_toNat_group h, hspell, List.append_assoc]

theorem length_cut (bits : Bits) : (width.cut bits).length = bits.length ⌈/⌉ width.bits := by
  obtain ⟨n, hn, hspell⟩ := @spell_cut width bits
  have hlength := congrArg List.length hspell
  rw [length_spell, List.length_append, List.length_replicate] at hlength
  have hsum : bits.length + width.bits - 1 =
      width.bits * (width.cut bits).length + (width.bits - 1 - n) := by omega
  rw [Nat.ceilDiv_eq_add_pred_div, hsum, Nat.mul_add_div width.bits_pos,
    Nat.div_eq_of_lt (by omega), Nat.add_zero]

/-- Values are the groups of what they spell. -/
theorem cut_spell_append {values : Bytes} (h : width.Fits values) (rest : Bits) :
    width.cut (width.spell values ++ rest) = values ++ width.cut rest := by
  induction values with
  | nil => rfl
  | cons v values ih =>
      rw [fits_cons] at h
      rw [spell_cons, List.append_assoc, cut_append (Bits.length_ofNat _ _),
        Bits.toNat_ofNat_of_lt h.1, UInt8.ofNat_toNat, ih h.2, List.cons_append]

/-- The full groups and the leftover make up the bits. -/
theorem spell_fullGroups (bits : Bits) :
    width.spell (width.fullGroups bits) ++ width.leftover bits = bits ∧
      (width.fullGroups bits).length = bits.length / width.bits := by
  induction bits using groups_induction width with
  | short bits h =>
      rw [fullGroups, leftover, Nat.div_eq_of_lt h, List.take_zero, Nat.zero_mul,
        List.drop_zero]
      exact ⟨rfl, rfl⟩
  | group front back h ih =>
      have hdiv : (front ++ back).length / width.bits = back.length / width.bits + 1 := by
        rw [List.length_append, h, Nat.add_div_left _ width.bits_pos]
      have hdrop : (back.length / width.bits + 1) * width.bits =
          front.length + back.length / width.bits * width.bits := by
        rw [h]
        ring
      have hfull : width.fullGroups (front ++ back) =
          UInt8.ofNat (Bits.toNat front) :: width.fullGroups back := by
        rw [fullGroups, hdiv, cut_append h, List.take_succ_cons, fullGroups]
      have hleft : width.leftover (front ++ back) = width.leftover back := by
        rw [leftover, hdiv, hdrop, List.drop_append, List.drop_of_length_le (by omega),
          Nat.add_sub_cancel_left, List.nil_append, leftover]
      rw [hfull, hleft, spell_cons, ofNat_toNat_group h, List.append_assoc, ih.1,
        List.length_cons, ih.2, hdiv]
      exact ⟨rfl, rfl⟩

theorem length_leftover (bits : Bits) :
    (width.leftover bits).length = bits.length % width.bits := by
  rw [leftover, List.length_drop, Nat.mod_eq_sub_div_mul]

theorem fits_fullGroups (bits : Bits) : width.Fits (width.fullGroups bits) :=
  fun v hv => fits_cut bits v (List.mem_of_mem_take hv)

end GroupWidth

end Keyring
