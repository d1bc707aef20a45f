import Keyring.Proofs.Bytes.Bits
import Keyring.Proofs.Bytes.Chunks

/-!
Bits in groups of one width.

A list is cut again into the pieces that it was joined from, if they are equally long. So the
numbers that groups of bits stand for and the bits determine each other, where the groups use
up the bits.
-/

namespace Keyring

namespace Bytes

variable {α β : Type} {size : ℕ}

theorem chunks_flatMap (hsize : 0 < size) {f : β → List α} {list : List β}
    (h : ∀ b ∈ list, (f b).length = size) : chunks size (list.flatMap f) = list.map f := by
  induction list with
  | nil => exact chunks_nil size
  | cons b rest ih =>
      obtain ⟨hb, hrest⟩ := List.forall_mem_cons.mp h
      rw [List.flatMap_cons, chunks_append hsize hb, ih hrest, List.map_cons]

theorem length_eq_of_mem_chunks (hsize : 0 < size) {list piece : List α}
    (hdvd : size ∣ list.length) (h : piece ∈ chunks size list) : piece.length = size := by
  obtain ⟨i, hi, rfl⟩ := exists_of_mem_chunks hsize h
  obtain ⟨count, hcount⟩ := hdvd
  have hrest : size * (i + 1) ≤ size * count :=
    Nat.mul_le_mul_left size (Nat.lt_of_mul_lt_mul_left (hcount ▸ hi))
  rw [Nat.mul_succ] at hrest
  rw [List.length_take, List.length_drop]
  omega

theorem flatMap_chunks (hsize : 0 < size) {f : List α → List α} {list : List α}
    (h : ∀ piece ∈ chunks size list, f piece = piece) :
    (chunks size list).flatMap f = list := by
  rw [List.flatMap_def, List.map_congr_left h, List.map_id', flatten_chunks hsize]

end Bytes

namespace Bits

variable {width : ℕ} {bits : Bits}

theorem length_flatMap_ofNat (width : ℕ) (list : List ℕ) :
    (list.flatMap (ofNat width)).length = width * list.length := by
  simp [List.length_flatMap, List.map_const', Nat.mul_comm]

/-- Numbers are read off the bits that they are written in. -/
theorem map_toNat_chunks_flatMap_ofNat (hwidth : 0 < width) {list : List ℕ}
    (h : ∀ n ∈ list, n < 2 ^ width) :
    (Bytes.chunks width (list.flatMap (ofNat width))).map toNat = list := by
  rw [Bytes.chunks_flatMap hwidth fun n _ => length_ofNat width n, List.map_map]
  calc
    list.map (toNat ∘ ofNat width) = list.map id :=
      List.map_congr_left fun n hn => toNat_ofNat_of_lt (h n hn)
    _ = list := List.map_id list

/-- Bits are what the numbers of their groups are written in. -/
theorem flatMap_ofNat_map_toNat_chunks (hwidth : 0 < width) (h : width ∣ bits.length) :
    ((Bytes.chunks width bits).map toNat).flatMap (ofNat width) = bits := by
  have hgroup : ∀ group ∈ Bytes.chunks width bits, ofNat width (toNat group) = group := by
    intro group hgroup
    rw [← Bytes.length_eq_of_mem_chunks hwidth h hgroup, ofNat_toNat]
  rw [List.flatMap_map, Bytes.flatMap_chunks hwidth hgroup]

theorem toBytes_ofBytes (bytes : Bytes) : toBytes (ofBytes bytes) = bytes := by
  rw [toBytes, ofBytes, Bytes.chunks_flatMap (by decide) fun b _ => length_ofNat 8 b.toNat,
    List.map_map]
  calc
    bytes.map ((fun group => UInt8.ofNat (toNat group)) ∘ fun b => ofNat 8 b.toNat) =
        bytes.map id := by
      refine List.map_congr_left fun b _ => ?_
      show UInt8.ofNat (toNat (ofNat 8 b.toNat)) = b
      rw [toNat_ofNat_of_lt b.toNat_lt, UInt8.ofNat_toNat]
    _ = bytes := List.map_id bytes

theorem ofBytes_toBytes (h : 8 ∣ bits.length) : ofBytes (toBytes bits) = bits := by
  have hgroup : ∀ group ∈ Bytes.chunks 8 bits,
      ofNat 8 (UInt8.ofNat (toNat group)).toNat = group := by
    intro group hgroup
    have hlength : group.length = 8 := Bytes.length_eq_of_mem_chunks (by decide) h hgroup
    have hlt : toNat group < 2 ^ 8 := hlength ▸ toNat_lt group
    rw [UInt8.toNat_ofNat_of_lt' hlt, ← hlength, ofNat_toNat]
  rw [toBytes, ofBytes, List.flatMap_map, Bytes.flatMap_chunks (by decide) hgroup]

theorem length_toBytes (h : 8 ∣ bits.length) : 8 * (toBytes bits).length = bits.length := by
  rw [← length_ofBytes, ofBytes_toBytes h]

end Bits

end Keyring
