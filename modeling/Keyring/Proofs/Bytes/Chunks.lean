import Keyring.Bytes.Basic
import Mathlib.Data.Nat.Notation

/-!
The pieces of a list.
-/

namespace Keyring.Bytes

variable {α : Type}

theorem chunks_nil (size : ℕ) : chunks size ([] : List α) = [] := by
  rw [chunks, dif_pos (.inl rfl)]

theorem chunks_of_ne_nil {size : ℕ} (hsize : 0 < size) {list : List α} (h : list ≠ []) :
    chunks size list = list.take size :: chunks size (list.drop size) := by
  rw [chunks, dif_neg]
  rintro (hnil | hzero)
  · exact h hnil
  · omega

theorem chunks_append {size : ℕ} (hsize : 0 < size) {front : List α} (h : front.length = size)
    (back : List α) : chunks size (front ++ back) = front :: chunks size back := by
  have hne : front ++ back ≠ [] := by
    intro hnil
    rw [(List.append_eq_nil_iff.mp hnil).1, List.length_nil] at h
    omega
  rw [chunks_of_ne_nil hsize hne, List.take_left' h, List.drop_left' h]

/-- Cutting off one piece after the other: the induction along which a list falls
into pieces. -/
theorem chunks_induction {size : ℕ} (hsize : 0 < size) {motive : List α → Prop}
    (nil : motive []) (piece : ∀ list, list ≠ [] → motive (list.drop size) → motive list)
    (list : List α) : motive list := by
  by_cases hlist : list = []
  · rw [hlist]
    exact nil
  · have hpos : 0 < list.length := List.length_pos_iff.mpr hlist
    exact piece list hlist (chunks_induction hsize nil piece (list.drop size))
termination_by list.length
decreasing_by
  rw [List.length_drop]
  omega

theorem flatten_chunks {size : ℕ} (hsize : 0 < size) (list : List α) :
    (chunks size list).flatten = list := by
  induction list using chunks_induction hsize with
  | nil => rw [chunks_nil, List.flatten_nil]
  | piece list h ih =>
      rw [chunks_of_ne_nil hsize h, List.flatten_cons, ih, List.take_append_drop]

/-- A piece is the start of what is left behind some whole pieces. -/
theorem exists_of_mem_chunks {size : ℕ} (hsize : 0 < size) {list piece : List α}
    (h : piece ∈ chunks size list) :
    ∃ i, size * i < list.length ∧ piece = (list.drop (size * i)).take size := by
  induction list using chunks_induction hsize with
  | nil =>
      rw [chunks_nil] at h
      cases h
  | piece list hlist ih =>
      rw [chunks_of_ne_nil hsize hlist, List.mem_cons] at h
      rcases h with rfl | h
      · exact ⟨0, List.length_pos_iff.mpr hlist, rfl⟩
      · obtain ⟨i, hi, rfl⟩ := ih h
        rw [List.length_drop] at hi
        refine ⟨i + 1, ?_, ?_⟩
        · rw [Nat.mul_succ]
          omega
        · rw [List.drop_drop, Nat.mul_succ, Nat.add_comm]

theorem length_le_of_mem_chunks {size : ℕ} (hsize : 0 < size) {list piece : List α}
    (h : piece ∈ chunks size list) : piece.length ≤ size := by
  obtain ⟨i, -, rfl⟩ := exists_of_mem_chunks hsize h
  exact List.length_take_le _ _

theorem ne_nil_of_mem_chunks {size : ℕ} (hsize : 0 < size) {list piece : List α}
    (h : piece ∈ chunks size list) : piece ≠ [] := by
  obtain ⟨i, hi, rfl⟩ := exists_of_mem_chunks hsize h
  rw [Ne, List.take_eq_nil_iff, List.drop_eq_nil_iff]
  omega

end Keyring.Bytes
