import Keyring.Storage.Sink
import Mathlib.Data.Nat.Notation

/-!
What writing to a writer with limited room leaves there.

In which portions such a writer takes the bytes makes no difference: it ends up
with the front of them that it has room for.
-/

namespace Keyring

/-- A writer with room for a number of bytes. It keeps what it takes; of every offer
it takes something as long as there is room, and never more than that. It does not fail,
and flushing it changes nothing of this. -/
class LimitedWriter (σ : Type) extends Writer σ where
  written : σ → Bytes
  room : σ → ℕ
  portion : σ → Bytes → ℕ
  offer_eq_ok : ∀ writer bytes, (offer writer bytes).2 = .ok (portion writer bytes)
  le_length : ∀ writer bytes, portion writer bytes ≤ bytes.length
  le_room : ∀ writer bytes, portion writer bytes ≤ room writer
  pos : ∀ writer bytes, bytes ≠ [] → 0 < room writer → 0 < portion writer bytes
  written_offer : ∀ writer bytes,
    written (offer writer bytes).1 = written writer ++ bytes.take (portion writer bytes)
  room_offer : ∀ writer bytes,
    room (offer writer bytes).1 = room writer - portion writer bytes
  flush_eq_ok : ∀ writer, (flush writer).2 = .ok ()
  written_flush : ∀ writer, written (flush writer).1 = written writer

instance : LimitedWriter Sink where
  written := Sink.written
  room := Sink.capacity
  portion := fun sink bytes => min sink.capacity bytes.length
  offer_eq_ok := fun _ _ => rfl
  le_length := fun _ _ => Nat.min_le_right _ _
  le_room := fun _ _ => Nat.min_le_left _ _
  pos := fun _ _ hne hroom => Nat.lt_min.mpr ⟨hroom, List.length_pos_iff.mpr hne⟩
  written_offer := by
    intro sink bytes
    change sink.written ++ bytes.take sink.capacity =
      sink.written ++ bytes.take (min sink.capacity bytes.length)
    rw [List.take_eq_take_min]
  room_offer := by
    intro sink bytes
    change sink.capacity - bytes.length = sink.capacity - min sink.capacity bytes.length
    omega
  flush_eq_ok := fun _ => rfl
  written_flush := fun _ => rfl

namespace LimitedWriter

variable {σ : Type} [LimitedWriter σ]

/-- What an offer that leads to another writer says about both. -/
theorem of_offer_eq {writer next : σ} {bytes : Bytes} {result : Except StorageFault ℕ}
    (h : Writer.offer writer bytes = (next, result)) :
    result = .ok (portion writer bytes) ∧
      written next = written writer ++ bytes.take (portion writer bytes) ∧
      room next = room writer - portion writer bytes := by
  have hresult := offer_eq_ok writer bytes
  have hwritten := written_offer writer bytes
  have hroom := room_offer writer bytes
  simp only [h] at hresult hwritten hroom
  exact ⟨hresult, hwritten, hroom⟩

/-- Writing leaves the front of the bytes that there is room for, and succeeds if that
is all of them. -/
theorem exists_writeAll (writer : σ) (bytes : Bytes) : ∃ next,
    Writer.writeAll writer bytes =
        (next, if bytes.length ≤ room writer then .ok () else .error .full) ∧
      written next = written writer ++ bytes.take (room writer) := by
  -- Along the calls of the loop: each leaves the rest of the bytes and of the room.
  fun_induction Writer.writeAll writer bytes with
  | case1 writer => exact ⟨writer, by simp, by simp⟩
  | case2 writer bytes hne next fault hoffer =>
      obtain ⟨hresult, -, -⟩ := of_offer_eq hoffer
      cases hresult
  | case3 writer bytes hne next hoffer =>
      obtain ⟨hresult, hwritten, -⟩ := of_offer_eq hoffer
      have hportion : portion writer bytes = 0 := (Except.ok.inj hresult).symm
      have hroom : room writer = 0 := by
        have hpos := pos writer bytes hne
        omega
      have hlong : ¬bytes.length ≤ room writer := by
        rw [hroom, Nat.le_zero, List.length_eq_zero_iff]
        exact hne
      rw [if_neg hlong]
      exact ⟨next, rfl, by rw [hwritten, hportion, hroom]⟩
  | case4 writer bytes hne next count hoffer hcount ih =>
      obtain ⟨hresult, hwritten, hroom⟩ := of_offer_eq hoffer
      obtain rfl : count = portion writer bytes := Except.ok.inj hresult
      have hlength := le_length writer bytes
      have hcapacity := le_room writer bytes
      have hfits : (bytes.drop (portion writer bytes)).length ≤ room next ↔
          bytes.length ≤ room writer := by
        rw [hroom, List.length_drop]
        omega
      obtain ⟨final, hfinal, hrest⟩ := ih
      refine ⟨final, by simpa only [hfits] using hfinal, ?_⟩
      rw [hrest, hwritten, hroom, List.append_assoc, ← List.take_add,
        Nat.add_sub_cancel' hcapacity]

end LimitedWriter

end Keyring
