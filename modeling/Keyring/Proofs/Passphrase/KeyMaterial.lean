import Keyring.Passphrase.Bcrypt
import Keyring.Proofs.Bytes.Value
import Keyring.Proofs.Text.Ascii
import Keyring.Storage.Keystore
import Mathlib.Data.List.GetD

/-!
Which passphrases the key schedule can tell apart.

It reads a passphrase and its closing zero over and over, and nothing else. So the
zero is the only thing that says where a passphrase ends. Among passphrases without
a zero of their own each has key material of its own; one that holds a zero may
be another one repeated.
-/

namespace Keyring.Bcrypt

/-! ### Cycles -/

section Cycle

variable {bytes whole : Bytes} {count period : ℕ}

@[simp] theorem length_cycle : (cycle bytes count).length = count := by
  simp [cycle]

theorem getElem_cycle {i : ℕ} (h : i < (cycle bytes count).length) :
    (cycle bytes count)[i] = bytes.getD (i % bytes.length) 0 := by
  simp [cycle]

/-- A cycle that is cut short is a shorter cycle. -/
theorem take_cycle (h : period ≤ count) :
    (cycle bytes count).take period = cycle bytes period := by
  apply List.ext_getElem
  · simp [h]
  · intro i hi hi'
    rw [List.getElem_take, getElem_cycle, getElem_cycle]

/-- Behind its first turn a cycle goes on as it began. -/
theorem cycle_eq_append (h : bytes.length ≤ count) :
    cycle bytes count = bytes ++ cycle bytes (count - bytes.length) := by
  apply List.ext_getElem
  · simp [h]
  · intro i hi hi'
    rw [getElem_cycle, List.getElem_append]
    split
    · rename_i hfirst
      rw [Nat.mod_eq_of_lt hfirst, List.getD_eq_getElem _ _ hfirst]
    · rename_i hlater
      rw [getElem_cycle, Nat.mod_eq_sub_mod (not_lt.mp hlater)]

/-- A sequence is the cycle of its front exactly if it goes on behind that front as
it began. -/
theorem eq_cycle_iff (hne : bytes ≠ []) (hlength : whole.length = count)
    (h : bytes.length ≤ count) :
    whole = cycle bytes count ↔ whole = bytes ++ whole.take (count - bytes.length) := by
  have hpos : 0 < bytes.length := List.length_pos_iff.mpr hne
  constructor
  · intro hwhole
    have htail : whole.take (count - bytes.length) = cycle bytes (count - bytes.length) := by
      rw [hwhole, take_cycle (Nat.sub_le _ _)]
    rw [htail, ← cycle_eq_append h, hwhole]
  · intro hwhole
    apply List.ext_getElem
    · rw [hlength, length_cycle]
    · intro i hi hi'
      rw [getElem_cycle]
      -- Each turn is reduced to the one before.
      induction i using Nat.strong_induction_on with
      | _ i ih =>
          have hbound : i < (bytes ++ whole.take (count - bytes.length)).length := hwhole ▸ hi
          have hstep : whole[i] = (bytes ++ whole.take (count - bytes.length))[i] := by
            congr 1
          rw [hstep, List.getElem_append]
          split
          · rename_i hfirst
            rw [Nat.mod_eq_of_lt hfirst, List.getD_eq_getElem _ _ hfirst]
          · rename_i hlater
            rw [List.getElem_take, ih (i - bytes.length) (by omega) (by omega)
              (by simp; omega), Nat.mod_eq_sub_mod (not_lt.mp hlater)]

/-- A cycle of whole turns is a repetition. -/
theorem cycle_mul (turns : ℕ) :
    cycle bytes (turns * bytes.length) = (List.replicate turns bytes).flatten := by
  induction turns with
  | zero => simp [cycle]
  | succ turns ih =>
      have hlength : bytes.length ≤ (turns + 1) * bytes.length :=
        Nat.le_mul_of_pos_left _ (by omega)
      rw [cycle_eq_append hlength, List.replicate_succ, List.flatten_cons, ← ih, Nat.succ_mul,
        Nat.add_sub_cancel]

/-- The cycle of a repetition is that of what is repeated. -/
theorem cycle_flatten_replicate {turns : ℕ} (hturns : 0 < turns) (hne : bytes ≠ []) :
    cycle (List.replicate turns bytes).flatten count = cycle bytes count := by
  have hpos : 0 < bytes.length := List.length_pos_iff.mpr hne
  rw [← cycle_mul]
  apply List.ext_getElem
  · simp
  · intro i hi hi'
    have hturn : i % (turns * bytes.length) < turns * bytes.length :=
      Nat.mod_lt _ (Nat.mul_pos hturns hpos)
    rw [getElem_cycle, getElem_cycle, length_cycle,
      List.getD_eq_getElem _ _ (by rwa [length_cycle]), getElem_cycle,
      Nat.mod_mod_of_dvd _ (Nat.dvd_mul_left _ _)]

end Cycle

/-! ### Passphrases -/

variable {first second : Bytes}

theorem length_closed_le (h : first.length ≤ maxPassphraseLength) :
    (first ++ [0]).length ≤ keyMaterialLength := by
  rw [List.length_append, List.length_singleton]
  exact Nat.add_le_of_le_sub (by decide) h

/-- What the key schedule reads of one passphrase is what it reads of another exactly
if that starts with the other and its zero and goes on behind them as it began. -/
theorem keyMaterial_eq_iff (hsecond : second.length ≤ maxPassphraseLength) :
    keyMaterial first = keyMaterial second ↔ keyMaterial first =
      (second ++ [0]) ++ (keyMaterial first).take (maxPassphraseLength - second.length) := by
  have hturn := eq_cycle_iff (List.concat_ne_nil 0 second)
    (show (keyMaterial first).length = keyMaterialLength from length_cycle)
    (length_closed_le hsecond)
  rwa [List.length_append, List.length_singleton, Nat.add_comm, ← Nat.sub_sub] at hturn

/-- In a passphrase without a zero only the closing one is found. -/
theorem getD_closed_eq_zero_iff (h : 0 ∉ first) {i : ℕ} (hi : i < first.length + 1) :
    (first ++ [0]).getD i 0 = 0 ↔ i = first.length := by
  constructor
  · intro hzero
    by_contra hne
    have hfront : i < first.length := by omega
    rw [List.getD_append _ _ _ _ hfront, List.getD_eq_getElem _ _ hfront] at hzero
    exact h (hzero ▸ List.getElem_mem hfront)
  · rintro rfl
    simp

/-- Where a cycle of a passphrase without a zero ends in a zero, it ends with a turn. -/
theorem exists_turns_of_eq_cycle (hzero : 0 ∉ first)
    (h : second ++ [0] = cycle (first ++ [0]) (second ++ [0]).length) :
    ∃ turns, (second ++ [0]).length = turns * (first ++ [0]).length := by
  have hclosed : (first ++ [0]).length = first.length + 1 := by simp
  have hlast : (first ++ [0]).getD (second.length % (first.length + 1)) 0 = 0 := by
    have hbound : second.length < (cycle (first ++ [0]) (second ++ [0]).length).length := by
      simp
    rw [← hclosed, ← getElem_cycle hbound]
    simp only [← h]
    simp
  rw [getD_closed_eq_zero_iff hzero (Nat.mod_lt _ (Nat.succ_pos _))] at hlast
  have hdvd : first.length + 1 ∣ second.length + 1 := by
    rw [Nat.dvd_iff_mod_eq_zero, Nat.add_mod, hlast]
    cases hfirst : first.length with
    | zero => rfl
    | succ n => rw [Nat.mod_eq_of_lt (a := 1) (by omega), Nat.mod_self]
  obtain ⟨turns, hturns⟩ := hdvd
  exact ⟨turns, by rw [hclosed, List.length_append, List.length_singleton, hturns,
    Nat.mul_comm]⟩

/-- The key schedule reads a passphrase without a zero and another one alike exactly
if the other one is the first, repeated with its zero any number of times. -/
theorem keyMaterial_eq_iff_repeated (hzero : 0 ∉ first)
    (hsecond : second.length ≤ maxPassphraseLength) :
    keyMaterial first = keyMaterial second ↔
      ∃ turns, second ++ [0] = (List.replicate turns (first ++ [0])).flatten := by
  have hlength := length_closed_le hsecond
  constructor
  · intro h
    -- The second passphrase and its zero are what the schedule reads first of either.
    have hfront : second ++ [0] = cycle (first ++ [0]) (second ++ [0]).length := by
      rw [← take_cycle hlength]
      change _ = (keyMaterial first).take _
      rw [h, keyMaterial, cycle_eq_append hlength, List.take_left]
    obtain ⟨turns, hturns⟩ := exists_turns_of_eq_cycle hzero hfront
    refine ⟨turns, ?_⟩
    rw [← cycle_mul, ← hturns]
    exact hfront
  · rintro ⟨turns, hturns⟩
    have hpos : 0 < turns := by
      rw [Nat.pos_iff_ne_zero]
      rintro rfl
      simp at hturns
    rw [keyMaterial, keyMaterial, hturns,
      cycle_flatten_replicate hpos (List.concat_ne_nil 0 first)]

/-- A passphrase without a zero is what its key material holds in front of the first
zero. -/
theorem takeWhile_keyMaterial (hfirst : first.length ≤ maxPassphraseLength)
    (hzero : 0 ∉ first) :
    (keyMaterial first).takeWhile (· ≠ 0) = first := by
  have hfront : ∀ b ∈ first, decide (b ≠ 0) = true := by
    intro b hb
    rw [decide_eq_true_eq]
    rintro rfl
    exact hzero hb
  rw [keyMaterial, cycle_eq_append (length_closed_le hfirst), List.append_assoc,
    List.takeWhile_append_of_pos hfront, List.singleton_append, List.takeWhile_cons]
  simp

theorem keyMaterial_inj (hfirst : first.length ≤ maxPassphraseLength)
    (hsecond : second.length ≤ maxPassphraseLength) (hzero : 0 ∉ first) (hzero' : 0 ∉ second) :
    keyMaterial first = keyMaterial second ↔ first = second := by
  constructor
  · intro h
    rw [← takeWhile_keyMaterial hfirst hzero, h, takeWhile_keyMaterial hsecond hzero']
  · rintro rfl
    rfl

/-! ### Keystores -/

theorem sealingKey_eq_of_keyMaterial_eq {first second : String}
    (hfirst : (Bytes.ofString first).length ≤ maxPassphraseLength)
    (hsecond : (Bytes.ofString second).length ≤ maxPassphraseLength)
    (h : keyMaterial (Bytes.ofString first) = keyMaterial (Bytes.ofString second))
    (salt : Bytes) : sealingKey first salt = sealingKey second salt := by
  have hdigest : ∀ salt : Block saltLength,
      digest (Bytes.ofString first) salt = digest (Bytes.ofString second) salt := by
    intro salt
    rw [digest, digest, h]
  have htext : ∀ salt : Block saltLength,
      text (Bytes.ofString first) salt = text (Bytes.ofString second) salt := by
    intro salt
    rw [text, text, hdigest]
  simp only [sealingKey, if_neg (not_lt.mpr hfirst), if_neg (not_lt.mpr hsecond), htext]

end Keyring.Bcrypt

namespace Keyring.Keystore

open Bcrypt

/-- Passphrases that the key schedule reads alike open the same keystores. -/
theorem unlock_eq_of_keyMaterial_eq {first second : String}
    (hfirst : (Bytes.ofString first).length ≤ maxPassphraseLength)
    (hsecond : (Bytes.ofString second).length ≤ maxPassphraseLength)
    (h : keyMaterial (Bytes.ofString first) = keyMaterial (Bytes.ofString second))
    (keystore : Keystore) : keystore.unlock first = keystore.unlock second := by
  rw [unlock, unlock, sealingKey_eq_of_keyMaterial_eq hfirst hsecond h]

/-- Two accepted passphrases are told apart by the key schedule unless one of them
holds a zero. In general it reads them alike exactly if what it reads of the first
starts with the second and a zero and goes on behind them as it began; if the
first holds no zero, exactly if the second is the first over and over, with a zero
between any two; and if neither holds a zero, only if they are equal. Two that it
reads alike open every keystore alike. -/
theorem interchangeable_passphrases_iff (first second : String)
    (hfirst : (Bytes.ofString first).length ≤ 71)
    (hsecond : (Bytes.ofString second).length ≤ 71) :
    (keyMaterial (Bytes.ofString first) = keyMaterial (Bytes.ofString second) ↔
      keyMaterial (Bytes.ofString first) = (Bytes.ofString second ++ [0]) ++
        (keyMaterial (Bytes.ofString first)).take (71 - (Bytes.ofString second).length)) ∧
    (0 ∉ Bytes.ofString first →
      (keyMaterial (Bytes.ofString first) = keyMaterial (Bytes.ofString second) ↔
        ∃ turns, Bytes.ofString second ++ [0] =
          (List.replicate turns (Bytes.ofString first ++ [0])).flatten)) ∧
    (0 ∉ Bytes.ofString first → 0 ∉ Bytes.ofString second →
      (keyMaterial (Bytes.ofString first) = keyMaterial (Bytes.ofString second) ↔
        first = second)) ∧
    (keyMaterial (Bytes.ofString first) = keyMaterial (Bytes.ofString second) →
      ∀ keystore : Keystore, keystore.unlock first = keystore.unlock second) := by
  refine ⟨keyMaterial_eq_iff hsecond, fun hzero => keyMaterial_eq_iff_repeated hzero hsecond,
    fun hzero hzero' => ?_, unlock_eq_of_keyMaterial_eq hfirst hsecond⟩
  rw [keyMaterial_inj hfirst hsecond hzero hzero', Bytes.ofString_inj]

/-- A passphrase and the same one twice, with a zero between. -/
theorem interchangeable_passphrases_iff_twice :
    "1234567890" ≠ "1234567890\x001234567890" ∧
    (Bytes.ofString "1234567890").length ≤ 71 ∧
    (Bytes.ofString "1234567890\x001234567890").length ≤ 71 ∧
    0 ∉ Bytes.ofString "1234567890" ∧
    keyMaterial (Bytes.ofString "1234567890") =
      keyMaterial (Bytes.ofString "1234567890\x001234567890") ∧
    ∀ keystore : Keystore,
      keystore.unlock "1234567890" = keystore.unlock "1234567890\x001234567890" := by
  have hfirst : (Bytes.ofString "1234567890").length ≤ 71 := by decide +kernel
  have hsecond : (Bytes.ofString "1234567890\x001234567890").length ≤ 71 := by decide +kernel
  have hzero : 0 ∉ Bytes.ofString "1234567890" := by decide +kernel
  have htwice : Bytes.ofString "1234567890\x001234567890" ++ [0] =
      (List.replicate 2 (Bytes.ofString "1234567890" ++ [0])).flatten := by decide +kernel
  obtain ⟨-, hrepeated, -, hunlock⟩ := interchangeable_passphrases_iff _ _ hfirst hsecond
  have hread := (hrepeated hzero).mpr ⟨2, htwice⟩
  exact ⟨by decide, hfirst, hsecond, hzero, hread, hunlock hread⟩

end Keyring.Keystore
