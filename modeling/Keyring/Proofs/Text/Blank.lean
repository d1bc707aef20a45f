import Keyring.Proofs.Text.Line
import Keyring.Text.Blank

/-!
What trimming leaves as it is.
-/

namespace Keyring.Text

theorem trimEnd_append_singleton (front : List Char) (c : Char) :
    trimEnd (front ++ [c]) = if isBlank c then trimEnd front else front ++ [c] := by
  rw [trimEnd, List.reverse_append, List.reverse_singleton, List.singleton_append,
    List.dropWhile_cons]
  split
  · rfl
  · rw [List.reverse_cons, List.reverse_reverse]

theorem trimStart_isSuffix (text : List Char) : trimStart text <:+ text :=
  List.dropWhile_suffix _

theorem trimEnd_isPrefix (text : List Char) : trimEnd text <+: text := by
  have h := List.dropWhile_suffix (l := text.reverse) isBlank
  rw [← List.reverse_prefix, List.reverse_reverse] at h
  exact h

theorem mem_of_mem_trim {c : Char} {text : List Char} (h : c ∈ trim text) : c ∈ text :=
  (trimStart_isSuffix text).subset ((trimEnd_isPrefix _).subset h)

theorem trimStart_eq_self_iff {text : List Char} :
    trimStart text = text ↔ ∀ c, text.head? = some c → isBlank c = false := by
  constructor
  · intro h c hc
    have hstop := List.head?_dropWhile_not isBlank text
    rw [← trimStart, h, hc] at hstop
    exact hstop
  · intro h
    cases text with
    | nil => rfl
    | cons c rest =>
        rw [trimStart, List.dropWhile_cons, h c rfl]
        rfl

theorem trimEnd_eq_self_iff {text : List Char} :
    trimEnd text = text ↔ ∀ c, text.getLast? = some c → isBlank c = false := by
  simp only [← List.head?_reverse]
  rw [← trimStart_eq_self_iff, trimEnd, ← trimStart, List.reverse_eq_iff]

/-- Trimming leaves a text exactly if there is no white space at either end. -/
theorem trim_eq_self_iff {text : List Char} :
    trim text = text ↔
      (∀ c, text.head? = some c → isBlank c = false) ∧
        ∀ c, text.getLast? = some c → isBlank c = false := by
  rw [← trimStart_eq_self_iff, ← trimEnd_eq_self_iff]
  constructor
  · intro h
    have hlength : text.length ≤ (trimStart text).length := by
      calc text.length = (trim text).length := by rw [h]
        _ ≤ (trimStart text).length := (trimEnd_isPrefix (trimStart text)).length_le
    have hwhole : trimStart text = text := (trimStart_isSuffix text).eq_of_length_le hlength
    rw [trim, hwhole] at h
    exact ⟨hwhole, h⟩
  · rintro ⟨hstart, hend⟩
    rw [trim, hstart, hend]

theorem isBlank_newline : isBlank '\n' = true := by decide

theorem isBlank_return : isBlank '\r' = true := by decide

/-- A text without white space is left by trimming and stays a line. -/
theorem isLine_of_not_isBlank {text : List Char} (h : ∀ c ∈ text, isBlank c = false) :
    trim text = text ∧ IsLine text := by
  refine ⟨trim_eq_self_iff.mpr ⟨?_, ?_⟩, ?_, ?_⟩
  · intro c hc
    exact h c (List.mem_of_head? hc)
  · intro c hc
    exact h c (List.mem_of_getLast? hc)
  · intro hfeed
    have hblank := h '\n' hfeed
    rw [isBlank_newline] at hblank
    cases hblank
  · intro hreturn
    have hblank := h '\r' (List.mem_of_getLast? hreturn)
    rw [isBlank_return] at hblank
    cases hblank

end Keyring.Text
