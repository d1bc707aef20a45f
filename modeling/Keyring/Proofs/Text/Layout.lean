import Keyring.Proofs.Text.Blank
import Mathlib.Data.List.TakeWhile

/-!
The trimmed lines of a text.

Between two line feeds stands one line, and white space around it leaves no trace once it is
trimmed. A carriage return in front of a line feed is such white space, so it makes no
difference which end a line has.
-/

namespace Keyring.Text

def trimmedLines (text : List Char) : List (List Char) :=
  (lines text).map trim

/-- White space that leaves a line one line. -/
def IsPadding (blanks : List Char) : Prop :=
  ∀ c ∈ blanks, isBlank c = true ∧ c ≠ '\n'

/-- Whether a text may start with a new line behind another: that one is empty or ends with a
line feed. -/
def IsWhole (front : List Char) : Prop :=
  front = [] ∨ front.getLast? = some '\n'

/-- Whether a line ends where a text starts: the text is empty or starts with an end of a
line. -/
def StartsWithEnd (back : List Char) : Prop :=
  back = [] ∨ ['\n'] <+: back ∨ ['\r', '\n'] <+: back

instance (blanks : List Char) : Decidable (IsPadding blanks) :=
  decidable_of_iff (blanks.all (fun c => isBlank c && c != '\n') = true) (by simp [IsPadding])

/-! ### White space around a line -/

theorem trim_blanks_append {blanks : List Char} (h : ∀ c ∈ blanks, isBlank c = true)
    (line : List Char) : trim (blanks ++ line) = trim line := by
  rw [trim, trimStart, List.dropWhile_append_of_pos h]
  rfl

theorem trimEnd_append_blanks {blanks : List Char} (h : ∀ c ∈ blanks, isBlank c = true)
    (line : List Char) : trimEnd (line ++ blanks) = trimEnd line := by
  have hreverse : ∀ c ∈ blanks.reverse, isBlank c = true := by
    intro c hc
    exact h c (List.mem_reverse.mp hc)
  rw [trimEnd, List.reverse_append, List.dropWhile_append_of_pos hreverse]
  rfl

theorem trim_append_blanks {blanks : List Char} (h : ∀ c ∈ blanks, isBlank c = true)
    (line : List Char) : trim (line ++ blanks) = trim line := by
  rw [trim, trim, trimStart, List.dropWhile_append]
  split
  · -- There is nothing but white space in the line.
    rename_i hempty
    rw [List.isEmpty_iff] at hempty
    rw [trimStart, hempty, List.dropWhile_eq_nil_iff.mpr h]
  · exact trimEnd_append_blanks h _

theorem IsPadding.isBlank {blanks : List Char} (h : IsPadding blanks) :
    ∀ c ∈ blanks, isBlank c = true :=
  fun c hc => (h c hc).1

theorem IsPadding.newline_notMem {blanks : List Char} (h : IsPadding blanks) : '\n' ∉ blanks :=
  fun hfeed => (h '\n' hfeed).2 rfl

theorem isPadding_return : IsPadding ['\r'] := by decide

/-! ### Line by line -/

/-- A text is one line without an end, or a line up to the first line feed and a rest. -/
theorem lines_induction {motive : List Char → Prop}
    (last : ∀ line, '\n' ∉ line → motive line)
    (line : ∀ line rest, '\n' ∉ line → motive rest → motive (line ++ '\n' :: rest))
    (text : List Char) : motive text := by
  by_cases h : '\n' ∈ text
  · obtain ⟨first, rest, htext, hfirst⟩ := List.eq_append_cons_of_mem h
    rw [htext]
    exact line first rest hfirst (lines_induction last line rest)
  · exact last text h
termination_by text.length
decreasing_by
  rw [htext, List.length_append, List.length_cons]
  omega

theorem lines_append_return {line : List Char} (h : '\n' ∉ line) (rest : List Char) :
    lines (line ++ '\r' :: '\n' :: rest) = line :: lines rest := by
  induction line with
  | nil => rw [List.nil_append, lines]
  | cons c line ih =>
      rw [List.mem_cons, not_or] at h
      rw [List.cons_append, lines_cons (Ne.symm h.1), ih h.2, consLine]
      rintro ⟨-, hhead⟩
      cases line with
      | nil => cases hhead
      | cons d line =>
          rw [List.cons_append, List.head?_cons, Option.some.injEq] at hhead
          exact h.2 (hhead ▸ List.mem_cons_self)

/-- What stands in front of a line feed is a line, with or without a carriage return. -/
theorem trimmedLines_line {line : List Char} (h : '\n' ∉ line) (rest : List Char) :
    trimmedLines (line ++ '\n' :: rest) = trim line :: trimmedLines rest := by
  by_cases hlast : line.getLast? = some '\r'
  · obtain ⟨front, rfl⟩ := List.getLast?_eq_some_iff.mp hlast
    rw [List.mem_append, not_or] at h
    rw [trimmedLines, List.append_assoc, List.singleton_append, lines_append_return h.1,
      List.map_cons, trim_append_blanks isPadding_return.isBlank, trimmedLines]
  · rw [trimmedLines, lines_append_newline ⟨h, hlast⟩, List.map_cons, trimmedLines]

theorem trimmedLines_last {line : List Char} (hne : line ≠ []) (h : '\n' ∉ line) :
    trimmedLines line = [trim line] := by
  rw [trimmedLines, lines_of_notMem hne h, List.map_singleton]

theorem IsWhole.of_line {line rest : List Char} (h : IsWhole (line ++ '\n' :: rest)) :
    IsWhole rest := by
  rcases h with h | h
  · simp at h
  · rw [List.getLast?_append, List.getLast?_cons] at h
    cases hlast : rest.getLast? with
    | none => exact .inl (List.getLast?_eq_none_iff.mp hlast)
    | some c =>
        rw [hlast] at h
        right
        simpa [hlast] using h

/-- Behind whole lines a text has the lines that it has on its own. -/
theorem trimmedLines_append {front : List Char} (h : IsWhole front) (back : List Char) :
    trimmedLines (front ++ back) = trimmedLines front ++ trimmedLines back := by
  induction front using lines_induction with
  | last line hline =>
      have hnil : line = [] := by
        apply h.resolve_right
        intro hlast
        exact hline (List.mem_of_getLast? hlast)
      rw [hnil]
      rfl
  | line line rest hline ih =>
      rw [List.append_assoc, List.cons_append, trimmedLines_line hline,
        trimmedLines_line hline, ih h.of_line, List.cons_append]

/-! ### Changes that leave the trimmed lines -/

/-- White space at the start of a line makes no difference, but that behind the last line
feed it makes an empty line. -/
theorem exists_trimmedLines_pad_start {front blanks : List Char} (hfront : IsWhole front)
    (hblanks : IsPadding blanks) (back : List Char) :
    ∃ more, trimmedLines (front ++ (blanks ++ back)) =
      trimmedLines (front ++ back) ++ more := by
  rw [trimmedLines_append hfront, trimmedLines_append hfront]
  induction back using lines_induction with
  | last line hline =>
      by_cases hne : line = []
      · exact ⟨trimmedLines blanks, by rw [hne, List.append_nil, List.append_assoc]; rfl⟩
      · have hwhole : '\n' ∉ blanks ++ line := List.not_mem_append hblanks.newline_notMem hline
        refine ⟨[], ?_⟩
        rw [trimmedLines_last hne hline, trimmedLines_last (by simp [hne]) hwhole,
          trim_blanks_append hblanks.isBlank, List.append_nil]
  | line line rest hline _ =>
      have hwhole : '\n' ∉ blanks ++ line := List.not_mem_append hblanks.newline_notMem hline
      refine ⟨[], ?_⟩
      rw [← List.append_assoc blanks, trimmedLines_line hwhole, trimmedLines_line hline,
        trim_blanks_append hblanks.isBlank, List.append_nil]

theorem trimmedLines_pad_newline {blanks : List Char} (hblanks : IsPadding blanks)
    (front back : List Char) :
    trimmedLines (front ++ (blanks ++ '\n' :: back)) =
      trimmedLines (front ++ '\n' :: back) := by
  induction front using lines_induction with
  | last line hline =>
      have hwhole : '\n' ∉ line ++ blanks := List.not_mem_append hline hblanks.newline_notMem
      rw [← List.append_assoc, trimmedLines_line hwhole, trimmedLines_line hline,
        trim_append_blanks hblanks.isBlank]
  | line line rest hline ih =>
      rw [List.append_assoc, List.append_assoc, List.cons_append, List.cons_append,
        trimmedLines_line hline, trimmedLines_line hline, ih]

/-- Which end a line has makes no difference. -/
theorem trimmedLines_return (front back : List Char) :
    trimmedLines (front ++ '\r' :: '\n' :: back) = trimmedLines (front ++ '\n' :: back) :=
  trimmedLines_pad_newline isPadding_return front back

/-- Behind the last line there may be more white space. -/
theorem exists_trimmedLines_pad_last {blanks : List Char} (hblanks : IsPadding blanks)
    (front : List Char) :
    ∃ more, trimmedLines (front ++ blanks) = trimmedLines front ++ more := by
  induction front using lines_induction with
  | last line hline =>
      by_cases hne : line = []
      · exact ⟨trimmedLines blanks, by rw [hne]; rfl⟩
      · have hwhole : '\n' ∉ line ++ blanks := List.not_mem_append hline hblanks.newline_notMem
        refine ⟨[], ?_⟩
        rw [trimmedLines_last (by simp [hne]) hwhole, trimmedLines_last hne hline,
          trim_append_blanks hblanks.isBlank, List.append_nil]
  | line line rest hline ih =>
      obtain ⟨more, hmore⟩ := ih
      refine ⟨more, ?_⟩
      rw [List.append_assoc, List.cons_append, trimmedLines_line hline,
        trimmedLines_line hline, hmore, List.cons_append]

/-- White space at the end of a line makes no difference, but that behind the last line feed
it makes an empty line. -/
theorem exists_trimmedLines_pad_end {blanks back : List Char} (hblanks : IsPadding blanks)
    (hback : StartsWithEnd back) (front : List Char) :
    ∃ more, trimmedLines (front ++ (blanks ++ back)) =
      trimmedLines (front ++ back) ++ more := by
  rcases hback with rfl | ⟨rest, rfl⟩ | ⟨rest, rfl⟩
  · rw [List.append_nil, List.append_nil]
    exact exists_trimmedLines_pad_last hblanks front
  · refine ⟨[], ?_⟩
    rw [List.append_nil]
    exact trimmedLines_pad_newline hblanks front rest
  · refine ⟨[], ?_⟩
    rw [List.append_nil]
    show trimmedLines (front ++ (blanks ++ '\r' :: '\n' :: rest)) =
      trimmedLines (front ++ '\r' :: '\n' :: rest)
    rw [← List.append_assoc, trimmedLines_return, trimmedLines_return, List.append_assoc]
    exact trimmedLines_pad_newline hblanks front rest

end Keyring.Text
