import Keyring.Text.Line

/-!
The lines of a text that consists of lines, and of one that is cut off.
-/

namespace Keyring.Text

def IsLine (line : List Char) : Prop :=
  '\n' ∉ line ∧ line.getLast? ≠ some '\r'

theorem lines_cons {c : Char} {rest : List Char} (hfeed : c ≠ '\n')
    (hreturn : ¬(c = '\r' ∧ rest.head? = some '\n')) :
    lines (c :: rest) = consLine c (lines rest) := by
  rw [lines]
  · exact hfeed
  · rintro rest' rfl rfl
    exact hreturn ⟨rfl, rfl⟩

theorem lines_append_newline {line : List Char} (h : IsLine line) (rest : List Char) :
    lines (line ++ '\n' :: rest) = line :: lines rest := by
  induction line with
  | nil => rw [List.nil_append, lines]
  | cons c line ih =>
      obtain ⟨hfeed, hreturn⟩ := h
      rw [List.mem_cons, not_or] at hfeed
      have hline : IsLine line := by
        refine ⟨hfeed.2, ?_⟩
        intro hlast
        apply hreturn
        rw [List.getLast?_cons, hlast]
        rfl
      rw [List.cons_append, lines_cons (Ne.symm hfeed.1), ih hline, consLine]
      rintro ⟨rfl, hhead⟩
      -- A line feed right behind this character would stand in the line or end it.
      cases line with
      | nil => exact hreturn rfl
      | cons d line =>
          rw [List.cons_append, List.head?_cons, Option.some.injEq] at hhead
          exact hfeed.2 (hhead ▸ List.mem_cons_self)

theorem unlines_cons (line : List Char) (rest : List (List Char)) :
    unlines (line :: rest) = line ++ '\n' :: unlines rest := by
  rw [unlines, List.flatMap_cons, List.append_assoc]
  rfl

theorem unlines_concat (list : List (List Char)) (line : List Char) :
    unlines (list ++ [line]) = unlines list ++ (line ++ ['\n']) := by
  rw [unlines, List.flatMap_append, List.flatMap_singleton]
  rfl

theorem lines_unlines {list : List (List Char)} (h : ∀ line ∈ list, IsLine line) :
    lines (unlines list) = list := by
  induction list with
  | nil => rfl
  | cons line rest ih =>
      rw [unlines_cons, lines_append_newline (h line List.mem_cons_self),
        ih (fun other hother => h other (List.mem_cons_of_mem line hother))]

/-! ### Texts that are cut off -/

/-- A text without a line feed is one line. -/
theorem lines_of_notMem {line : List Char} (hne : line ≠ []) (h : '\n' ∉ line) :
    lines line = [line] := by
  induction line with
  | nil => exact absurd rfl hne
  | cons c rest ih =>
      rw [List.mem_cons, not_or] at h
      have hreturn : ¬(c = '\r' ∧ rest.head? = some '\n') := by
        rintro ⟨-, hhead⟩
        exact h.2 (List.mem_of_head? hhead)
      rw [lines_cons (Ne.symm h.1) hreturn]
      by_cases hrest : rest = []
      · rw [hrest, lines, consLine]
      · rw [ih hrest h.2, consLine]

/-- The last line may lack its end. -/
theorem lines_unlines_append {list : List (List Char)} (h : ∀ line ∈ list, IsLine line)
    {last : List Char} (hne : last ≠ []) (hlast : '\n' ∉ last) :
    lines (unlines list ++ last) = list ++ [last] := by
  induction list with
  | nil => exact lines_of_notMem hne hlast
  | cons line rest ih =>
      rw [unlines_cons, List.append_assoc, List.cons_append,
        lines_append_newline (h line List.mem_cons_self),
        ih (fun other hother => h other (List.mem_cons_of_mem line hother)), List.cons_append]

/-- Each line of a front of some lines is a front of one of them. -/
theorem exists_prefix_of_mem_lines {list : List (List Char)}
    (hlist : ∀ line ∈ list, IsLine line)
    {text : List Char} (h : text <+: unlines list) {line : List Char}
    (hline : line ∈ lines text) :
    ∃ whole ∈ list, line <+: whole := by
  induction list generalizing text with
  | nil =>
      rw [List.prefix_nil.mp h] at hline
      cases hline
  | cons first rest ih =>
      rw [List.forall_mem_cons] at hlist
      rw [unlines_cons] at h
      by_cases hshort : text.length ≤ first.length
      · have hfirst : text <+: first :=
          List.prefix_of_prefix_length_le h (List.prefix_append _ _) hshort
        have hne : text ≠ [] := by
          rintro rfl
          cases hline
        rw [lines_of_notMem hne fun hfeed => hlist.1.1 (hfirst.subset hfeed),
          List.mem_singleton] at hline
        exact ⟨first, List.mem_cons_self, hline ▸ hfirst⟩
      · -- The text goes beyond the end of the first line.
        have hend : first ++ ['\n'] <+: first ++ '\n' :: unlines rest :=
          ⟨unlines rest, by simp⟩
        have hlong : first ++ ['\n'] <+: text := by
          refine List.prefix_of_prefix_length_le hend h ?_
          rw [List.length_append, List.length_singleton]
          omega
        obtain ⟨back, rfl⟩ := hlong
        rw [List.append_assoc, List.singleton_append] at h hline
        rw [lines_append_newline hlist.1, List.mem_cons] at hline
        rw [List.prefix_append_right_inj, List.cons_prefix_cons] at h
        rcases hline with rfl | hline
        · exact ⟨_, List.mem_cons_self, List.prefix_rfl⟩
        · obtain ⟨whole, hwhole, hfront⟩ := ih hlist.2 h.2 hline
          exact ⟨whole, List.mem_cons_of_mem _ hwhole, hfront⟩

end Keyring.Text
