import Keyring.Proofs.Text.Blank
import Mathlib.Data.List.Chain

/-!
Texts as sequences of words. The words of a text, joined by single spaces again, are
the text itself exactly if it has no other white space than that.
-/

namespace Keyring.Text

def IsWord (word : List Char) : Prop :=
  word ≠ [] ∧ ∀ c ∈ word, isBlank c = false

instance (word : List Char) : Decidable (IsWord word) :=
  decidable_of_iff (word ≠ [] ∧ word.all (!isBlank ·) = true) (by simp [IsWord])

def spaced (words : List (List Char)) : List Char :=
  [' '].intercalate words

structure IsSingleSpaced (text : List Char) : Prop where
  eq_space : ∀ c ∈ text, isBlank c = true → c = ' '
  head : ∀ c, text.head? = some c → isBlank c = false
  last : ∀ c, text.getLast? = some c → isBlank c = false
  apart : text.IsChain fun c d => isBlank c = true → isBlank d = false

theorem IsWord.head {word : List Char} (h : IsWord word) (rest : List Char) :
    ∀ c, (word ++ rest).head? = some c → isBlank c = false := by
  intro c hc
  rw [List.head?_append_of_ne_nil _ h.1] at hc
  exact h.2 c (List.mem_of_head? hc)

theorem isBlank_space : isBlank ' ' = true := by decide

/-! ### Splitting -/

theorem words_blank {c : Char} (hc : isBlank c = true) (rest : List Char) :
    words (c :: rest) = words rest := by
  rw [words, if_pos hc]

/-- A word ends where the text does or white space follows. -/
theorem words_append {word rest : List Char} (hword : IsWord word)
    (hrest : ∀ c, rest.head? = some c → isBlank c = true) :
    words (word ++ rest) = word :: words rest := by
  induction word with
  | nil => exact absurd rfl hword.1
  | cons c word ih =>
      obtain ⟨hc, hblank⟩ := List.forall_mem_cons.mp hword.2
      cases word with
      | nil =>
          have hend : rest.head?.all isBlank = true := by
            rw [Option.all_eq_true]
            exact hrest
          rw [List.singleton_append, words, hc, if_neg Bool.false_ne_true, if_pos hend]
      | cons d word =>
          have hd : isBlank d = false := hblank d List.mem_cons_self
          rw [List.cons_append, words, hc, if_neg Bool.false_ne_true,
            ih ⟨List.cons_ne_nil d word, hblank⟩]
          simp [hd, consWord]

theorem words_of_isWord {word : List Char} (h : IsWord word) : words word = [word] := by
  have hwords : words (word ++ []) = [word] := words_append h (by simp)
  rwa [List.append_nil] at hwords

/-! ### Joining -/

theorem spaced_singleton (word : List Char) : spaced [word] = word :=
  List.intercalate_singleton

theorem spaced_cons (word : List Char) {rest : List (List Char)} (h : rest ≠ []) :
    spaced (word :: rest) = word ++ ' ' :: spaced rest := by
  rw [spaced, List.intercalate_cons_of_ne_nil h, List.append_assoc]
  rfl

/-- Words are read as they were joined. -/
theorem words_spaced {list : List (List Char)} (h : ∀ word ∈ list, IsWord word) :
    words (spaced list) = list := by
  induction list with
  | nil => rfl
  | cons word rest ih =>
      obtain ⟨hword, hrest⟩ := List.forall_mem_cons.mp h
      by_cases hend : rest = []
      · rw [hend, spaced_singleton, words_of_isWord hword]
      · rw [spaced_cons word hend, words_append hword (by simp [isBlank_space]),
          words_blank isBlank_space, ih hrest]

theorem spaced_ne_nil {list : List (List Char)} (h : ∀ word ∈ list, IsWord word)
    (hne : list ≠ []) : spaced list ≠ [] := by
  intro hnil
  have hwords := words_spaced h
  rw [hnil, words] at hwords
  exact hne hwords.symm

/-! ### From word to word -/

/-- Passing over white space and words by turns: the induction along which a text
falls into words. -/
theorem words_induction {motive : List Char → Prop} (nil : motive [])
    (blank : ∀ c rest, isBlank c = true → motive rest → motive (c :: rest))
    (word : ∀ word rest, IsWord word → (∀ c, rest.head? = some c → isBlank c = true) →
      motive rest → motive (word ++ rest))
    (text : List Char) : motive text := by
  match text with
  | [] => exact nil
  | c :: text =>
      cases hc : isBlank c with
      | true => exact blank c text hc (words_induction nil blank word text)
      | false =>
          have hword : IsWord (c :: text.takeWhile (!isBlank ·)) := by
            refine ⟨List.cons_ne_nil _ _, List.forall_mem_cons.mpr ⟨hc, fun d hd => ?_⟩⟩
            simpa using List.all_eq_true.mp List.all_takeWhile d hd
          have hrest : ∀ d, (text.dropWhile (!isBlank ·)).head? = some d →
              isBlank d = true := by
            intro d hd
            have hstop := List.head?_dropWhile_not (!isBlank ·) text
            rw [hd] at hstop
            simpa using hstop
          have hwhole := word _ _ hword hrest
            (words_induction nil blank word (text.dropWhile (!isBlank ·)))
          rwa [List.cons_append, List.takeWhile_append_dropWhile] at hwhole
termination_by text.length
decreasing_by
  · exact Nat.lt_succ_of_le (List.dropWhile_suffix _).length_le
  · exact Nat.lt_succ_self _

theorem isWord_of_mem_words {text : List Char} : ∀ word ∈ words text, IsWord word := by
  induction text using words_induction with
  | nil => simp [words]
  | blank c rest hc ih => rwa [words_blank hc]
  | word word rest hword hrest ih =>
      rw [words_append hword hrest]
      exact List.forall_mem_cons.mpr ⟨hword, ih⟩

/-- Every character that is no white space is in a word. -/
theorem exists_mem_words {text : List Char} {c : Char} (h : c ∈ text)
    (hc : isBlank c = false) :
    ∃ word ∈ words text, c ∈ word := by
  induction text using words_induction with
  | nil => cases h
  | blank d rest hd ih =>
      rw [words_blank hd]
      rcases List.mem_cons.mp h with rfl | h
      · rw [hc] at hd
        cases hd
      · exact ih h
  | word word rest hword hrest ih =>
      rw [words_append hword hrest]
      rcases List.mem_append.mp h with h | h
      · exact ⟨word, List.mem_cons_self, h⟩
      · obtain ⟨other, hother, hmem⟩ := ih h
        exact ⟨other, List.mem_cons_of_mem _ hother, hmem⟩

/-- The words of a text, joined by single spaces, have no more bytes than the text, and
fewer if it starts with white space. -/
theorem length_spaced_words_le (text : List Char) :
    ((spaced (words text)).flatMap String.utf8EncodeChar).length +
        (if text.head?.any isBlank then 1 else 0) ≤
      (text.flatMap String.utf8EncodeChar).length := by
  -- White space at the start is counted for the space that joins the words to one before.
  induction text using words_induction with
  | nil => simp [words, spaced]
  | blank c rest hc ih =>
      have hpos : 0 < (String.utf8EncodeChar c).length := by
        rw [String.length_utf8EncodeChar]
        exact Char.utf8Size_pos c
      rw [words_blank hc, List.flatMap_cons, List.length_append, List.head?_cons,
        Option.any_some, if_pos hc]
      omega
  | word word rest hword hrest ih =>
      have hhead : ¬(word ++ rest).head?.any isBlank = true := by
        rw [Option.any_eq_true]
        rintro ⟨c, hc, hblank⟩
        rw [hword.head rest c hc] at hblank
        cases hblank
      rw [words_append hword hrest, if_neg hhead, List.flatMap_append, List.length_append]
      by_cases hend : words rest = []
      · rw [hend, spaced_singleton]
        omega
      · have hblank : rest.head?.any isBlank = true := by
          cases rest with
          | nil => exact absurd rfl hend
          | cons c tail => exact hrest c rfl
        rw [hblank, if_pos rfl] at ih
        rw [spaced_cons word hend, List.flatMap_append, List.flatMap_cons, List.length_append,
          List.length_append]
        have hspace : (String.utf8EncodeChar ' ').length = 1 := by decide
        omega

/-- Where white space is single spaces and does not end the text. -/
theorem trimStart_eq_spaced_words {text : List Char}
    (hspace : ∀ c ∈ text, isBlank c = true → c = ' ')
    (hlast : ∀ c, text.getLast? = some c → isBlank c = false)
    (hapart : text.IsChain fun c d => isBlank c = true → isBlank d = false) :
    trimStart text = spaced (words text) := by
  induction text using words_induction with
  | nil => rfl
  | blank c rest hc ih =>
      have hne : rest ≠ [] := by
        rintro rfl
        rw [hlast c rfl] at hc
        cases hc
      rw [words_blank hc, trimStart, List.dropWhile_cons, if_pos hc]
      refine ih (List.forall_mem_cons.mp hspace).2 (fun d hd => hlast d ?_)
        (List.isChain_cons.mp hapart).2
      rwa [List.getLast?_cons, List.getLast?_eq_some_getLast hne] at *
  | word word rest hword hrest ih =>
      rw [words_append hword hrest, trimStart_eq_self_iff.mpr (hword.head rest)]
      cases rest with
      | nil => rw [List.append_nil, words, spaced_singleton]
      | cons c tail =>
          obtain ⟨-, hchain, -⟩ := List.isChain_append.mp hapart
          have hc : isBlank c = true := hrest c rfl
          have hrestSpace : ∀ d ∈ c :: tail, isBlank d = true → d = ' ' := fun d hd =>
            hspace d (List.mem_append_right word hd)
          have hrestLast : ∀ d, (c :: tail).getLast? = some d → isBlank d = false :=
            fun d hd =>
            hlast d (by rw [List.getLast?_append, hd]; rfl)
          -- No more white space follows, so the text goes on with the next word.
          have htail : tail = spaced (words (c :: tail)) := by
            rw [← ih hrestSpace hrestLast hchain, trimStart, List.dropWhile_cons, if_pos hc]
            exact (trimStart_eq_self_iff.mpr fun d hd =>
              (List.isChain_cons.mp hchain).1 d hd hc).symm
          have hne : words (c :: tail) ≠ [] := by
            intro hnil
            rw [hnil] at htail
            rw [htail] at hrestLast
            rw [hrestLast c rfl] at hc
            cases hc
          rw [spaced_cons word hne, ← htail, hrestSpace c List.mem_cons_self hc]

theorem IsSingleSpaced.spaced_words {text : List Char} (h : IsSingleSpaced text) :
    spaced (words text) = text := by
  rw [← trimStart_eq_spaced_words h.eq_space h.last h.apart, trimStart_eq_self_iff.mpr h.head]

theorem IsWord.isSingleSpaced {word : List Char} (h : IsWord word) : IsSingleSpaced word where
  eq_space c hc hblank := by
    rw [h.2 c hc] at hblank
    cases hblank
  head := by
    have hhead := h.head []
    rwa [List.append_nil] at hhead
  last c hc := h.2 c (List.mem_of_getLast? hc)
  apart := List.Pairwise.isChain
    (List.pairwise_of_forall_mem_list fun _ _ d hd _ => h.2 d hd)

theorem IsSingleSpaced.append {word rest : List Char} (hword : IsWord word) (hne : rest ≠ [])
    (hrest : IsSingleSpaced rest) : IsSingleSpaced (word ++ ' ' :: rest) where
  eq_space c hc hblank := by
    rw [List.mem_append, List.mem_cons] at hc
    rcases hc with hc | rfl | hc
    · exact hword.isSingleSpaced.eq_space c hc hblank
    · rfl
    · exact hrest.eq_space c hc hblank
  head := hword.head _
  last c hc := by
    rw [List.getLast?_append, List.getLast?_cons, List.getLast?_eq_some_getLast hne] at hc
    exact hrest.last c (by rw [List.getLast?_eq_some_getLast hne]; exact hc)
  apart := by
    refine List.isChain_append.mpr ⟨hword.isSingleSpaced.apart,
      List.isChain_cons.mpr ⟨fun c hc _ => hrest.head c hc, hrest.apart⟩,
      fun c hc d _ hblank => ?_⟩
    rw [hword.2 c (List.mem_of_getLast? hc)] at hblank
    cases hblank

theorem isSingleSpaced_spaced {list : List (List Char)} (h : ∀ word ∈ list, IsWord word) :
    IsSingleSpaced (spaced list) := by
  induction list with
  | nil => exact ⟨by simp [spaced], by simp [spaced], by simp [spaced], .nil⟩
  | cons word rest ih =>
      obtain ⟨hword, hrest⟩ := List.forall_mem_cons.mp h
      by_cases hend : rest = []
      · rw [hend, spaced_singleton]
        exact hword.isSingleSpaced
      · rw [spaced_cons word hend]
        exact (ih hrest).append hword (spaced_ne_nil hrest hend)

/-- Joining the words of a text by single spaces leaves the text exactly if it is
single-spaced. -/
theorem spaced_words_eq_self_iff {text : List Char} :
    spaced (words text) = text ↔ IsSingleSpaced text := by
  constructor
  · intro h
    rw [← h]
    exact isSingleSpaced_spaced isWord_of_mem_words
  · exact IsSingleSpaced.spaced_words

instance (text : List Char) : Decidable (IsSingleSpaced text) :=
  decidable_of_iff _ spaced_words_eq_self_iff

end Keyring.Text
