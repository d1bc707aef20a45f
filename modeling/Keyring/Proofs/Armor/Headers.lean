import Keyring.Armor.Headers
import Keyring.Proofs.Lookup
import Mathlib.Data.List.Sort

/-!
Setting and reading headers.

Headers are known by the values that are looked up in them, and after any number of
settings the last one of a key is what is looked up.
-/

namespace Keyring.Armor.Headers

@[ext] theorem ext {headers other : Headers} (h : headers.entries = other.entries) :
    headers = other := by
  cases headers
  cases other
  simpa using h

/-- A key above all others goes to the end. -/
theorem insertEntry_of_lt {key value : String} {entries : List (String × String)}
    (h : ∀ entry ∈ entries, entry.1 < key) :
    insertEntry key value entries = entries ++ [(key, value)] := by
  induction entries with
  | nil => rfl
  | cons first rest ih =>
      have hfirst : first.1 < key := h first List.mem_cons_self
      have hnot : ¬key < first.1 := String.lt_asymm hfirst
      have hne : key ≠ first.1 := by
        rintro rfl
        exact String.lt_irrefl _ hfirst
      rw [insertEntry, if_neg hnot, if_neg hne,
        ih (fun entry hentry => h entry (List.mem_cons_of_mem first hentry)), List.cons_append]

theorem lookup_insertEntry (key value : String) (entries : List (String × String))
    (other : String) :
    (insertEntry key value entries).lookup other =
      if other = key then some value else entries.lookup other := by
  induction entries with
  | nil => rw [insertEntry, lookup_cons]
  | cons first rest ih =>
      rw [insertEntry]
      split
      · rw [lookup_cons]
      · split
        · rename_i h
          rw [lookup_cons, lookup_cons, ← h]
          split <;> rfl
        · rename_i h
          rw [lookup_cons, lookup_cons, ih]
          -- The new key and the first one differ, so at most one of them is looked up.
          split
          · rename_i hother
            rw [if_neg (hother ▸ Ne.symm h)]
          · rfl

theorem get?_insert (headers : Headers) (key value other : String) :
    (headers.insert key value).get? other =
      if other = key then some value else headers.get? other :=
  lookup_insertEntry key value headers.entries other

/-- In the order of the keys no key stands twice. -/
theorem lookup_eq_some_iff_mem {entries : List (String × String)}
    (h : entries.Pairwise fun a b => a.1 < b.1) {key value : String} :
    entries.lookup key = some value ↔ (key, value) ∈ entries := by
  induction entries with
  | nil => simp
  | cons first rest ih =>
      obtain ⟨hfirst, hrest⟩ := List.pairwise_cons.mp h
      rw [lookup_cons, List.mem_cons]
      split
      · rename_i hkey
        have hnotMem : (key, value) ∉ rest := by
          intro hmem
          have hlt : first.1 < key := hfirst (key, value) hmem
          exact String.lt_irrefl _ (hkey ▸ hlt)
        rw [or_iff_left hnotMem]
        simp [Prod.ext_iff, hkey, eq_comm]
      · rename_i hkey
        simp [ih hrest, Prod.ext_iff, hkey]

/-- Headers with the same values under all keys are the same. -/
theorem ext_get? {headers other : Headers} (h : ∀ key, headers.get? key = other.get? key) :
    headers = other := by
  have hirrefl : Std.Irrefl fun a b : String × String => a.1 < b.1 :=
    ⟨fun a => String.lt_irrefl a.1⟩
  have hantisymm : Std.Antisymm fun a b : String × String => a.1 < b.1 :=
    ⟨fun a b hab hba => absurd hba (String.lt_asymm hab)⟩
  apply ext
  apply headers.sorted.eq_of_mem_iff other.sorted
  intro entry
  rw [← lookup_eq_some_iff_mem headers.sorted, ← lookup_eq_some_iff_mem other.sorted]
  exact Eq.congr_left (h entry.1)

/-! ### Many settings -/

def insertAll (headers : Headers) (settings : List (String × String)) : Headers :=
  settings.foldl (fun headers setting => headers.insert setting.1 setting.2) headers

/-- Entries in the order of their keys go to the end one after the other. -/
theorem insertAll_eq_of_entries {headers whole : Headers} {entries : List (String × String)}
    (h : whole.entries = headers.entries ++ entries) : headers.insertAll entries = whole := by
  induction entries generalizing headers with
  | nil =>
      rw [List.append_nil] at h
      exact (ext h).symm
  | cons entry rest ih =>
      have hsorted := whole.sorted
      rw [h] at hsorted
      have hlast : ∀ other ∈ headers.entries, other.1 < entry.1 := fun other hother =>
        (List.pairwise_append.mp hsorted).2.2 other hother entry List.mem_cons_self
      have hinsert : (headers.insert entry.1 entry.2).entries = headers.entries ++ [entry] :=
        insertEntry_of_lt hlast
      apply ih
      rw [hinsert, h, List.append_assoc, List.singleton_append]

theorem mem_insertAll {headers : Headers} {settings : List (String × String)}
    {entry : String × String} (h : entry ∈ (headers.insertAll settings).entries) :
    entry ∈ settings ∨ entry ∈ headers.entries := by
  induction settings generalizing headers with
  | nil => exact .inr h
  | cons setting rest ih =>
      rcases ih h with hrest | hinsert
      · exact .inl (List.mem_cons_of_mem setting hrest)
      · rcases mem_insertEntry hinsert with rfl | hbefore
        · exact .inl List.mem_cons_self
        · exact .inr hbefore

def lastValue? (settings : List (String × String)) (key : String) : Option String :=
  settings.reverse.lookup key

theorem lastValue?_cons (setting : String × String) (rest : List (String × String))
    (key : String) :
    lastValue? (setting :: rest) key =
      (lastValue? rest key).or (if key = setting.1 then some setting.2 else none) := by
  rw [lastValue?, List.reverse_cons, List.lookup_append, lookup_cons, List.lookup_nil]
  rfl

/-- What other keys are set to makes no difference. -/
theorem lastValue?_insert {setting : String × String} {key : String} (h : key ≠ setting.1)
    (front back : List (String × String)) :
    lastValue? (front ++ setting :: back) key = lastValue? (front ++ back) key := by
  induction front with
  | nil => rw [List.nil_append, List.nil_append, lastValue?_cons, if_neg h, Option.or_none]
  | cons first front ih =>
      rw [List.cons_append, List.cons_append, lastValue?_cons, lastValue?_cons, ih]

theorem get?_insertAll (headers : Headers) (settings : List (String × String)) (key : String) :
    (headers.insertAll settings).get? key =
      (lastValue? settings key).or (headers.get? key) := by
  induction settings generalizing headers with
  | nil => rfl
  | cons setting rest ih =>
      have hstep : (headers.insertAll (setting :: rest)) =
          (headers.insert setting.1 setting.2).insertAll rest := rfl
      rw [hstep, ih, get?_insert, lastValue?_cons, Option.or_assoc]
      split <;> rfl

/-- What empty headers become is known by the last value of each key. -/
theorem eq_insertAll_empty_iff {headers : Headers} {settings : List (String × String)} :
    headers = empty.insertAll settings ↔
      ∀ key, headers.get? key = lastValue? settings key := by
  have hempty : ∀ key, (empty.insertAll settings).get? key = lastValue? settings key := by
    intro key
    rw [get?_insertAll]
    exact Option.or_none
  constructor
  · rintro rfl
    exact hempty
  · intro h
    apply ext_get?
    intro key
    rw [h key, hempty key]

end Keyring.Armor.Headers
