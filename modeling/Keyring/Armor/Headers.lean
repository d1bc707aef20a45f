/-!
The headers of an envelope: values under distinct keys, kept in the order of the
keys.
-/

namespace Keyring.Armor

/-- Values under distinct keys, in the order of the keys. -/
structure Headers where
  entries : List (String × String)
  sorted : entries.Pairwise fun a b => a.1 < b.1
  deriving DecidableEq

namespace Headers

def empty : Headers := ⟨[], .nil⟩

def insertEntry (key value : String) : List (String × String) → List (String × String)
  | [] => [(key, value)]
  | entry :: rest =>
    if key < entry.1 then (key, value) :: entry :: rest
    else if key = entry.1 then (key, value) :: rest
    else entry :: insertEntry key value rest

theorem mem_insertEntry {key value : String} {entries : List (String × String)}
    {entry : String × String} (h : entry ∈ insertEntry key value entries) :
    entry = (key, value) ∨ entry ∈ entries := by
  induction entries with
  | nil => simpa [insertEntry] using h
  | cons first rest ih =>
    simp only [insertEntry] at h
    split at h
    · simpa using h
    · split at h
      · rcases List.mem_cons.1 h with h | h <;> simp [h]
      · rcases List.mem_cons.1 h with h | h
        · simp [h]
        · rcases ih h with h | h <;> simp [h]

theorem pairwise_insertEntry (key value : String) {entries : List (String × String)}
    (h : entries.Pairwise fun a b => a.1 < b.1) :
    (insertEntry key value entries).Pairwise fun a b => a.1 < b.1 := by
  induction entries with
  | nil => simp [insertEntry]
  | cons first rest ih =>
    obtain ⟨front, back⟩ := List.pairwise_cons.1 h
    simp only [insertEntry]
    split
    · rename_i lower
      refine List.pairwise_cons.2 ⟨fun entry mem => ?_, h⟩
      rcases List.mem_cons.1 mem with rfl | mem
      · exact lower
      · exact String.lt_trans lower (front entry mem)
    · rename_i notLower
      split
      · rename_i same
        exact List.pairwise_cons.2 ⟨fun entry mem => same ▸ front entry mem, back⟩
      · rename_i different
        refine List.pairwise_cons.2 ⟨fun entry mem => ?_, ih back⟩
        rcases mem_insertEntry mem with rfl | mem
        · exact Std.lt_of_le_of_ne (String.not_lt.1 notLower) (Ne.symm different)
        · exact front entry mem

def insert (headers : Headers) (key value : String) : Headers :=
  ⟨insertEntry key value headers.entries, pairwise_insertEntry key value headers.sorted⟩

def get? (headers : Headers) (key : String) : Option String :=
  headers.entries.lookup key

end Headers

end Keyring.Armor
