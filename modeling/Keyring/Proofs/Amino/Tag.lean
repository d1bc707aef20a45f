import Keyring.Proofs.Amino
import Mathlib.Data.List.TakeWhile

/-!
The tag of a type is cut out of its digest behind two runs of zeros.

Two searches find the place of the cut. The second one begins behind the place that the first
one finds, perhaps behind the end of the digest. What is left from a place that a search finds
is what is left when zeros are dropped, so the places can be forgotten: `tagOfDigest?_eq`
speaks of dropped bytes only. All of this holds of every digest, also of one that no name is
known to have.
-/

namespace Keyring.Amino

def dropZeros (bytes : Bytes) : Bytes :=
  bytes.dropWhile (· = 0)

/-- The bytes that a tag is cut from: the digest without its leading zeros, then without three
bytes, then without the zeros that follow. -/
def tagSource (digest : Bytes) : Bytes :=
  dropZeros ((dropZeros digest).drop 3)

theorem dropZeros_replicate_append (count : ℕ) (bytes : Bytes) :
    dropZeros (List.replicate count 0 ++ bytes) = dropZeros bytes := by
  refine List.dropWhile_append_of_pos fun b hb => ?_
  simpa using List.eq_of_mem_replicate hb

theorem length_dropZeros_le (bytes : Bytes) : (dropZeros bytes).length ≤ bytes.length :=
  List.length_dropWhile_le _ _

theorem ne_zero_of_dropZeros_eq_cons {bytes rest : Bytes} {b : UInt8}
    (h : dropZeros bytes = b :: rest) : b ≠ 0 := by
  have hhead := List.head?_dropWhile_not (· = (0 : UInt8)) bytes
  rw [show bytes.dropWhile (· = 0) = b :: rest from h] at hhead
  exact of_decide_eq_false hhead

/-! ### Searching for a place -/

section Search

variable {bytes : Bytes} {start place : ℕ}

/-- A place that a search finds is one of the bytes, not before the place where it begins. -/
theorem bounds_of_firstNonzero? (h : firstNonzero? bytes start = some place) :
    start ≤ place ∧ place < bytes.length := by
  obtain ⟨i, hi, rfl⟩ := Option.map_eq_some_iff.mp h
  have hlt := (List.findIdx?_eq_some_iff_findIdx_eq.mp hi).1
  rw [List.length_drop] at hlt
  omega

/-- What a search leaves before the place that it finds are zeros. -/
theorem dropZeros_drop_of_some (h : firstNonzero? bytes start = some place) :
    dropZeros (bytes.drop start) = bytes.drop place := by
  obtain ⟨i, hi, rfl⟩ := Option.map_eq_some_iff.mp h
  have hindex := (List.findIdx?_eq_some_iff_findIdx_eq.mp hi).2
  rw [dropZeros, List.dropWhile_eq_drop_findIdx_not, List.drop_drop]
  simpa using congrArg (fun i => bytes.drop (start + i)) hindex

theorem dropZeros_drop_of_none (h : firstNonzero? bytes start = none) :
    dropZeros (bytes.drop start) = [] := by
  have hzeros := List.findIdx?_eq_none_iff.mp (Option.map_eq_none_iff.mp h)
  rw [dropZeros, List.dropWhile_eq_nil_iff]
  intro b hb
  simpa using hzeros b hb

theorem firstNonzero?_of_length_le (h : bytes.length ≤ start) :
    firstNonzero? bytes start = none := by
  simp [firstNonzero?, List.drop_eq_nil_of_le h]

/-- A search looks at one place and goes on behind it. -/
theorem firstNonzero?_of_lt (h : start < bytes.length) :
    firstNonzero? bytes start =
      if bytes[start] ≠ 0 then some start else firstNonzero? bytes (start + 1) := by
  rw [firstNonzero?, List.drop_eq_getElem_cons h, List.findIdx?_cons]
  by_cases hzero : bytes[start] = 0
  · simp only [hzero, ne_eq, not_true_eq_false, decide_false, Bool.false_eq_true, if_false,
      Option.map_map, firstNonzero?]
    congr 1
    funext i
    show start + (i + 1) = start + 1 + i
    omega
  · simp [hzero]

end Search

/-- The two searches and the cut give the first four bytes of what is left when zeros, three
bytes and zeros are dropped, if there are four. -/
theorem tagOfDigest?_eq (digest : Bytes) :
    tagOfDigest? digest = Block.ofBytes? tagLength ((tagSource digest).take tagLength) := by
  cases hfirst : firstNonzero? digest 0 with
  | none =>
      have hdrop : dropZeros digest = [] := dropZeros_drop_of_none hfirst
      rw [tagOfDigest?, tagSource, hfirst, hdrop]
      rfl
  | some first =>
      have hdrop : dropZeros digest = digest.drop first := dropZeros_drop_of_some hfirst
      -- Behind the end of the digest there is nothing to drop, and nothing to find.
      have hsource : tagSource digest = dropZeros (digest.drop (first + 3)) := by
        rw [tagSource, hdrop, List.drop_drop]
      cases hstart : firstNonzero? digest (first + 3) with
      | none =>
          rw [hsource, dropZeros_drop_of_none hstart, tagOfDigest?, hfirst]
          exact congrArg (Option.bind · _) hstart
      | some start =>
          rw [hsource, dropZeros_drop_of_some hstart]
          simp [tagOfDigest?, hfirst, hstart]

theorem tagOfDigest?_eq_some_iff {digest : Bytes} {tag : Block tagLength} :
    tagOfDigest? digest = some tag ↔
      4 ≤ (tagSource digest).length ∧ tag.bytes = (tagSource digest).take 4 := by
  rw [tagOfDigest?_eq, Block.ofBytes?_eq_some_iff]
  constructor
  · intro h
    have hlength := tag.length_bytes
    rw [← h, List.length_take] at hlength
    exact ⟨inf_eq_left.mp hlength, h.symm⟩
  · rintro ⟨-, h⟩
    exact h.symm

theorem tagOfDigest?_eq_none_iff {digest : Bytes} :
    tagOfDigest? digest = none ↔ (tagSource digest).length < 4 := by
  rw [tagOfDigest?_eq, Block.ofBytes?_eq_none_iff, List.length_take, tagLength]
  omega

/-- Behind zeros a tag takes seven bytes: the three that are skipped and four of its own. -/
theorem tagOfDigest?_of_late {count : ℕ} {back : Bytes} (h : back.length < 7) :
    tagOfDigest? (List.replicate count 0 ++ back) = none := by
  rw [tagOfDigest?_eq_none_iff, tagSource, dropZeros_replicate_append]
  have hback := length_dropZeros_le back
  have hrest := length_dropZeros_le ((dropZeros back).drop 3)
  rw [List.length_drop] at hrest
  omega

theorem exists_head_of_tagOfDigest? {digest : Bytes} {tag : Block tagLength}
    (h : tagOfDigest? digest = some tag) : ∃ b, tag.bytes.head? = some b ∧ b ≠ 0 := by
  obtain ⟨hlength, htag⟩ := tagOfDigest?_eq_some_iff.mp h
  have hpos : 0 < (tagSource digest).length := by omega
  obtain ⟨b, rest, hsource⟩ := List.exists_cons_of_length_pos hpos
  refine ⟨b, ?_, ne_zero_of_dropZeros_eq_cons hsource⟩
  rw [htag, hsource]
  rfl

section TypeTag

variable {typeName : String}

theorem typeTag_eq_ok_iff {tag : Block tagLength} :
    typeTag typeName = .ok tag ↔
      tagOfDigest? (Sha256.digest (Bytes.ofString typeName)).bytes = some tag := by
  rw [typeTag]
  cases tagOfDigest? (Sha256.digest (Bytes.ofString typeName)).bytes with
  | none => simp
  | some found => simp

theorem typeTag_eq_error_iff {e : KeyError} :
    typeTag typeName = .error e ↔
      tagOfDigest? (Sha256.digest (Bytes.ofString typeName)).bytes = none ∧
        e = .noTypeTag := by
  rw [typeTag]
  cases tagOfDigest? (Sha256.digest (Bytes.ofString typeName)).bytes with
  | none => simp [eq_comm]
  | some found => simp

end TypeTag

/-! ### Reads and cuts -/

theorem slice?_add {bytes : Bytes} {start count : ℕ} (h : start + count ≤ bytes.length) :
    slice? bytes start (start + count) = some ((bytes.drop start).take count) := by
  rw [slice?, if_pos ⟨Nat.le_add_right _ _, h⟩, Nat.add_sub_cancel_left]

/-- A tag is a piece of the digest. -/
theorem exists_slice_of_tagOfDigest? {digest : Bytes} {tag : Block tagLength}
    (h : tagOfDigest? digest = some tag) :
    ∃ start, start + tagLength ≤ digest.length ∧
      slice? digest start (start + tagLength) = some tag.bytes := by
  obtain ⟨first, -, h⟩ := Option.bind_eq_some_iff.mp h
  obtain ⟨start, -, h⟩ := Option.bind_eq_some_iff.mp h
  have hcut := Block.ofBytes?_eq_some_iff.mp h
  have hfits : start + tagLength ≤ digest.length := by
    have hlength := tag.length_bytes
    rw [← hcut, List.length_take, List.length_drop, tagLength] at hlength
    rw [tagLength]
    omega
  exact ⟨start, hfits, hcut ▸ slice?_add hfits⟩

/-- `firstNonzero?` one read after the other, up to the end, none if a read is out of
bounds. -/
def firstNonzeroByReads (bytes : Bytes) (start : ℕ) : Option (Option ℕ) :=
  if start < bytes.length then
    match bytes[start]? with
    | none => none
    | some b => if b ≠ 0 then some (some start) else firstNonzeroByReads bytes (start + 1)
  else some none
termination_by bytes.length - start

theorem firstNonzeroByReads_eq (bytes : Bytes) (start : ℕ) :
    firstNonzeroByReads bytes start = some (firstNonzero? bytes start) := by
  fun_induction firstNonzeroByReads bytes start with
  | case1 start h hread => simp [h] at hread
  | case2 start h b hread hb =>
      obtain ⟨_, rfl⟩ := List.getElem?_eq_some_iff.mp hread
      rw [firstNonzero?_of_lt h, if_pos hb]
  | case3 start h b hread hb ih =>
      obtain ⟨_, rfl⟩ := List.getElem?_eq_some_iff.mp hread
      rw [firstNonzero?_of_lt h, if_neg hb, ih]
  | case4 start h => rw [firstNonzero?_of_length_le (not_lt.mp h)]

/-- `tagOfDigest?` with its reads and its cut, none if one of them is out of bounds. There is
no cut where four bytes do not fit. -/
def tagOfDigestByReads (digest : Bytes) : Option (Option (Block tagLength)) := do
  let some first ← firstNonzeroByReads digest 0 | some none
  let some start ← firstNonzeroByReads digest (first + 3) | some none
  if start + tagLength ≤ digest.length then
    let window ← slice? digest start (start + tagLength)
    some (Block.ofBytes? tagLength window)
  else some none

theorem tagOfDigestByReads_eq (digest : Bytes) :
    tagOfDigestByReads digest = some (tagOfDigest? digest) := by
  rw [tagOfDigestByReads, tagOfDigest?, firstNonzeroByReads_eq]
  cases hfirst : firstNonzero? digest 0 with
  | none => rfl
  | some first =>
      simp only [Option.bind_eq_bind, Option.bind_some, firstNonzeroByReads_eq]
      cases hstart : firstNonzero? digest (first + 3) with
      | none => rfl
      | some start =>
          simp only [Option.bind_some]
          split
          · rename_i hfits
            rw [slice?_add hfits]
            rfl
          · -- The cut begins at a byte of the digest, so there are some to take, but too few.
            rename_i hfits
            have hstart_lt := (bounds_of_firstNonzero? hstart).2
            have hshort : ((digest.drop start).take tagLength).length ≠ tagLength := by
              rw [List.length_take, List.length_drop]
              omega
            rw [Block.ofBytes?_eq_none_iff.mpr hshort]

/-- The tag of a type is the first four bytes of what is left of the digest of its name when
leading zeros, three bytes and leading zeros again are dropped. If fewer than four are left
there is no tag, and no other reason for that. Every digest is searched in this way: its tag
is a piece of it that does not start with a zero, it has none if only zeros come before the
last six bytes, each place that is found is one of its bytes, and no read or cut is out of
bounds. -/
theorem tag_is_cut_behind_leading_zeros (digest : Digest) :
    (∀ typeName, Sha256.digest (Bytes.ofString typeName) = digest →
      (∀ tag, typeTag typeName = .ok tag ↔
        4 ≤ (tagSource digest.bytes).length ∧ tag.bytes = (tagSource digest.bytes).take 4) ∧
      ∀ e, typeTag typeName = .error e ↔
        (tagSource digest.bytes).length < 4 ∧ e = .noTypeTag) ∧
    (∀ tag, tagOfDigest? digest.bytes = some tag ↔
      4 ≤ (tagSource digest.bytes).length ∧ tag.bytes = (tagSource digest.bytes).take 4) ∧
    (∀ tag, tagOfDigest? digest.bytes = some tag →
      (∃ b, tag.bytes.head? = some b ∧ b ≠ 0) ∧
      ∃ start, start + 4 ≤ 32 ∧ slice? digest.bytes start (start + 4) = some tag.bytes) ∧
    (∀ count back, digest.bytes = List.replicate count 0 ++ back → back.length < 7 →
      tagOfDigest? digest.bytes = none) ∧
    (∀ start place, firstNonzero? digest.bytes start = some place →
      start ≤ place ∧ place < 32) ∧
    tagOfDigestByReads digest.bytes = some (tagOfDigest? digest.bytes) := by
  refine ⟨?_, ?_, ?_, ?_, ?_, ?_⟩
  · rintro typeName rfl
    constructor
    · intro tag
      rw [typeTag_eq_ok_iff, tagOfDigest?_eq_some_iff]
    · intro e
      rw [typeTag_eq_error_iff, tagOfDigest?_eq_none_iff]
  · intro tag
    exact tagOfDigest?_eq_some_iff
  · intro tag htag
    obtain ⟨start, hfits, hslice⟩ := exists_slice_of_tagOfDigest? htag
    rw [digest.length_bytes] at hfits
    exact ⟨exists_head_of_tagOfDigest? htag, start, hfits, hslice⟩
  · intro count back hdigest hback
    rw [hdigest]
    exact tagOfDigest?_of_late hback
  · intro start place h
    rw [← digest.length_bytes]
    exact bounds_of_firstNonzero? h
  · exact tagOfDigestByReads_eq digest.bytes

/-- The tag of public keys, the tag of a digest that has its seven last bytes to give, and a
digest of zeros up to its last byte, which is found and leaves no tag. -/
theorem tag_is_cut_behind_leading_zeros_last :
    (tagSource (Sha256.digest (Bytes.ofString publicKeyType)).bytes).take 4 =
        [0xeb, 0x5a, 0xe9, 0x87] ∧
      tagOfDigest? (List.replicate 25 0 ++ [1, 2, 3, 4, 5, 6, 7]) = some ⟨[4, 5, 6, 7], rfl⟩ ∧
      (∃ b, ([4, 5, 6, 7] : Bytes).head? = some b ∧ b ≠ 0) ∧
      (∃ start, start + 4 ≤ 32 ∧
        slice? (List.replicate 25 0 ++ [1, 2, 3, 4, 5, 6, 7]) start (start + 4) =
          some [4, 5, 6, 7]) ∧
      firstNonzero? (List.replicate 31 0 ++ [1]) 0 = some 31 ∧ 31 < 32 ∧
      tagOfDigest? (List.replicate 31 0 ++ [1]) = none := by
  obtain ⟨hname, -⟩ :=
    tag_is_cut_behind_leading_zeros (Sha256.digest (Bytes.ofString publicKeyType))
  obtain ⟨-, hseven, hpiece, -⟩ :=
    tag_is_cut_behind_leading_zeros ⟨List.replicate 25 0 ++ [1, 2, 3, 4, 5, 6, 7], rfl⟩
  obtain ⟨-, -, -, hlate, hplace, -⟩ :=
    tag_is_cut_behind_leading_zeros ⟨List.replicate 31 0 ++ [1], rfl⟩
  have hkey := ((hname publicKeyType rfl).1 _).mp typeTag_publicKeyType
  have htag := (hseven ⟨[4, 5, 6, 7], rfl⟩).mpr ⟨by decide, by decide⟩
  have hfound : firstNonzero? (List.replicate 31 0 ++ [1]) 0 = some 31 := by decide
  obtain ⟨hnonzero, hslice⟩ := hpiece _ htag
  exact ⟨hkey.2.symm, htag, hnonzero, hslice, hfound, (hplace 0 31 hfound).2,
    hlate 31 [1] rfl (by decide)⟩

end Keyring.Amino
