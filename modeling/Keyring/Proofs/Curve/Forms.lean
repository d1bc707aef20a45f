import Keyring.Proofs.Curve.Encoding

/-!
The forms in which a point is written: compressed, full and hybrid.

A byte string is read as a point of the curve exactly if it is one of the forms of that
point. The full and the hybrid form name both coordinates. The compressed form names `x`
and the parity of `y`, and that is enough, since of the two points with one `x` exactly one
has an odd `y`.
-/

namespace Keyring

namespace Block

variable {m n : ℕ}

theorem bytes_eq_append_iff {both : Block (m + n)} {left : Block m} {right : Block n} :
    both.bytes = left.bytes ++ right.bytes ↔ both.left = left ∧ both.right = right := by
  rw [Block.ext_iff, Block.ext_iff, Block.left, Block.right]
  constructor
  · intro h
    simp only [h]
    exact ⟨List.take_left' left.length_bytes, List.drop_left' left.length_bytes⟩
  · rintro ⟨hleft, hright⟩
    rw [← hleft, ← hright, List.take_append_drop]

end Block

namespace Curve

inductive PointForm where
  | compressed
  | full
  | hybrid
  deriving DecidableEq

namespace PointForm

/-- The first byte of a form. In the compressed and the hybrid form it tells whether `y` is
odd. -/
def tag : PointForm → (odd : Bool) → UInt8
  | compressed, odd => if odd then 0x03 else 0x02
  | full, _ => 0x04
  | hybrid, odd => if odd then 0x07 else 0x06

def length : PointForm → ℕ
  | compressed => compressedLength
  | full => uncompressedLength
  | hybrid => uncompressedLength

end PointForm

namespace FieldElement

/-- The bytes of an element are the one block whose number is the element. -/
theorem toBlock_eq_iff {x : FieldElement} {block : Block 32} :
    x.toBlock = block ↔ x.val = block.toNat := by
  rw [← Block.toNat_inj, toNat_toBlock]

end FieldElement

namespace AffinePoint

variable {point : AffinePoint} {bytes : Bytes}

def coordinates (point : AffinePoint) : PointForm → Bytes
  | .compressed => point.x.toBlock.bytes
  | .full => point.x.toBlock.bytes ++ point.y.toBlock.bytes
  | .hybrid => point.x.toBlock.bytes ++ point.y.toBlock.bytes

def encode (point : AffinePoint) (form : PointForm) : Bytes :=
  form.tag point.y.isOdd :: point.coordinates form

/-- Whether a byte string is one of the forms of a point of the curve. -/
def HasForm (point : AffinePoint) (bytes : Bytes) : Prop :=
  point.OnCurve ∧ ∃ form, bytes = point.encode form

theorem length_encode (point : AffinePoint) (form : PointForm) :
    (point.encode form).length = form.length := by
  cases form <;> simp [encode, coordinates, PointForm.length, compressedLength,
    uncompressedLength]

theorem encode_compressed (point : AffinePoint) :
    point.encode .compressed = point.compress.bytes :=
  (bytes_compress point).symm

theorem encode_full (point : AffinePoint) : point.encode .full = point.uncompress.bytes := by
  rw [uncompress, Block.append, Block.append]
  rfl

/-! ### Reading a form -/

/-- Only the tags of the compressed form are read in front of one coordinate. -/
theorem exists_tag_of_ofCompressed? {tag : UInt8} {xs : Block 32}
    (h : ofCompressed? tag xs = some point) : ∃ odd, tag = PointForm.compressed.tag odd := by
  obtain ⟨x, -, hx⟩ := Option.bind_eq_some_iff.mp h
  split at hx
  · rename_i htag
    exact ⟨false, htag⟩
  · split at hx
    · rename_i htag
      exact ⟨true, htag⟩
    · cases hx

theorem ofCompressed?_eq_some_iff_encode {tag : UInt8} {xs : Block 32} :
    ofCompressed? tag xs = some point ↔
      point.OnCurve ∧ tag :: xs.bytes = point.encode .compressed := by
  have hencode : ∀ odd, tag = PointForm.compressed.tag odd →
      (tag :: xs.bytes = point.encode .compressed ↔
        point.x.val = xs.toNat ∧ point.y.isOdd = odd) := by
    rintro odd rfl
    rw [encode, coordinates, List.cons.injEq, ← FieldElement.toBlock_eq_iff, Block.ext_iff,
      eq_comm (a := xs.bytes), and_comm]
    cases odd <;> cases point.y.isOdd <;> simp [PointForm.tag]
  constructor
  · intro h
    obtain ⟨odd, htag⟩ := exists_tag_of_ofCompressed? h
    obtain ⟨hcurve, hx, hodd⟩ := (ofCompressed?_eq_some_iff htag).mp h
    exact ⟨hcurve, (hencode odd htag).mpr ⟨hx, hodd⟩⟩
  · rintro ⟨hcurve, h⟩
    have htag : tag = PointForm.compressed.tag point.y.isOdd := (List.cons.inj h).1
    exact (ofCompressed?_eq_some_iff htag).mpr ⟨hcurve, (hencode _ htag).mp h⟩

theorem ofUncompressed?_eq_some_iff {tag : UInt8} {xs ys : Block 32} :
    ofUncompressed? tag xs ys = some point ↔
      point.OnCurve ∧
        (tag = PointForm.full.tag point.y.isOdd ∨ tag = PointForm.hybrid.tag point.y.isOdd) ∧
        xs = point.x.toBlock ∧ ys = point.y.toBlock := by
  have htag : ∀ y : FieldElement, (tag = 0x04 ∨ tag = 0x06 ∧ y.isOdd = false ∨
      tag = 0x07 ∧ y.isOdd = true) ↔
        (tag = PointForm.full.tag y.isOdd ∨ tag = PointForm.hybrid.tag y.isOdd) := by
    intro y
    cases y.isOdd <;> simp [PointForm.tag]
  simp only [ofUncompressed?, htag, Option.bind_eq_bind, Option.bind_eq_some_iff,
    FieldElement.ofBlock?_eq_some_iff, Option.ite_none_right_eq_some, Option.some.injEq,
    ← FieldElement.toBlock_eq_iff]
  constructor
  · rintro ⟨x, hx, y, hy, ⟨hfits, hcurve⟩, rfl⟩
    exact ⟨hcurve, hfits, hx.symm, hy.symm⟩
  · rintro ⟨hcurve, hfits, hx, hy⟩
    exact ⟨point.x, hx.symm, point.y, hy.symm, ⟨hfits, hcurve⟩, rfl⟩

/-- Behind its tag a full or a hybrid form has both coordinates. -/
theorem ofUncompressed?_eq_some_iff_encode {tag : UInt8} {both : Block (32 + 32)} :
    ofUncompressed? tag both.left both.right = some point ↔
      point.OnCurve ∧ (tag :: both.bytes = point.encode .full ∨
        tag :: both.bytes = point.encode .hybrid) := by
  rw [ofUncompressed?_eq_some_iff, encode, encode, coordinates, coordinates, List.cons.injEq,
    List.cons.injEq, Block.bytes_eq_append_iff, ← or_and_right]

/-- The number of bytes tells the compressed form from the others. -/
theorem exists_encode_iff_of_length_compressed (h : bytes.length = compressedLength) :
    (∃ form, bytes = point.encode form) ↔ bytes = point.encode .compressed := by
  refine ⟨?_, fun heq => ⟨_, heq⟩⟩
  rintro ⟨form, rfl⟩
  rw [length_encode] at h
  cases form with
  | compressed => rfl
  | full => cases h
  | hybrid => cases h

theorem exists_encode_iff_of_length_ne (h : bytes.length ≠ compressedLength) :
    (∃ form, bytes = point.encode form) ↔
      bytes = point.encode .full ∨ bytes = point.encode .hybrid := by
  constructor
  · rintro ⟨form, rfl⟩
    cases form with
    | compressed => exact absurd (length_encode point .compressed) h
    | full => exact .inl rfl
    | hybrid => exact .inr rfl
  · rintro (heq | heq)
    · exact ⟨_, heq⟩
    · exact ⟨_, heq⟩

theorem HasForm.length_eq (h : point.HasForm bytes) :
    bytes.length = compressedLength ∨ bytes.length = uncompressedLength := by
  obtain ⟨-, form, rfl⟩ := h
  rw [length_encode]
  cases form with
  | compressed => exact .inl rfl
  | full => exact .inr rfl
  | hybrid => exact .inr rfl

/-- A byte string is read as a point exactly if it is one of the forms of the point. -/
theorem ofBytes?_eq_some_iff : ofBytes? bytes = some point ↔ point.HasForm bytes := by
  cases bytes with
  | nil => simp [ofBytes?, HasForm, encode]
  | cons tag rest =>
      rw [ofBytes?]
      cases hone : Block.ofBytes? 32 rest with
      | some xs =>
          obtain rfl := Block.ofBytes?_eq_some_iff.mp hone
          have hlength : (tag :: xs.bytes).length = compressedLength :=
            congrArg (· + 1) xs.length_bytes
          rw [HasForm, exists_encode_iff_of_length_compressed hlength]
          exact ofCompressed?_eq_some_iff_encode
      | none =>
          have hlength : (tag :: rest).length ≠ compressedLength := fun h =>
            Block.ofBytes?_eq_none_iff.mp hone (Nat.succ.inj h)
          cases htwo : Block.ofBytes? (32 + 32) rest with
          | some both =>
              obtain rfl := Block.ofBytes?_eq_some_iff.mp htwo
              rw [HasForm, exists_encode_iff_of_length_ne hlength]
              exact ofUncompressed?_eq_some_iff_encode
          | none =>
              simp only [reduceCtorEq, false_iff]
              intro h
              have hlong := h.length_eq.resolve_left hlength
              exact Block.ofBytes?_eq_none_iff.mp htwo (Nat.succ.inj hlong)

/-- No byte string is a form of two points. -/
theorem HasForm.unique {other : AffinePoint} (h : point.HasForm bytes)
    (hother : other.HasForm bytes) : point = other := by
  rw [← ofBytes?_eq_some_iff] at h hother
  exact Option.some.inj (h.symm.trans hother)

theorem hasForm_compress (h : point.OnCurve) : point.HasForm point.compress.bytes :=
  ⟨h, .compressed, (encode_compressed point).symm⟩

theorem hasForm_uncompress (h : point.OnCurve) : point.HasForm point.uncompress.bytes :=
  ⟨h, .full, (encode_full point).symm⟩

/-- The compressed form of a point of the curve is that of no other. -/
theorem compress_inj {other : AffinePoint} (h : point.OnCurve) (hother : other.OnCurve) :
    point.compress = other.compress ↔ point = other := by
  constructor
  · intro hsame
    have hbytes : other.HasForm point.compress.bytes := by
      rw [hsame]
      exact hasForm_compress hother
    exact (hasForm_compress h).unique hbytes
  · rintro rfl
    rfl

end AffinePoint

end Curve

end Keyring
