import Keyring.Key.Derivation
import Keyring.Proofs.Key.Private
import Keyring.Proofs.Outcome

/-!
The keys of a tree are usable.

A digest gives a key or a tweak only if it starts with the bytes of a usable scalar. The
key of a child is the sum of such a tweak and the key of its parent, and there is a child
only if that sum is not zero. So a step down the tree leads to a usable key, and a path of
steps does if it starts at one.
-/

namespace Keyring

open Curve

theorem PrivateKey.ofScalar?_eq_some_iff {scalar : Scalar} {key : PrivateKey} :
    ofScalar? scalar = some key ↔ scalar ≠ 0 ∧ ⟨scalar.toBlock⟩ = key := by
  rw [ofScalar?, Option.ite_none_left_eq_some, Option.some.injEq]

namespace ExtendedKey

/-- What a seed can give. -/
theorem master_eq_ok_iff {seed : Bytes} {root : ExtendedKey} :
    master seed = .ok root ↔ seed ≠ [] ∧
      Scalar.isUsable (mac masterLabel seed).left = true ∧
      root = ⟨0, ⟨(mac masterLabel seed).left⟩, (mac masterLabel seed).right⟩ := by
  rw [master]
  split
  · rename_i hempty
    simp [List.isEmpty_iff.mp hempty]
  · rename_i hseed
    rw [List.isEmpty_iff] at hseed
    simp only
    split
    · rename_i scalar hscalar
      have husable := (Scalar.ofBlock?_eq_some_iff.mp hscalar).1
      simp [hseed, husable, eq_comm]
    · rename_i hnone
      simp only [reduceCtorEq, false_iff]
      rintro ⟨-, husable, -⟩
      rw [Scalar.ofBlock?_of_isUsable husable] at hnone
      cases hnone

/-! ### One step -/

def childDigest (parent : ExtendedKey) (number : ChildNumber) : Block (32 + 32) :=
  mac parent.chainCode.bytes
    (parent.childMaterial number ++ Bytes.ofNat 4 number.raw.toNat)

def childScalar (parent : ExtendedKey) (number : ChildNumber) : Scalar :=
  Scalar.ofBlock (parent.childDigest number).left + parent.key.scalar

def childKey? (parent : ExtendedKey) (number : ChildNumber) : Option PrivateKey := do
  let tweak ← Scalar.ofBlock? (parent.childDigest number).left
  PrivateKey.ofScalar? (tweak + parent.key.scalar)

variable {parent next : ExtendedKey} {number : ChildNumber} {key : PrivateKey}

theorem childKey?_eq_some_iff :
    parent.childKey? number = some key ↔
      Scalar.isUsable (parent.childDigest number).left = true ∧
        parent.childScalar number ≠ 0 ∧ key = ⟨(parent.childScalar number).toBlock⟩ := by
  rw [childKey?, Option.bind_eq_bind, Option.bind_eq_some_iff]
  constructor
  · rintro ⟨tweak, htweak, hkey⟩
    obtain ⟨husable, rfl⟩ := Scalar.ofBlock?_eq_some_iff.mp htweak
    obtain ⟨hscalar, rfl⟩ := PrivateKey.ofScalar?_eq_some_iff.mp hkey
    exact ⟨husable, hscalar, rfl⟩
  · rintro ⟨husable, hscalar, rfl⟩
    exact ⟨_, Scalar.ofBlock?_of_isUsable husable,
      PrivateKey.ofScalar?_eq_some_iff.mpr ⟨hscalar, rfl⟩⟩

/-- All that one step down the tree can do. -/
theorem child_eq_ok_iff :
    parent.child number = .ok next ↔ parent.depth ≠ maxDepth ∧
      parent.childKey? number = some next.key ∧ next.depth = parent.depth + 1 ∧
        next.chainCode = (parent.childDigest number).right := by
  rw [child]
  split
  · rename_i hdepth
    simp [hdepth]
  · rename_i hdepth
    simp only
    split
    · rename_i key hkey
      change parent.childKey? number = some key at hkey
      rw [hkey, Except.ok.injEq]
      constructor
      · rintro rfl
        exact ⟨hdepth, rfl, rfl, rfl⟩
      · rintro ⟨-, hsame, hnext, hcode⟩
        cases next
        cases hsame
        cases hnext
        cases hcode
        rfl
    · rename_i hnone
      change parent.childKey? number = none at hnone
      simp [hnone]

/-- A child is usable, whatever its parent is. -/
theorem isUsable_of_child (h : parent.child number = .ok next) :
    Scalar.isUsable next.key.secret = true := by
  obtain ⟨-, hkey, -, -⟩ := child_eq_ok_iff.mp h
  obtain ⟨-, hscalar, hsecret⟩ := childKey?_eq_some_iff.mp hkey
  rw [hsecret]
  exact Scalar.isUsable_toBlock.mpr hscalar

/-! ### Paths -/

/-- A path that starts at a usable key leads to one. -/
theorem isUsable_of_descend {path : List ChildNumber}
    (hparent : Scalar.isUsable parent.key.secret = true) (h : parent.descend path = .ok key) :
    Scalar.isUsable key.secret = true := by
  induction path generalizing parent with
  | nil =>
      cases h
      exact hparent
  | cons number rest ih =>
      obtain ⟨next, hchild, hrest⟩ := bind_eq_ok_iff.mp h
      exact ih (isUsable_of_child hchild) hrest

theorem isUsable_of_master {seed : Bytes} (h : master seed = .ok parent) :
    Scalar.isUsable parent.key.secret = true := by
  obtain ⟨-, husable, rfl⟩ := master_eq_ok_iff.mp h
  exact husable

end ExtendedKey

theorem isUsable_of_accountKey {phrase : String} {account index : UInt32} {key : PrivateKey}
    (h : accountKey phrase account index = .ok key) : Scalar.isUsable key.secret = true := by
  obtain ⟨path, -, h⟩ := bind_eq_ok_iff.mp h
  obtain ⟨root, hroot, hkey⟩ := bind_eq_ok_iff.mp h
  exact ExtendedKey.isUsable_of_descend (ExtendedKey.isUsable_of_master hroot) hkey

end Keyring
