import Keyring.Proofs.Lookup
import Keyring.Proofs.Outcome
import Keyring.Storage.Files
import Mathlib.Data.Nat.Notation

/-!
What writing a file changes, and what reading depends on.

Creating a file and writing to it puts contents at one place and leaves the directories
alone, so the same path leads to that place afterwards and the contents are read back.
Which contents these are depends on where the device stops to take them.
-/

namespace Keyring

namespace FileSystem

theorem lookup_putFile (place : Place) (contents : Bytes) (files : List (Place × Bytes))
    (other : Place) : (putFile place contents files).lookup other =
      if other = place then some contents else files.lookup other := by
  induction files with
  | nil => rw [putFile, lookup_cons]
  | cons file rest ih =>
      rw [putFile]
      split
      · rename_i h
        rw [lookup_cons, lookup_cons, h]
        split <;> rfl
      · rename_i h
        rw [lookup_cons, lookup_cons, ih]
        split
        · rename_i hother
          rw [if_neg (hother ▸ h)]
        · rfl

structure SameDirectories (before after : FileSystem) : Prop where
  directories_eq : after.directories = before.directories
  working_eq : after.working = before.working

structure SameFiles (before after : FileSystem) : Prop
    extends SameDirectories before after where
  lookup_eq : ∀ place, after.files.lookup place = before.files.lookup place

theorem SameDirectories.isDirectory_eq {before after : FileSystem}
    (h : SameDirectories before after) (place : Place) :
    after.isDirectory place = before.isDirectory place := by
  rw [isDirectory, isDirectory, h.directories_eq]

/-- Where a name leads: to the directory itself, to the one above it, or to one in it. The
files decide only why a name cannot be followed. -/
theorem follow_eq_ok_iff {system : FileSystem} {place next : Place} {name : String} :
    system.follow place name = .ok next ↔
      if name = Path.here then next = place
      else if name = Path.above then next = place.dropLast
      else isTooLong (place ++ [name]) = false ∧ system.isDirectory (place ++ [name]) = true ∧
        next = place ++ [name] := by
  simp only [follow]
  split
  · rw [Except.ok.injEq, eq_comm]
  · split
    · rw [Except.ok.injEq, eq_comm]
    · split
      · rename_i hlong
        simp [hlong]
      · rename_i hlong
        split
        · rename_i hdirectory
          rw [Except.ok.injEq, eq_comm, Bool.eq_false_iff]
          exact ⟨fun hnext => ⟨hlong, hdirectory, hnext⟩, fun h => h.2.2⟩
        · rename_i hdirectory
          split <;> simp [hdirectory]

theorem SameDirectories.follow_eq_ok {before after : FileSystem}
    (h : SameDirectories before after)
    {place next : Place} {name : String} (hnext : before.follow place name = .ok next) :
    after.follow place name = .ok next := by
  rw [follow_eq_ok_iff] at hnext ⊢
  rwa [h.isDirectory_eq]

theorem SameDirectories.foldlM_follow_eq_ok {before after : FileSystem}
    (h : SameDirectories before after) {names : List String} {place last : Place}
    (hlast : names.foldlM before.follow place = .ok last) :
    names.foldlM after.follow place = .ok last := by
  induction names generalizing place with
  | nil => exact hlast
  | cons name names ih =>
      rw [List.foldlM_cons, bind_eq_ok_iff] at hlast ⊢
      obtain ⟨next, hnext, hrest⟩ := hlast
      exact ⟨next, h.follow_eq_ok hnext, ih hrest⟩

theorem SameDirectories.locate_eq_ok {before after : FileSystem}
    (h : SameDirectories before after)
    {path : String} {target : Target} (htarget : before.locate path = .ok target) :
    after.locate path = .ok target := by
  rw [locate, bind_eq_ok_iff] at htarget ⊢
  obtain ⟨parsed, hparsed, hrest⟩ := htarget
  refine ⟨parsed, hparsed, ?_⟩
  simp only [h.working_eq]
  obtain ⟨place, hplace, hlast⟩ := bind_eq_ok_iff.mp hrest
  exact bind_eq_ok_iff.mpr ⟨place, h.foldlM_follow_eq_ok hplace, hlast⟩

theorem SameFiles.read_eq {before after : FileSystem} (h : SameFiles before after)
    (path : String) :
    after.read path = before.read path := by
  have hfollow : after.follow = before.follow := by
    funext place name
    simp only [follow, h.isDirectory_eq, h.lookup_eq]
  have hlocate : after.locate path = before.locate path := by
    rw [locate, locate, hfollow, h.working_eq]
  simp only [read, hlocate, h.isDirectory_eq, h.lookup_eq]

/-! ### Creating -/

structure NamesFile (system : FileSystem) (path : String) (place : Place) : Prop where
  locate_eq : system.locate path = .ok (.entry place false)
  not_isTooLong : isTooLong place = false
  not_isDirectory : system.isDirectory place = false

theorem create_eq_ok_iff {system : FileSystem} {path : String} {file : OpenFile} :
    system.create path = .ok file ↔ ∃ place, system.NamesFile path place ∧
      system.device.refusal = none ∧ file = ⟨system.put place [], place⟩ := by
  rw [create, bind_eq_ok_iff]
  constructor
  · rintro ⟨target, htarget, h⟩
    cases target with
    | directory => cases h
    | entry place slashed =>
        simp only at h
        split at h
        · cases h
        · rename_i hslashed
          split at h
          · cases h
          · rename_i hlong
            split at h
            · cases h
            · rename_i hdirectory
              split at h
              · cases h
              · rename_i hrefusal
                rw [Bool.not_eq_true] at hslashed hlong hdirectory
                refine ⟨place, ⟨hslashed ▸ htarget, hlong, hdirectory⟩, hrefusal, ?_⟩
                exact (Except.ok.inj h).symm
  · rintro ⟨place, hplace, hrefusal, rfl⟩
    refine ⟨.entry place false, hplace.locate_eq, ?_⟩
    simp only [hplace.not_isTooLong, hplace.not_isDirectory, hrefusal]
    rfl

/-- Whether a file system is another one with some contents at a place, whatever its
device has answered in between. -/
structure IsPut (before : FileSystem) (place : Place) (contents : Bytes)
    (after : FileSystem) : Prop
    extends SameDirectories before after where
  lookup_eq : ∀ other, after.files.lookup other =
    if other = place then some contents else before.files.lookup other

theorem isPut_put (system : FileSystem) (place : Place) (contents : Bytes) :
    IsPut system place contents (system.put place contents) :=
  ⟨⟨rfl, rfl⟩, lookup_putFile place contents system.files⟩

theorem isPut_self {system : FileSystem} {place : Place} {contents : Bytes}
    (h : system.files.lookup place = some contents) : IsPut system place contents system := by
  refine ⟨⟨rfl, rfl⟩, ?_⟩
  intro other
  split
  · rename_i hother
    rw [hother, h]
  · rfl

section IsPut

variable {before between after : FileSystem} {place : Place} {contents : Bytes}

theorem IsPut.lookup_self (h : IsPut before place contents after) :
    after.files.lookup place = some contents := by
  rw [h.lookup_eq, if_pos rfl]

theorem IsPut.trans {others : Bytes} (h : IsPut before place contents between)
    (hnext : IsPut between place others after) : IsPut before place others after := by
  refine ⟨⟨hnext.directories_eq.trans h.directories_eq, hnext.working_eq.trans h.working_eq⟩,
    ?_⟩
  intro other
  rw [hnext.lookup_eq, h.lookup_eq]
  split <;> rfl

theorem NamesFile.of_sameDirectories {path : String} (hplace : before.NamesFile path place)
    (h : SameDirectories before after) : after.NamesFile path place :=
  ⟨h.locate_eq_ok hplace.locate_eq, hplace.not_isTooLong,
    (h.isDirectory_eq place).trans hplace.not_isDirectory⟩

theorem NamesFile.read_eq {system : FileSystem} {path : String}
    (h : system.NamesFile path place) :
    system.read path = .ok contents ↔ system.files.lookup place = some contents := by
  rw [read, bind_eq_ok_iff]
  constructor
  · rintro ⟨target, htarget, hread⟩
    rw [h.locate_eq] at htarget
    cases htarget
    simp only [h.not_isTooLong, h.not_isDirectory] at hread
    cases hlookup : system.files.lookup place with
    | none =>
        rw [hlookup] at hread
        cases hread
    | some found =>
        rw [hlookup] at hread
        cases hread
        rfl
  · intro hlookup
    refine ⟨.entry place false, h.locate_eq, ?_⟩
    simp only [h.not_isTooLong, h.not_isDirectory, hlookup]
    rfl

/-- What was put at a place is read back through a path to it. -/
theorem IsPut.read_eq {path : String} (h : IsPut before place contents after)
    (hplace : before.NamesFile path place) : after.read path = .ok contents :=
  (hplace.of_sameDirectories h.toSameDirectories).read_eq.mpr h.lookup_self

/-- Putting at a place what it holds changes nothing. -/
theorem IsPut.sameFiles {path : String} (h : IsPut before place contents after)
    (hplace : before.NamesFile path place) (hread : before.read path = .ok contents) :
    SameFiles before after := by
  refine ⟨h.toSameDirectories, ?_⟩
  rw [hplace.read_eq] at hread
  intro other
  rw [h.lookup_eq]
  split
  · rename_i hother
    rw [hother, hread]
  · rfl

end IsPut

end FileSystem

/-! ### Writing to an open file -/

/-- How many bytes of a number a device takes by its answers, when the rest is offered
again and again, and whether a fault ends this. -/
def Device.taken : List Device.Answer → ℕ → ℕ × Except StorageFault Unit
  | [], length => (length, .ok ())
  | answer :: rest, length =>
    if length = 0 then (0, .ok ())
    else
      match answer with
      | .fails fault => (0, .error fault)
      | .takes 0 => (0, .error .full)
      | .takes (most + 1) =>
        let (more, result) := taken rest (length - (most + 1))
        (min (most + 1) length + more, result)

section Taken

variable {device next : Device} {length count : ℕ}

theorem Device.taken_zero (answers : List Device.Answer) :
    Device.taken answers 0 = (0, .ok ()) := by
  cases answers <;> rfl

theorem Device.taken_of_answer_error {fault : StorageFault} (hlength : length ≠ 0)
    (h : device.answer length = (next, .error fault)) :
    Device.taken device.answers length = (0, .error fault) := by
  rw [Device.answer] at h
  split at h
  · cases h
  · cases h
  · rename_i hanswers
    obtain ⟨-, hfault⟩ := Prod.mk.inj h
    rw [hanswers, Device.taken, if_neg hlength, Except.error.inj hfault]

theorem Device.taken_of_answer_zero (hlength : length ≠ 0)
    (h : device.answer length = (next, .ok 0)) :
    Device.taken device.answers length = (0, .error .full) := by
  rw [Device.answer] at h
  split at h
  · obtain ⟨-, hcount⟩ := Prod.mk.inj h
    exact absurd (Except.ok.inj hcount) hlength
  · rename_i most rest hanswers
    obtain ⟨-, hcount⟩ := Prod.mk.inj h
    have hmin := Except.ok.inj hcount
    obtain rfl : most = 0 := by omega
    rw [hanswers, Device.taken, if_neg hlength]
  · cases h

/-- What is taken of one offer, and then of the rest. -/
theorem Device.taken_of_answer (hcount : count ≠ 0)
    (h : device.answer length = (next, .ok count)) :
    Device.taken device.answers length =
      (count + (Device.taken next.answers (length - count)).1,
        (Device.taken next.answers (length - count)).2) := by
  rw [Device.answer] at h
  split at h
  · rename_i hanswers
    obtain ⟨rfl, hall⟩ := Prod.mk.inj h
    obtain rfl := Except.ok.inj hall
    rw [Nat.sub_self, Device.taken_zero, hanswers, Device.taken, Nat.add_zero]
  · rename_i most rest hanswers
    obtain ⟨rfl, hpart⟩ := Prod.mk.inj h
    obtain rfl := Except.ok.inj hpart
    obtain ⟨most, rfl⟩ := Nat.exists_eq_succ_of_ne_zero (show most ≠ 0 by omega)
    have hleft : length - min (most + 1) length = length - (most + 1) := by omega
    rw [hanswers, Device.taken, if_neg (show ¬length = 0 by omega), hleft]
  · cases h

end Taken

namespace OpenFile

open FileSystem

/-- What an offer to a file makes of it: the answer is the device's, and what it takes is
put behind the contents. -/
theorem of_offer_eq {file next : OpenFile} {contents bytes : Bytes}
    {result : Except StorageFault ℕ}
    (hcontents : file.system.files.lookup file.place = some contents)
    (h : Writer.offer file bytes = (next, result)) :
    file.system.device.answer bytes.length = (next.system.device, result) ∧
      next.place = file.place ∧
        IsPut file.system file.place (contents ++ bytes.take (result.toOption.getD 0))
          next.system := by
  simp only [Writer.offer, hcontents, Option.getD_some] at h
  split at h
  · rename_i fault hanswer
    obtain ⟨rfl, rfl⟩ := Prod.mk.inj h
    refine ⟨Prod.ext rfl hanswer, rfl, ⟨rfl, rfl⟩, ?_⟩
    change ∀ other, _ = if other = file.place then some (contents ++ bytes.take 0) else _
    rw [List.take_zero, List.append_nil]
    exact (isPut_self hcontents).lookup_eq
  · rename_i count hanswer
    obtain ⟨rfl, rfl⟩ := Prod.mk.inj h
    exact ⟨Prod.ext rfl hanswer, rfl, ⟨rfl, rfl⟩, lookup_putFile _ _ _⟩

/-- Writing puts behind the contents of a file what the device takes, and fails as the
device does. -/
theorem exists_writeAll (file : OpenFile) (bytes : Bytes) {contents : Bytes}
    (hcontents : file.system.files.lookup file.place = some contents) :
    ∃ system, Writer.writeAll file bytes =
        (⟨system, file.place⟩, (Device.taken file.system.device.answers bytes.length).2) ∧
      IsPut file.system file.place
        (contents ++ bytes.take (Device.taken file.system.device.answers bytes.length).1)
        system := by
  -- Along the calls of the loop, each of which appends to what the ones before have put.
  fun_induction Writer.writeAll file bytes generalizing contents with
  | case1 file =>
      rw [List.length_nil, Device.taken_zero]
      exact ⟨file.system, rfl, by simpa using isPut_self hcontents⟩
  | case2 file bytes hne next fault hoffer =>
      obtain ⟨hanswer, hplace, hput⟩ := of_offer_eq hcontents hoffer
      rw [Device.taken_of_answer_error (mt List.length_eq_zero_iff.mp hne) hanswer]
      exact ⟨next.system, by rw [← hplace], hput⟩
  | case3 file bytes hne next hoffer =>
      obtain ⟨hanswer, hplace, hput⟩ := of_offer_eq hcontents hoffer
      rw [Device.taken_of_answer_zero (mt List.length_eq_zero_iff.mp hne) hanswer]
      exact ⟨next.system, by rw [← hplace], hput⟩
  | case4 file bytes hne next count hoffer hcount ih =>
      obtain ⟨hanswer, hplace, hput⟩ := of_offer_eq hcontents hoffer
      rw [← hplace] at hput ⊢
      obtain ⟨final, hwrite, hfinal⟩ := ih hput.lookup_self
      rw [Device.taken_of_answer hcount hanswer, ← List.length_drop]
      refine ⟨final, hwrite, ?_⟩
      rw [List.take_add, ← List.append_assoc]
      exact hput.trans hfinal

end OpenFile

end Keyring
