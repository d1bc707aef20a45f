import Keyring.Proofs.Storage.Files
import Keyring.Proofs.Storage.Keystore
import Keyring.Wallet.Storage

/-!
What a failed save leaves behind.

The file is emptied before the passphrase is looked at. After that a passphrase that is
too long stops the save, and so does a device that does not take the whole keystore. The
file then holds what was written until the save stopped.
-/

namespace Keyring.Wallet

/-- How a save stops that has created its file: what it has put there and the error. The
passphrase is refused, or the device does not take the keystore to its end. -/
inductive Stops (wallet : Wallet) (passphrase : String) (salt : Keystore.Salt)
    (nonce : Box.Nonce) (device : Device) : Bytes → KeyError → Prop
  | refused (h : Bcrypt.maxPassphraseLength < (Bytes.ofString passphrase).length) :
      Stops wallet passphrase salt nonce device []
        (.passphraseTooLong (Bytes.ofString passphrase).length)
  | cut {keystore : Keystore} {count : ℕ} {fault : StorageFault}
      (hcreate : Keystore.create wallet.key passphrase salt nonce = .ok keystore)
      (htaken : Device.taken device.answers (Bytes.ofString keystore.exportText).length =
        (count, .error fault)) :
      Stops wallet passphrase salt nonce device
        ((Bytes.ofString keystore.exportText).take count) (.storage fault)

section Writing

variable {wallet : Wallet} {passphrase : String} {salt : Keystore.Salt} {nonce : Box.Nonce}
  {device : Device}

theorem stops_iff_of_lt (h : Bcrypt.maxPassphraseLength < (Bytes.ofString passphrase).length)
    {left : Bytes} {e : KeyError} : wallet.Stops passphrase salt nonce device left e ↔
      e = .passphraseTooLong (Bytes.ofString passphrase).length ∧ left = [] := by
  constructor
  · intro hstops
    cases hstops with
    | refused => exact ⟨rfl, rfl⟩
    | cut hcreate => exact absurd h (Keystore.passphrase_length_of_create hcreate).not_gt
  · rintro ⟨rfl, rfl⟩
    exact .refused h

theorem stops_iff_of_create {keystore : Keystore}
    (h : Keystore.create wallet.key passphrase salt nonce = .ok keystore)
    {left : Bytes} {e : KeyError} : wallet.Stops passphrase salt nonce device left e ↔
      ∃ count fault, Device.taken device.answers (Bytes.ofString keystore.exportText).length =
          (count, .error fault) ∧
        e = .storage fault ∧ left = (Bytes.ofString keystore.exportText).take count := by
  constructor
  · intro hstops
    cases hstops with
    | refused hlong => exact absurd hlong (Keystore.passphrase_length_of_create h).not_gt
    | cut hcreate htaken =>
        obtain rfl := Except.ok.inj (h.symm.trans hcreate)
        exact ⟨_, _, htaken, rfl, rfl⟩
  · rintro ⟨count, fault, htaken, rfl, rfl⟩
    exact .cut h htaken

variable (wallet passphrase salt nonce)

/-- Writing a keystore to a file that was just created fails as it stops, and leaves what
it has put there until then. -/
theorem exists_exportKeystoreTo {file : OpenFile}
    (hempty : file.system.files.lookup file.place = some []) :
    ∃ left result system,
      wallet.exportKeystoreTo file passphrase salt nonce = (⟨system, file.place⟩, result) ∧
        file.system.IsPut file.place left system ∧
          ∀ {other e}, wallet.Stops passphrase salt nonce file.system.device other e ↔
            result = .error e ∧ other = left := by
  by_cases hlength : Bcrypt.maxPassphraseLength < (Bytes.ofString passphrase).length
  · have hexport : wallet.exportKeystoreTo file passphrase salt nonce =
        (file, .error (.passphraseTooLong (Bytes.ofString passphrase).length)) := by
      rw [exportKeystoreTo, Keystore.create_of_lt _ _ _ hlength]
    refine ⟨[], _, file.system, hexport, FileSystem.isPut_self hempty, ?_⟩
    intro other e
    rw [stops_iff_of_lt hlength, Except.error.injEq, eq_comm]
  · obtain ⟨keystore, hcreate⟩ :=
      Keystore.exists_create wallet.key salt nonce (Nat.le_of_not_lt hlength)
    have hexport : wallet.exportKeystoreTo file passphrase salt nonce =
        keystore.exportToWriter file := by
      rw [exportKeystoreTo, hcreate]
    -- From here on only the device decides how much of the text the file gets.
    obtain ⟨system, hwrite, hput⟩ := OpenFile.exists_writeAll file
      (Bytes.ofString keystore.exportText) hempty
    rw [List.nil_append] at hput
    rw [hexport]
    cases htaken : Device.taken file.system.device.answers
        (Bytes.ofString keystore.exportText).length with
    | mk count outcome =>
        rw [htaken] at hwrite hput
        cases outcome with
        | error fault =>
            refine ⟨_, _, system, Keystore.exportToWriter_of_error hwrite, hput, ?_⟩
            intro other e
            rw [stops_iff_of_create hcreate, htaken]
            simp [eq_comm]
        | ok u =>
            refine ⟨_, _, system, Keystore.exportToWriter_of_ok hwrite rfl, hput, ?_⟩
            intro other e
            rw [stops_iff_of_create hcreate, htaken]
            simp

end Writing

abbrev outcome {ε α : Type} (step : FileStep ε α) (files : FileSystem) :
    Except ε α × FileSystem :=
  step.run.run files

theorem outcome_bind_of_ok {ε α β : Type} {step : FileStep ε α} {next : α → FileStep ε β}
    {files after : FileSystem} {a : α} (h : outcome step files = (.ok a, after)) :
    outcome (step >>= next) files = outcome (next a) after := by
  rw [outcome] at h
  rw [outcome, ExceptT.run_bind, StateT.run_bind, h]
  rfl

theorem outcome_bind_of_error {ε α β : Type} {step : FileStep ε α} {next : α → FileStep ε β}
    {files after : FileSystem} {e : ε} (h : outcome step files = (.error e, after)) :
    outcome (step >>= next) files = (.error e, after) := by
  rw [outcome] at h
  rw [outcome, ExceptT.run_bind, StateT.run_bind, h]
  rfl

theorem outcome_lift {ε α : Type} (result : Except ε α) (files : FileSystem) :
    outcome (liftM result : FileStep ε α) files = (result, files) := rfl

section Saving

variable {wallet : Wallet} {path passphrase : String} {salt : Keystore.Salt}
  {nonce : Box.Nonce} {files after : FileSystem} {e : KeyError}

theorem outcome_saveFile_of_error {fault : StorageFault}
    (h : files.create path = .error fault) :
    outcome (wallet.saveFile path passphrase salt nonce) files =
      (.error (.storage fault), files) := by
  rw [saveFile, outcome_bind_of_ok (show outcome get files = (.ok files, files) from rfl), h]
  rfl

variable (wallet passphrase salt nonce) in
/-- What a save whose file can be created makes of the files. -/
theorem exists_outcome_saveFile {file : OpenFile} (h : files.create path = .ok file) :
    ∃ left result after,
      outcome (wallet.saveFile path passphrase salt nonce) files = (result, after) ∧
        files.NamesFile path file.place ∧ files.IsPut file.place left after ∧
          ∀ {other e}, wallet.Stops passphrase salt nonce files.device other e ↔
            result = .error e ∧ other = left := by
  obtain ⟨place, hplace, -, rfl⟩ := FileSystem.create_eq_ok_iff.mp h
  have hempty := FileSystem.isPut_put files place []
  obtain ⟨left, result, system, hexport, hput, hstops⟩ :=
    exists_exportKeystoreTo wallet passphrase salt nonce
      (show (OpenFile.mk (files.put place []) place).system.files.lookup _ = some [] from
        hempty.lookup_self)
  refine ⟨left, result, system, ?_, hplace, hempty.trans hput, hstops⟩
  rw [saveFile, outcome_bind_of_ok (show outcome get files = (.ok files, files) from rfl), h]
  simp only [hexport]
  rfl

theorem exists_outcome_saveFile_eq_error_iff :
    (∃ after, outcome (wallet.saveFile path passphrase salt nonce) files = (.error e, after)) ↔
      (∃ fault, files.create path = .error fault ∧ e = .storage fault) ∨
        (∃ file, files.create path = .ok file) ∧
          ∃ left, wallet.Stops passphrase salt nonce files.device left e := by
  cases hcreate : files.create path with
  | error fault =>
      rw [outcome_saveFile_of_error hcreate]
      simp [eq_comm]
  | ok file =>
      obtain ⟨left, result, after, hsave, -, -, hstops⟩ := exists_outcome_saveFile wallet
        passphrase salt nonce hcreate
      rw [hsave]
      simp [hstops]

/-- What a save that fails makes of the files. -/
theorem of_outcome_saveFile_eq_error
    (h : outcome (wallet.saveFile path passphrase salt nonce) files = (.error e, after)) :
    (∃ fault, files.create path = .error fault) ∧ after = files ∨
      ∃ file left, files.create path = .ok file ∧ files.NamesFile path file.place ∧
        files.IsPut file.place left after ∧
          ∀ {other e'}, wallet.Stops passphrase salt nonce files.device other e' ↔
            e' = e ∧ other = left := by
  cases hcreate : files.create path with
  | error fault =>
      rw [outcome_saveFile_of_error hcreate] at h
      exact .inl ⟨⟨fault, rfl⟩, (Prod.ext_iff.mp h).2.symm⟩
  | ok file =>
      obtain ⟨left, result, final, hsave, hplace, hput, hstops⟩ :=
        exists_outcome_saveFile wallet passphrase salt nonce hcreate
      obtain ⟨rfl, rfl⟩ := Prod.mk.inj (hsave.symm.trans h)
      refine .inr ⟨file, left, rfl, hplace, hput, ?_⟩
      intro other e'
      rw [hstops, Except.error.injEq, eq_comm]

/-- Whether all files keep their contents when a save to a path fails: the file cannot be
created, or it already holds what the save puts there until it stops. -/
def LosesNothing (wallet : Wallet) (passphrase : String) (salt : Keystore.Salt)
    (nonce : Box.Nonce) (files : FileSystem) (path : String) : Prop :=
  (∃ fault, files.create path = .error fault) ∨
    ∃ left e, wallet.Stops passphrase salt nonce files.device left e ∧
      files.read path = .ok left

theorem read_eq_iff_losesNothing
    (h : outcome (wallet.saveFile path passphrase salt nonce) files = (.error e, after)) :
    (∀ other, after.read other = files.read other) ↔
      wallet.LosesNothing passphrase salt nonce files path := by
  rcases of_outcome_saveFile_eq_error h with
    ⟨hrefused, rfl⟩ | ⟨file, left, hcreate, hplace, hput, hstops⟩
  · exact ⟨fun _ => .inl hrefused, fun _ _ => rfl⟩
  · constructor
    · intro hread
      exact .inr ⟨left, e, hstops.mpr ⟨rfl, rfl⟩,
        (hread path).symm.trans (hput.read_eq hplace)⟩
    · rintro (⟨fault, hfault⟩ | ⟨other, e', hother, hread⟩)
      · rw [hcreate] at hfault
        cases hfault
      · obtain ⟨-, rfl⟩ := hstops.mp hother
        exact (hput.sameFiles hplace hread).read_eq

theorem only_target_changes
    (h : outcome (wallet.saveFile path passphrase salt nonce) files = (.error e, after))
    {place : Place} (hchange : after.files.lookup place ≠ files.files.lookup place) :
    files.NamesFile path place ∧
      ∃ left, wallet.Stops passphrase salt nonce files.device left e ∧
      after.files.lookup place = some left := by
  rcases of_outcome_saveFile_eq_error h with
    ⟨-, rfl⟩ | ⟨file, left, -, hplace, hput, hstops⟩
  · exact absurd rfl hchange
  · by_cases hother : place = file.place
    · subst hother
      exact ⟨hplace, left, hstops.mpr ⟨rfl, rfl⟩, hput.lookup_self⟩
    · rw [hput.lookup_eq, if_neg hother] at hchange
      exact absurd rfl hchange

end Saving

theorem outcome_saveConfigured_eq_error_iff {wallet : Wallet} {settings : Settings}
    {passphrase : String} {salt : Keystore.Salt} {nonce : Box.Nonce} {files after : FileSystem}
    {e : ConfigError} :
    outcome (wallet.saveConfigured settings passphrase salt nonce) files = (.error e, after) ↔
      (settings.keystorePath = none ∧ e = .noKeystorePath ∧ after = files) ∨
      ∃ path cause, settings.keystorePath = some path ∧ e = .key cause ∧
        outcome (wallet.saveFile path passphrase salt nonce) files =
          (.error cause, after) := by
  have hrun : outcome (wallet.saveConfigured settings passphrase salt nonce) files =
      match settings.requirePath with
      | .error e => (.error e, files)
      | .ok path =>
          ((outcome (wallet.saveFile path passphrase salt nonce) files).1.mapError .key,
            (outcome (wallet.saveFile path passphrase salt nonce) files).2) := by
    rw [saveConfigured]
    cases hpath : settings.requirePath with
    | error e => rw [outcome_bind_of_error (outcome_lift _ _)]
    | ok path =>
        rw [outcome_bind_of_ok (outcome_lift _ _)]
        rfl
  rw [hrun, Settings.requirePath]
  cases settings.keystorePath with
  | none => simp [eq_comm]
  | some path =>
      simp only
      cases hsave : outcome (wallet.saveFile path passphrase salt nonce) files with
      | mk result final =>
          cases result with
          | error cause => simp [hsave, eq_comm]
          | ok u => simp [hsave]

theorem losesNothing_of_saveConfigured {wallet : Wallet} {settings : Settings}
    {passphrase : String} {salt : Keystore.Salt} {nonce : Box.Nonce} {files after : FileSystem}
    {e : ConfigError}
    (h : outcome (wallet.saveConfigured settings passphrase salt nonce) files =
      (.error e, after)) :
    (∀ other, after.read other = files.read other) ↔
      ∀ path, settings.keystorePath = some path →
        wallet.LosesNothing passphrase salt nonce files path := by
  rw [outcome_saveConfigured_eq_error_iff] at h
  rcases h with ⟨hpath, -, rfl⟩ | ⟨path, cause, hpath, -, hsave⟩
  · simp [hpath]
  · rw [read_eq_iff_losesNothing hsave, hpath]
    simp

/-- A save fails if its file cannot be created, and otherwise as it stops: at a passphrase
that is too long, or where the device takes no more of the keystore. If it fails, every file
keeps its contents exactly if the target could not be created or holds already what was put
there until the save stopped. No other file changes, and the target then holds just that. So
a passphrase that is too long empties a keystore that was there. -/
theorem failed_save_keeps_files_iff (wallet : Wallet) (passphrase : String) (salt : Block 16)
    (nonce : Block 24) (files : FileSystem) :
    (∀ path e,
      (∃ after, outcome (wallet.saveFile path passphrase salt nonce) files =
        (.error e, after)) ↔
        (∃ fault, files.create path = .error fault ∧ e = .storage fault) ∨
          (∃ file, files.create path = .ok file) ∧
            ∃ left, wallet.Stops passphrase salt nonce files.device left e) ∧
    (∀ path e after,
      outcome (wallet.saveFile path passphrase salt nonce) files = (.error e, after) →
      ((∀ other, after.read other = files.read other) ↔
        wallet.LosesNothing passphrase salt nonce files path) ∧
      ∀ place, after.files.lookup place ≠ files.files.lookup place →
        files.NamesFile path place ∧ ∃ left,
          wallet.Stops passphrase salt nonce files.device left e ∧
            after.files.lookup place = some left) ∧
    ∀ settings e after,
      outcome (wallet.saveConfigured settings passphrase salt nonce) files =
        (.error e, after) →
        ((∀ other, after.read other = files.read other) ↔
          ∀ path, settings.keystorePath = some path →
            wallet.LosesNothing passphrase salt nonce files path) ∧
        ∀ place, after.files.lookup place ≠ files.files.lookup place →
          ∃ path cause left, settings.keystorePath = some path ∧ e = .key cause ∧
            files.NamesFile path place ∧
              wallet.Stops passphrase salt nonce files.device left cause ∧
                after.files.lookup place = some left := by
  refine ⟨?_, ?_, ?_⟩
  · intro path e
    exact exists_outcome_saveFile_eq_error_iff
  · intro path e after h
    exact ⟨read_eq_iff_losesNothing h, fun place => only_target_changes h⟩
  · intro settings e after h
    refine ⟨losesNothing_of_saveConfigured h, ?_⟩
    intro place hchange
    rcases outcome_saveConfigured_eq_error_iff.mp h with
      ⟨-, -, rfl⟩ | ⟨path, cause, hpath, hcause, hsave⟩
    · exact absurd rfl hchange
    · obtain ⟨hplace, left, hstops, hleft⟩ := only_target_changes hsave hchange
      exact ⟨path, cause, left, hpath, hcause, hplace, hstops, hleft⟩

def longPassphrase : String :=
  "aaaaaaaaaaaaaaaaaaaaaaaaaaaaaaaaaaaaaaaaaaaaaaaaaaaaaaaaaaaaaaaaaaaaaaaa"

theorem length_longPassphrase : (Bytes.ofString longPassphrase).length = 72 := by
  decide +kernel

def threeBytes (device : Device) : FileSystem where
  directories := []
  files := [(["store"], [1, 2, 3])]
  working := []
  device := device

def fullDevice : Device where
  answers := [.takes 0]

/-- A file of three bytes is lost to a passphrase of seventy-two bytes, and to one of ten
bytes if the device is full. -/
theorem failed_save_empties_file :
    (∃ after,
      outcome ((⟨⟨Block.ofNat 32 1⟩⟩ : Wallet).saveFile "store" longPassphrase
        (Block.zero 16) (Block.zero 24)) (threeBytes {}) =
          (.error (.passphraseTooLong 72), after) ∧
      ¬∀ other, after.read other = (threeBytes {}).read other) ∧
    ∃ after,
      outcome ((⟨⟨Block.ofNat 32 1⟩⟩ : Wallet).saveFile "store" "1234567890"
        (Block.zero 16) (Block.zero 24)) (threeBytes fullDevice) =
          (.error (.storage .full), after) ∧
      ¬∀ other, after.read other = (threeBytes fullDevice).read other := by
  constructor
  · have hlong : Bcrypt.maxPassphraseLength < (Bytes.ofString longPassphrase).length := by
      rw [length_longPassphrase]
      decide
    have hcreate : (threeBytes {}).create "store" =
        .ok ⟨(threeBytes {}).put ["store"] [], ["store"]⟩ := by decide +kernel
    have hread : (threeBytes {}).read "store" = .ok [1, 2, 3] := by decide +kernel
    obtain ⟨after, hsave⟩ := ((failed_save_keeps_files_iff _ _ _ _ (threeBytes {})).1
      "store" _).mpr (.inr ⟨⟨_, hcreate⟩, [], .refused hlong⟩)
    rw [length_longPassphrase] at hsave
    refine ⟨after, hsave, ?_⟩
    rw [((failed_save_keeps_files_iff _ _ _ _ (threeBytes {})).2.1 "store" _ after hsave).1]
    rintro (⟨fault, hfault⟩ | ⟨left, e, hstops, hleft⟩)
    · rw [hcreate] at hfault
      cases hfault
    · obtain ⟨-, rfl⟩ := (stops_iff_of_lt hlong).mp hstops
      rw [hread] at hleft
      cases hleft
  · obtain ⟨keystore, hkeystore⟩ := Keystore.exists_create ⟨Block.ofNat 32 1⟩ (Block.zero 16)
      (Block.zero 24) (show (Bytes.ofString "1234567890").length ≤ _ by decide +kernel)
    have htaken : Device.taken fullDevice.answers (Bytes.ofString keystore.exportText).length =
        (0, .error .full) := by
      rw [fullDevice, Device.taken, if_neg keystore.length_exportText_ne_zero]
    have hcreate : (threeBytes fullDevice).create "store" =
        .ok ⟨(threeBytes fullDevice).put ["store"] [], ["store"]⟩ := by decide +kernel
    have hread : (threeBytes fullDevice).read "store" = .ok [1, 2, 3] := by decide +kernel
    have hstops : Stops ⟨⟨Block.ofNat 32 1⟩⟩ _ _ _ fullDevice _ _ := .cut hkeystore htaken
    obtain ⟨after, hsave⟩ := ((failed_save_keeps_files_iff _ _ _ _
      (threeBytes fullDevice)).1 "store" _).mpr (.inr ⟨⟨_, hcreate⟩, _, hstops⟩)
    refine ⟨after, hsave, ?_⟩
    rw [((failed_save_keeps_files_iff _ _ _ _ (threeBytes fullDevice)).2.1 "store" _ after
      hsave).1]
    rintro (⟨fault, hfault⟩ | ⟨left, e, hother, hleft⟩)
    · rw [hcreate] at hfault
      cases hfault
    · obtain ⟨count, fault, hcount, -, rfl⟩ := (stops_iff_of_create hkeystore).mp hother
      obtain ⟨rfl, -⟩ := Prod.mk.inj (htaken.symm.trans hcount)
      rw [hread, List.take_zero] at hleft
      cases hleft

end Keyring.Wallet
