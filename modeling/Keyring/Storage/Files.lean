import Keyring.Storage.Path
import Keyring.Storage.Sink

/-!
Files, by path. Creating a file cuts off what it held before; its directory has
to be there. The file is then open and takes bytes, as long as the device that keeps
the contents does.

A path is followed from directory to directory. The first step that leads
nowhere decides which fault arises, and what the last name has to be is a matter
of whether the file is read or written.
-/

namespace Keyring

/-- Where a file or a directory is: the names from the root down. -/
abbrev Place := List String

/-- What a device answers when bytes are offered to it: how many of them it takes at
most, or why it fails. -/
inductive Device.Answer where
  | takes (most : Nat)
  | fails (fault : StorageFault)
  deriving DecidableEq

/-- What keeps the contents of files. It may refuse that files are created. It answers
offers of bytes in turn, and takes all bytes when no answer is left. -/
structure Device where
  refusal : Option StorageFault := none
  answers : List Device.Answer := []
  deriving DecidableEq

def Device.answer (device : Device) (offered : Nat) : Device × Except StorageFault Nat :=
  match device.answers with
  | [] => (device, .ok offered)
  | .takes most :: rest => ({ device with answers := rest }, .ok (min most offered))
  | .fails fault :: rest => ({ device with answers := rest }, .error fault)

/-- The directories that exist below the root, the files with their contents, the
directory at which paths start that do not start at the root, and the device under
all of this. -/
structure FileSystem where
  directories : List Place
  files : List (Place × Bytes)
  working : Place
  device : Device := {}
  deriving DecidableEq

/-- A file that is open for writing, by its place. -/
structure OpenFile where
  system : FileSystem
  place : Place
  deriving DecidableEq

/-- What a path leads to when all its names but the last have been followed. -/
inductive Target where
  /-- A directory, since the last name is no name of its own. -/
  | directory
  /-- The file or directory at this place, if there is one; whether a slash
  follows its name. -/
  | entry (place : Place) (slashed : Bool)
  deriving DecidableEq

namespace FileSystem

/-- The file system without files that has the given directories, and those
above them. -/
def ofDirectories (working : Place) (places : List Place) : FileSystem where
  directories := (working :: places).flatMap fun place =>
    (List.range place.length).map fun i => place.take (i + 1)
  files := []
  working := working

def isDirectory (system : FileSystem) (place : Place) : Bool :=
  place = [] || system.directories.contains place

/-- Whether the last name of a place is too long for anything to bear it. -/
def isTooLong (place : Place) : Bool :=
  place.getLast?.any fun name => Path.maxNameLength < name.utf8ByteSize

/-- Follows one name from a directory to another one. The directory above the
root is the root. -/
def follow (system : FileSystem) (place : Place) (name : String) : Except StorageFault Place :=
  if name = Path.here then .ok place
  else if name = Path.above then .ok place.dropLast
  else
    let next := place ++ [name]
    if isTooLong next then .error .nameTooLong
    else if system.isDirectory next then .ok next
    else if (system.files.lookup next).isSome then .error .notDirectory
    else .error .notFound

def locate (system : FileSystem) (path : String) : Except StorageFault Target := do
  let path ← Path.ofText path
  let start := if path.fromRoot then [] else system.working
  let place ← path.names.dropLast.foldlM system.follow start
  match path.names.getLast? with
  | none => return .directory
  | some name =>
    if name = Path.here ∨ name = Path.above then return .directory
    else return .entry (place ++ [name]) path.slashed

def read (system : FileSystem) (path : String) : Except StorageFault Bytes := do
  match ← system.locate path with
  | .directory => throw .isDirectory
  | .entry place slashed =>
    if isTooLong place then throw .nameTooLong
    else if system.isDirectory place then throw .isDirectory
    else
      match system.files.lookup place with
      | none => throw .notFound
      | some contents => if slashed then throw .notDirectory else return contents

def read? (system : FileSystem) (path : String) : Option Bytes :=
  (system.read path).toOption

def putFile (place : Place) (contents : Bytes) : List (Place × Bytes) → List (Place × Bytes)
  | [] => [(place, contents)]
  | file :: rest =>
    if file.1 = place then (place, contents) :: rest else file :: putFile place contents rest

def put (system : FileSystem) (place : Place) (contents : Bytes) : FileSystem :=
  { system with files := putFile place contents system.files }

/-- Creates a file, or empties the one that is there. A path that ends with a slash
names no file. -/
def create (system : FileSystem) (path : String) : Except StorageFault OpenFile := do
  match ← system.locate path with
  | .directory => throw .isDirectory
  | .entry place slashed =>
    if slashed then throw .isDirectory
    else if isTooLong place then throw .nameTooLong
    else if system.isDirectory place then throw .isDirectory
    else
      match system.device.refusal with
      | some fault => throw fault
      | none => return ⟨system.put place [], place⟩

/-- The file system after all contents of a file were replaced by others, if the file
can be created. -/
def write (system : FileSystem) (path : String) (contents : Bytes) :
    Except StorageFault FileSystem := do
  let file ← system.create path
  return file.system.put file.place contents

def readText (system : FileSystem) (path : String) : Except StorageFault String := do
  let contents ← system.read path
  match contents.toString? with
  | some text => return text
  | none => throw .notText

end FileSystem

/-- Bytes are put behind what the file holds, as many as the device takes. The file
keeps nothing back. -/
instance : Writer OpenFile where
  offer file bytes :=
    let (device, answer) := file.system.device.answer bytes.length
    let system := { file.system with device := device }
    match answer with
    | .error fault => (⟨system, file.place⟩, .error fault)
    | .ok count =>
      let contents := (system.files.lookup file.place).getD []
      (⟨system.put file.place (contents ++ bytes.take count), file.place⟩, .ok count)
  flush file := (file, .ok ())

end Keyring
