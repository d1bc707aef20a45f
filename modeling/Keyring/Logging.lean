/-!
The settings of log output, which the environment and the program share in
setting.
-/

namespace Keyring.Logging

abbrev Environment := String → Option String

def labelVariable : String := "FINSCHIA_SDK_SVC_LABEL"

def fileVariable : String := "LOG_FILE"

def lineVariable : String := "LOG_LINE_NUM"

def defaultBaseName : String := "(finschia-sdk)"

def flag (environment : Environment) (name : String) : Bool :=
  environment name = some "1"

def serviceLabel (environment : Environment) : Option String :=
  environment labelVariable

/-- The name under which a service logs: its base name, and its label behind a
percent sign. -/
def identity (environment : Environment) (base : String) : String :=
  match serviceLabel environment with
  | some label => base ++ "%" ++ label
  | none => base

structure Config where
  identity : String
  showsFile : Bool
  showsLine : Bool
  deriving DecidableEq, Repr

namespace Config

def ofBaseName (environment : Environment) (base : String) : Config where
  identity := Logging.identity environment base
  showsFile := flag environment fileVariable
  showsLine := flag environment lineVariable

def default (environment : Environment) : Config :=
  ofBaseName environment defaultBaseName

def setFile (config : Config) (shown : Bool) : Config :=
  { config with showsFile := shown }

def setLine (config : Config) (shown : Bool) : Config :=
  { config with showsLine := shown }

end Config

/-- Installs the settings unless others are installed already, and tells whether
it did. -/
def install (installed : Option Config) (config : Config) : Option Config × Bool :=
  match installed with
  | some first => (some first, false)
  | none => (some config, true)

end Keyring.Logging
