/-!
The roles that an address or a public key plays, and the human readable prefixes
that tell them apart.
-/

namespace Keyring

/-- The base prefix where none is configured. -/
def defaultPrefix : String := "link"

/-- What an address or a public key stands for. -/
inductive Role where
  | account
  | validatorOperator
  | validatorConsensus
  deriving DecidableEq, Repr

namespace Role

def all : List Role := [account, validatorOperator, validatorConsensus]

def suffix : Role → String
  | account => ""
  | validatorOperator => "valoper"
  | validatorConsensus => "valcons"

def ofSuffix? (suffix : String) : Option Role :=
  all.find? fun role => role.suffix = suffix

def hrp (role : Role) (base : String) : String :=
  base ++ role.suffix

def name : Role → String
  | account => "Account"
  | validatorOperator => "ValidatorOperator"
  | validatorConsensus => "ValidatorConsensus"

end Role

/-- What follows a given part at the front of a text. -/
def afterFront? (front text : String) : Option String :=
  if front.toList <+: text.toList then some (String.ofList (text.toList.drop front.length))
  else none

/-- What stands before a given part at the end of a text. -/
def beforeEnd? (back text : String) : Option String :=
  if back.toList <:+ text.toList then
    some (String.ofList (text.toList.take (text.length - back.length)))
  else none

end Keyring
