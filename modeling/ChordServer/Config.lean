import ChordServer.ConfigVar
import ChordServer.Yaml
import Mathlib.Logic.Function.Basic

set_option autoImplicit false

namespace Chord

open YAML

/-- A variable of some type behind its base class: the type, its `operator==`, the
functor that reads it, and the variable. -/
structure ConfigVarBase (φ σ : Type) where
  T : Type
  [eq : BEq T]
  FromStr : String → Except String T
  var : ConfigVar T φ σ

instance {φ σ : Type} (base : ConfigVarBase φ σ) : BEq base.T := base.eq

/-- The registry of the variables with the state `world` of the rest of the process.
`called` and `errors` record the calls of listeners, by variable and key, and the
messages sent to the root logger. -/
structure Config (φ σ : Type) where
  GetDatas : String → Option (ConfigVarBase φ σ)
  world : σ
  called : List (String × Nat) := []
  errors : List String := []

/-- `name.find_first_not_of(..) == npos`. The letter d and the digit 9 are missing
from the source's list. -/
def validName (name : String) : Bool :=
  name.toList.all fun c => c ∈ "abcefghijklmnopqrstuvwxyz._012345678".toList

/-- `std::transform(.., ::tolower)`. -/
def tolower (name : String) : String := String.ofList (name.toList.map Char.toLower)

/-- The name of a member: `prefix.empty() ? key : prefix + "." + key`. -/
def memberName (path key : String) : String := if path = "" then key else path ++ "." ++ key

mutual
/-- The paths and nodes that are listed, and the errors for the names that are not. -/
def ListAllMember (yaml : YamlCpp) (path : String) :
    Node → List (String × Node) × List String
  | .Map entries =>
      if validName path then
        let members := ListAllMember.entries yaml path entries
        ((path, .Map entries) :: members.1, members.2)
      else ([], ["Config invalid name : " ++ path ++ " : " ++ yaml.emit (.Map entries)])
  | node =>
      if validName path then ([(path, node)], [])
      else ([], ["Config invalid name : " ++ path ++ " : " ++ yaml.emit node])
def ListAllMember.entries (yaml : YamlCpp) (path : String) :
    List (String × Node) → List (String × Node) × List String
  | [] => ([], [])
  | (key, value) :: rest =>
      let first := ListAllMember yaml (memberName path key) value
      let later := ListAllMember.entries yaml path rest
      (first.1 ++ later.1, first.2 ++ later.2)
end

/-- The text that a node gives to `fromString`. -/
def nodeText (yaml : YamlCpp) : Node → String
  | .Scalar text => text
  | node => yaml.emit node

namespace Config

variable {φ σ : Type}

def LookupBase (config : Config φ σ) (name : String) : Option (ConfigVarBase φ σ) :=
  config.GetDatas name

/-- `var->fromString(text)` on the variable registered under `name`; only the loss of
the process ends the loop that makes the call. -/
def fromString (config : Config φ σ) (name : String) (base : ConfigVarBase φ σ)
    (text : String) : Except φ (Config φ σ) :=
  let result := base.var.fromString base.FromStr text config.world
  let ended := fun world =>
    { GetDatas := Function.update config.GetDatas name (some { base with var := result.var })
      world := world
      called := config.called ++ result.called.map fun key => (name, key)
      errors := config.errors ++ result.errors : Config φ σ }
  match result.outcome with
  | .returned world => .ok (ended world)
  | .threw _ world => .ok (ended world)
  | .crashed fault => .error fault

/-- One round of the loop over the listed nodes. -/
def loadEntry (yaml : YamlCpp) (config : Config φ σ) (entry : String × Node) :
    Except φ (Config φ σ) :=
  if entry.1 = "" then .ok config
  else
    match config.LookupBase (tolower entry.1) with
    | none => .ok config
    | some base => config.fromString (tolower entry.1) base (nodeText yaml entry.2)

def loadEntries (yaml : YamlCpp) (entries : List (String × Node)) (config : Config φ σ) :
    Except φ (Config φ σ) :=
  entries.foldlM (loadEntry yaml) config

def LoadFromYaml (yaml : YamlCpp) (root : Node) (config : Config φ σ) :
    Except φ (Config φ σ) :=
  let all_nodes := ListAllMember yaml "" root
  loadEntries yaml all_nodes.1 { config with errors := config.errors ++ all_nodes.2 }

end Config

end Chord
