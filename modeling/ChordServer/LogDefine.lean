import ChordServer.KeyedSet
import ChordServer.LogLevel
import ChordServer.Yaml
import Mathlib.Data.String.Basic

set_option autoImplicit false

namespace Chord

open YAML

/-- `type` is 1 for a file and 2 for the standard output. -/
structure LogAppenderDefine where
  type : Int := 0
  level : LogLevel := .UNKNOWN
  formatter : String := ""
  file : String := ""
  deriving DecidableEq, Repr

/-- `operator==` compares all members, as the decidable equality does. -/
structure LogDefine where
  name : String
  level : LogLevel := .UNKNOWN
  formatter : String := ""
  appenders : List LogAppenderDefine := []
  deriving DecidableEq, Repr

/-- `std::set<LogDefine>`, ordered by `operator<`, which compares the names. -/
abbrev LogDefines := KeyedSet LogDefine.name

/-- What a decoder prints on `std::cout`, and its result or what it throws. -/
abbrev Decoder : Type → Type := ExceptT YAML.Exception (StateM String)

namespace Decoder

def print (text : String) : Decoder Unit := modify fun printed => printed ++ text

def lift {α : Type} (result : Except YAML.Exception α) : Decoder α := ExceptT.mk (pure result)

@[simp] theorem lift_ok {α : Type} (value : α) : lift (.ok value) = pure value := rfl

end Decoder

namespace LogDefines

variable (yaml : YamlCpp)

/-- The appender at `a`, or `none` if there is none to add. The subscripts of `a` are not
read-only, so one that is not a map is printed as one. -/
def readAppender (a : Option Node) : Decoder (Option LogAppenderDefine) :=
  match a with
  | none => throw .invalidNode
  | some a => do
      match ← Decoder.lift (a.subscript "type") with
      | none =>
          Decoder.print
            ("log config error: appender is null " ++ yaml.emit a.convert_to_map ++ "\n")
          return none
      | some type =>
          let type ← Decoder.lift (yaml.asString type)
          if type = "FileLogAppender" then
            match ← Decoder.lift (a.subscript "file") with
            | none =>
                Decoder.print ("log config error: file appender is null " ++ yaml.emit a ++ "\n")
                return none
            | some file =>
                let file ← Decoder.lift (yaml.asString file)
                match ← Decoder.lift (a.subscript "formatter") with
                | none => return some { type := 1, file := file }
                | some formatter =>
                    let formatter ← Decoder.lift (yaml.asString formatter)
                    return some { type := 1, file := file, formatter := formatter }
          else if type = "StdoutLogAppender" then
            return some { type := 2 }
          else
            Decoder.print ("log config error: appender is null " ++ yaml.emit a ++ "\n")
            return some {}

/-- The string under a key, if the key is there. -/
def readString (n : Node) (key : String) : Decoder (Option String) := do
  match ← Decoder.lift (n.subscript key) with
  | none => return none
  | some value => return some (← Decoder.lift (yaml.asString value))

/-- One round of the loop over `n["appenders"]`. -/
def pushAppender (appenders : List LogAppenderDefine) (a : Option Node) :
    Decoder (List LogAppenderDefine) := do
  return appenders ++ (← readAppender yaml a).toList

def readAppenders (n : Node) : Decoder (List LogAppenderDefine) := do
  match ← Decoder.lift (n.subscript "appenders") with
  | none => return []
  | some appenders => (yaml.elements appenders).foldlM (pushAppender yaml) []

/-- The definition at `n`, or `none` if there is none to insert. -/
def readDefine (n : Option Node) : Decoder (Option LogDefine) := do
  match n with
  | none =>
      Decoder.print "log config error: name is null \n"
      return none
  | some n =>
      match ← readString yaml n "name" with
      | none =>
          Decoder.print ("log config error: name is null " ++ yaml.emit n ++ "\n")
          return none
      | some name =>
          let level ← readString yaml n "level"
          let formatter ← readString yaml n "formatter"
          let appenders ← readAppenders yaml n
          return some
            { name := name, level := LogLevel.FromString (level.getD ""),
              formatter := formatter.getD "", appenders := appenders }

/-- One round of the loop over the document. -/
def insertDefine (vec : LogDefines) (n : Option Node) : Decoder LogDefines := do
  match ← readDefine yaml n with
  | none => return vec
  | some ld => return vec.insert ld

/-- `LexicalCast<std::string, std::set<LogDefine>>`. -/
def fromString (v : String) : Decoder LogDefines := do
  let node ← Decoder.lift (yaml.Load v)
  (yaml.elements node).foldlM (insertDefine yaml) ∅

def writeAppender (a : LogAppenderDefine) : Node :=
  let na :=
    if a.type = 1 then
      (Node.Null.set "type" (.Scalar "FileLogAppender")).set "file" (.Scalar a.file)
    else if a.type = 2 then Node.Null.set "type" (.Scalar "StdoutLogAppender")
    else .Null
  let na := if a.level ≠ .UNKNOWN then na.set "level" (.Scalar a.level.ToString) else na
  if a.formatter ≠ "" then na.set "formatter" (.Scalar a.formatter) else na

def writeDefine (i : LogDefine) : Node :=
  let n := Node.Null.set "name" (.Scalar i.name)
  let n := if i.level = .UNKNOWN then n.set "level" (.Scalar i.level.ToString) else n
  let n := if i.formatter ≠ "" then n.set "formatter" (.Scalar i.formatter) else n
  i.appenders.foldl (fun n a => n.pushBackAt "appenders" (writeAppender a)) n

/-- `LexicalCast<std::set<LogDefine>, std::string>`. -/
def toString (v : LogDefines) : String :=
  yaml.emit (v.toList.foldl (fun node i => node.push_back (writeDefine i)) .Null)

end LogDefines

end Chord
