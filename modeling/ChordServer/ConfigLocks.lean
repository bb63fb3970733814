import ChordServer.Config
import ChordServer.LoggerLockOrder

set_option autoImplicit false

namespace Chord

open YAML LockProgram

/-- The types of the variables other than `std::set<LogDefine>`, with their `operator==`
and the functors that read and write them, which fail with the text of what they throw. -/
structure ConfigTypes where
  T : Type
  [decEq : DecidableEq T]
  Value : T → Type
  [beq : ∀ t, BEq (Value t)]
  FromStr : ∀ t, String → Except String (Value t)
  ToStr : ∀ t, Value t → Except String String

namespace ConfigTypes

variable (types : ConfigTypes)

instance : DecidableEq types.T := types.decEq

/-- The type argument of a `ConfigVar<T>`; `none` is `std::set<LogDefine>`. -/
abbrev Tag : Type := Option types.T

def Val : types.Tag → Type
  | none => LogDefines
  | some t => types.Value t

instance (tag : types.Tag) : BEq (types.Val tag) :=
  match tag with
  | none => inferInstanceAs (BEq LogDefines)
  | some t => types.beq t

end ConfigTypes

/-- The address of a variable, with its type. -/
abbrev VarPtr (types : ConfigTypes) : Type := types.Tag × Nat

/-- The members of a `ConfigVar<T>`, where `m_cbs` are the keys of the listeners. The calls below
find that of `LogIniter` under every key. -/
structure ConfigVarMembers (T : Type) where
  m_val : T
  m_cbs : List Nat := []

/-- The state that the threads of the process share: the loggers, the registry, the
variables, and the counter in `addListener` of each type. -/
structure Process (types : ConfigTypes) where
  log : LogSystem
  GetDatas : String → Option (VarPtr types)
  vars : (v : VarPtr types) → Option (ConfigVarMembers (types.Val v.1))
  varCount : Nat
  s_fun_id : types.Tag → Nat

inductive ConfigLock (types : ConfigTypes)
  | map
  | var (v : VarPtr types)
  | log (lock : LogLock)
  deriving DecidableEq

abbrev ConfigProgram (types : ConfigTypes) : Type → Type :=
  LockProgram (ConfigLock types) (Process types) Fault

/-- What the functions use that lies outside the process: the C library, the YAML library,
and the texts of its exceptions and of the types' names. -/
structure Libraries (types : ConfigTypes) where
  platform : Platform
  yaml : YamlCpp
  what : YAML.Exception → String
  typeid : types.Tag → String

namespace ConfigProgram

variable {types : ConfigTypes} (lib : Libraries types)

/-- A function of the logging code. -/
def lift {α : Type} (program : LogProgram α) : ConfigProgram types α :=
  program.zoom .log Process.log fun log s => { s with log := log }

/-- `CHORD_LOG_LEVEL(CHORD_LOG_ROOT(), level) << text`. -/
def logRoot (level : LogLevel) (file : String) (line : Int) (text : String) :
    ConfigProgram types Unit :=
  lift do
    LogProgram.CHORD_LOG_LEVEL lib.platform (← LogProgram.LoggerManager.getRoot) level file line
      text

namespace ConfigVar

variable (v : VarPtr types)

def update (f : ConfigVarMembers (types.Val v.1) → ConfigVarMembers (types.Val v.1))
    (s : Process types) : Process types :=
  { s with vars := Function.update s.vars v ((s.vars v).map f) }

/-- `FromStr()(val)`, and what it prints. -/
def FromStr : (tag : types.Tag) → String → Except String (types.Val tag) × String
  | none, val =>
      let (result, printed) := (LogDefines.fromString lib.yaml val).run.run ""
      (result.mapError lib.what, printed)
  | some t, val => (types.FromStr t val, "")

/-- `ToStr()(m_val)`. -/
def ToStr : (tag : types.Tag) → types.Val tag → Except String String
  | none, m_val => .ok (LogDefines.toString lib.yaml m_val)
  | some t, m_val => types.ToStr t m_val

def toString : ConfigProgram types String := do
  match ← locked (.var v) .read (read fun s => (s.vars v).map fun var => ToStr lib v.1 var.m_val)
  with
  | some (.ok text) => return text
  | some (.error what) =>
      logRoot lib .ERROR "config.h" 328
        ("ConfigVar::toString exception" ++ what ++ "convert: " ++ lib.typeid v.1 ++ "to string")
      return ""
  | none => return ""

/-- `i.second(m_val, val)` for the listener of `LogIniter`. -/
def callback : (tag : types.Tag) → types.Val tag → types.Val tag → ConfigProgram types Unit
  | none, old_value, new_value =>
      lift (LogProgram.LogIniter.onChange lib.platform old_value new_value)
  | some _, _, _ => return

/-- The read-locked part of `setValue`; `false` is the early return. -/
def notify (val : types.Val v.1) : ConfigProgram types Bool :=
  locked (.var v) .read do
    match ← read fun s => s.vars v with
    | none => return false
    | some var =>
        if val == var.m_val then return false
        else
          var.m_cbs.forM fun _ => callback lib v.1 var.m_val val
          return true

def setValue (val : types.Val v.1) : ConfigProgram types Unit := do
  if ← notify lib v val then
    locked (.var v) .write (modify (update v fun var => { var with m_val := val }))

/-- The listener throws nothing, so only `FromStr` may. -/
def fromString (val : String) : ConfigProgram types Unit := do
  let (result, printed) := FromStr lib v.1 val
  lift (modify fun s => { s with host := s.host.print printed })
  match result with
  | .ok parsed => setValue lib v parsed
  | .error what => logRoot lib .ERROR "config.h" 340 (ConfigVar.exceptionMessage what val)

def getValue : ConfigProgram types (Option (types.Val v.1)) :=
  locked (.var v) .read (read fun s => (s.vars v).map ConfigVarMembers.m_val)

/-- `addListener` of a `ConfigVar<std::set<LogDefine>>`. The counter only grows, so the new
key comes last in the map. -/
def addListener (address : Nat) : ConfigProgram types Nat :=
  locked (.var (none, address)) .write (call fun s =>
    let key := s.s_fun_id none + 1
    (update (none, address) (fun var => { var with m_cbs := var.m_cbs ++ [key] })
      { s with s_fun_id := Function.update s.s_fun_id none key }, key))

def delListener (key : Nat) : ConfigProgram types Unit :=
  locked (.var v) .write (modify (update v fun var =>
    { var with m_cbs := var.m_cbs.filter (· ≠ key) }))

end ConfigVar

namespace Config

/-- `new ConfigVar<T>(name, default_value, description)` and `GetDatas()[name] = v`. -/
def create (tag : types.Tag) (name : String) (default_value : types.Val tag)
    (s : Process types) : Process types :=
  let v : VarPtr types := (tag, s.varCount)
  { s with
    GetDatas := Function.update s.GetDatas name (some v)
    vars := Function.update s.vars v (some { m_val := default_value })
    varCount := s.varCount + 1 }

/-- What `Lookup` does with the variable it has found. -/
def found (tag : types.Tag) (name : String) (it : VarPtr types) :
    ConfigProgram types (Option (VarPtr types)) := do
  if it.1 = tag then
    logRoot lib .INFO "config.h" 424 ("Lookup name = " ++ name ++ "exists")
    return some it
  else
    let root ← lift LogProgram.LoggerManager.getRoot
    match ← lift (LogProgram.LogEventWrap lib.platform root .ERROR "config.h" 429) with
    | none => return none
    | some event =>
        let text ← ConfigVar.toString lib it
        lift (LogProgram.Logger.log lib.platform root .ERROR (event
          ("Lookup name = " ++ name ++ "exists but type not" ++ lib.typeid tag ++ "real_type = " ++
            lib.typeid it.1 ++ " " ++ text)))
        return none

/-- `Lookup(name, default_value, description)`; the error is the `std::invalid_argument`. -/
def Lookup (tag : types.Tag) (name : String) (default_value : types.Val tag) :
    ConfigProgram types (Except String (Option (VarPtr types))) :=
  locked .map .write do
    match ← read fun s => s.GetDatas name with
    | some it => return .ok (← found lib tag name it)
    | none =>
        if validName name then
          let v ← call fun s => (create tag name default_value s, (tag, s.varCount))
          return .ok (some v)
        else
          logRoot lib .ERROR "config.h" 444 ("Lookup name invalid" ++ name)
          return .error name

/-- `Lookup(name)`. -/
def LookupOnly (tag : types.Tag) (name : String) : ConfigProgram types (Option (VarPtr types)) :=
  locked .map .read (read fun s => (s.GetDatas name).filter fun it => it.1 = tag)

def LookupBase (name : String) : ConfigProgram types (Option (VarPtr types)) :=
  locked .map .read (read fun s => s.GetDatas name)

/-- One round of the loop over the listed nodes. -/
def loadEntry (entry : String × Node) : ConfigProgram types Unit := do
  if entry.1 = "" then return
  else
    match ← LookupBase (tolower entry.1) with
    | none => return
    | some var => ConfigVar.fromString lib var (nodeText lib.yaml entry.2)

def LoadFromYaml (root : Node) : ConfigProgram types Unit := do
  let all_nodes := ListAllMember lib.yaml "" root
  all_nodes.2.forM fun text => logRoot lib .ERROR "config.cpp" 17 text
  all_nodes.1.forM (loadEntry lib)

end Config

end ConfigProgram

end Chord
