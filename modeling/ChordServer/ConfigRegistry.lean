import ChordServer.Config
import ChordServer.HashedSet
import ChordServer.Transition

set_option autoImplicit false

namespace Chord

open YAML

/-- The types `T` of the variables with their `operator==`, the functors that read and write
them, which fail with the text of what they throw, and `typeid(T).name()`. -/
structure VarTypes where
  Tag : Type
  [decEq : DecidableEq Tag]
  Value : Tag → Type
  [eq : ∀ tag, BEq (Value tag)]
  FromStr : ∀ tag, String → Except String (Value tag)
  ToStr : ∀ tag, Value tag → Except String String
  typeid : Tag → String

instance (types : VarTypes) : DecidableEq types.Tag := types.decEq

instance (types : VarTypes) (tag : types.Tag) : BEq (types.Value tag) := types.eq tag

/-- A `ConfigVar<T>` with its address and the members of its base class. -/
structure TypedVar (types : VarTypes) (φ σ : Type) where
  ptr : Nat
  m_name : String
  m_description : String
  tag : types.Tag
  var : ConfigVar (types.Value tag) φ σ

namespace TypedVar

variable {types : VarTypes} {φ σ : Type}

/-- The constructor. -/
def new (ptr : Nat) (tag : types.Tag) (name : String) (default_value : types.Value tag)
    (description : String) : TypedVar types φ σ where
  ptr := ptr
  m_name := tolower name
  m_description := description
  tag := tag
  var := { m_val := default_value }

def getName (v : TypedVar types φ σ) : String := v.m_name

def getDescription (v : TypedVar types φ σ) : String := v.m_description

def getTypeName (v : TypedVar types φ σ) : String := types.typeid v.tag

/-- `toString()` with the messages of its handler. -/
def toString (v : TypedVar types φ σ) : String × List String :=
  match types.ToStr v.tag v.var.m_val with
  | .ok text => (text, [])
  | .error what =>
      ("", ["ConfigVar::toString exception" ++ what ++ "convert: " ++ v.getTypeName ++ "to string"])

/-- The variable as the loader knows it. -/
def base (v : TypedVar types φ σ) : ConfigVarBase φ σ :=
  { T := types.Value v.tag, FromStr := types.FromStr v.tag, var := v.var }

end TypedVar

/-- What a callback of `Visit` does with the variable that it is given and with the rest `σ` of
the process. -/
inductive VisitProgram (σ : Type)
  | done
  | getName (next : String → VisitProgram σ)
  | getDescription (next : String → VisitProgram σ)
  | getTypeName (next : String → VisitProgram σ)
  | toString (next : String → VisitProgram σ)
  | fromString (val : String) (next : Bool → VisitProgram σ)
  | act (f : σ → σ) (next : σ → VisitProgram σ)

/-- `Config`. The map has the variables themselves, and `made` is the number of those that have
been made, the next address. `called`, `errors` and `fromStrings` record the calls of listeners,
the messages sent to the root logger and the calls of `fromString`. -/
structure TypedConfig (types : VarTypes) (φ σ : Type) where
  GetDatas : HashedSet (Prod.fst : String × TypedVar types φ σ → String) := .empty
  made : Nat := 0
  world : σ
  called : List (String × Nat) := []
  errors : List String := []
  fromStrings : List (String × String) := []

namespace TypedConfig

variable {types : VarTypes} {φ σ : Type} (hashing : Hashing) (yaml : YamlCpp)

/-- `GetDatas().find(name)`. -/
def find (s : TypedConfig types φ σ) (name : String) : Option (TypedVar types φ σ) :=
  (s.GetDatas.find name).map Prod.snd

def log (s : TypedConfig types φ σ) (messages : List String) : TypedConfig types φ σ :=
  { s with errors := s.errors ++ messages }

/-- `GetDatas()[name] = v` for a variable that has just been made. -/
def register (s : TypedConfig types φ σ) (name : String) (v : TypedVar types φ σ) :
    TypedConfig types φ σ :=
  { s with made := s.made + 1, GetDatas := s.GetDatas.insert hashing (name, v) }

/-- `Lookup<T>(name, default_value, description)`. It returns the address of a variable or a
null pointer, or throws. -/
def Lookup (s : TypedConfig types φ σ) (tag : types.Tag) (name : String)
    (default_value : types.Value tag) (description : String) :
    TypedConfig types φ σ × Except String (Option Nat) :=
  match s.find name with
  | some it =>
      if it.tag = tag then (s.log ["Lookup name = " ++ name ++ "exists"], .ok (some it.ptr))
      else
        let text := it.toString
        (s.log (text.2 ++ ["Lookup name = " ++ name ++ "exists but type not" ++
          types.typeid tag ++ "real_type = " ++ it.getTypeName ++ " " ++ text.1]), .ok none)
  | none =>
      if validName name then
        let v := TypedVar.new s.made tag name default_value description
        (s.register hashing name v, .ok (some v.ptr))
      else (s.log ["Lookup name invalid" ++ name], .error name)

/-- `Lookup<T>(name)`. -/
def LookupExisting (s : TypedConfig types φ σ) (tag : types.Tag) (name : String) : Option Nat :=
  match s.find name with
  | some it => if it.tag = tag then some it.ptr else none
  | none => none

def LookupBase (s : TypedConfig types φ σ) (name : String) : Option Nat :=
  (s.find name).map TypedVar.ptr

/-- The registry with something else for the members of the variable under a name. -/
def modify (s : TypedConfig types φ σ) (name : String)
    (f : ∀ tag, ConfigVar (types.Value tag) φ σ → ConfigVar (types.Value tag) φ σ) :
    TypedConfig types φ σ :=
  { s with
    GetDatas := s.GetDatas.modify name (fun it => (it.1, { it.2 with var := f it.2.tag it.2.var }))
      fun _ => rfl }

/-- `var->fromString(text)` on the variable under a name. -/
def fromString (s : TypedConfig types φ σ) (name : String) (v : TypedVar types φ σ)
    (text : String) : Except φ (TypedConfig types φ σ) :=
  let result := v.var.fromString (types.FromStr v.tag) text s.world
  let ended := fun world =>
    { s with
      GetDatas := s.GetDatas.modify name (fun it => (it.1, { v with var := result.var }))
        fun _ => rfl
      world := world
      called := s.called ++ result.called.map fun key => (name, key)
      errors := s.errors ++ result.errors
      fromStrings := s.fromStrings ++ [(name, text)] }
  match result.outcome with
  | .returned world => .ok (ended world)
  | .threw _ world => .ok (ended world)
  | .crashed fault => .error fault

/-- One round of the loop over the listed nodes. -/
def loadEntry (s : TypedConfig types φ σ) (entry : String × Node) :
    Except φ (TypedConfig types φ σ) :=
  if entry.1 = "" then .ok s
  else
    match s.find (tolower entry.1) with
    | none => .ok s
    | some v => s.fromString (tolower entry.1) v (nodeText yaml entry.2)

def LoadFromYaml (root : Node) (s : TypedConfig types φ σ) : Except φ (TypedConfig types φ σ) :=
  let all_nodes := ListAllMember yaml "" root
  all_nodes.1.foldlM (loadEntry yaml) (s.log all_nodes.2)

/-- `cb(it->second)` for the variable under a name. -/
def visit (name : String) : VisitProgram σ → TypedConfig types φ σ →
    Except φ (TypedConfig types φ σ)
  | .done, s => .ok s
  | .act f next, s => visit name (next (f s.world)) { s with world := f s.world }
  | .getName next, s =>
      match s.find name with
      | some v => visit name (next v.getName) s
      | none => .ok s
  | .getDescription next, s =>
      match s.find name with
      | some v => visit name (next v.getDescription) s
      | none => .ok s
  | .getTypeName next, s =>
      match s.find name with
      | some v => visit name (next v.getTypeName) s
      | none => .ok s
  | .toString next, s =>
      match s.find name with
      | some v => visit name (next v.toString.1) (s.log v.toString.2)
      | none => .ok s
  | .fromString val next, s =>
      match s.find name with
      | some v => do visit name (next false) (← s.fromString name v val)
      | none => .ok s

/-- `Visit(cb)`: the callback gets the variables in the order of the map. -/
def Visit (cb : VisitProgram σ) (s : TypedConfig types φ σ) : Except φ (TypedConfig types φ σ) :=
  (s.GetDatas.toList.map Prod.fst).foldlM (fun s name => visit name cb s) s

/-- A call of the registry. `use` is what the program does to a variable through a pointer that
it has, and to the rest of the process. -/
inductive Action (types : VarTypes) (φ σ : Type)
  | Lookup (tag : types.Tag) (name : String) (default_value : types.Value tag)
      (description : String)
  | LookupExisting (tag : types.Tag) (name : String)
  | LookupBase (name : String)
  | Visit (cb : VisitProgram σ)
  | LoadFromYaml (root : Node)
  | use (name : String)
      (f : ∀ tag, ConfigVar (types.Value tag) φ σ → ConfigVar (types.Value tag) φ σ)
      (world : σ → σ)

/-- How a call ends. -/
inductive Reply
  | pointer (ptr : Option Nat)
  | invalid_argument (what : String)
  | returned
  deriving DecidableEq

/-- A call, which the loss of the process in a listener ends without a reply. -/
def perform (s : TypedConfig types φ σ) :
    Action types φ σ → Except φ (TypedConfig types φ σ × Reply)
  | .Lookup tag name default_value description =>
      let found := s.Lookup hashing tag name default_value description
      match found.2 with
      | .ok ptr => .ok (found.1, .pointer ptr)
      | .error what => .ok (found.1, .invalid_argument what)
  | .LookupExisting tag name => .ok (s, .pointer (s.LookupExisting tag name))
  | .LookupBase name => .ok (s, .pointer (s.LookupBase name))
  | .Visit cb => (s.Visit cb).map fun next => (next, .returned)
  | .LoadFromYaml root => (s.LoadFromYaml yaml root).map fun next => (next, .returned)
  | .use name f world => .ok ({ s.modify name f with world := world s.world }, .returned)

def step (s : TypedConfig types φ σ) (action : Action types φ σ) :
    Option (TypedConfig types φ σ) :=
  (s.perform hashing yaml action).toOption.map Prod.fst

end TypedConfig

end Chord
