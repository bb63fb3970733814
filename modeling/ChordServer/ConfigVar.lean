import ChordServer.KeyedSet
import Mathlib.Order.Nat

set_option autoImplicit false

namespace Chord

/-- How a call ends: it returns or throws a `std::exception`, each with the state it
leaves, or the process is lost in it. -/
inductive Outcome (φ σ : Type) : Type
  | returned (state : σ)
  | threw (what : String) (state : σ)
  | crashed (fault : φ)

/-- `on_change_cb`. A listener is given the old and the new value and acts on the
rest `σ` of the process, which holds no configuration variable. -/
abbrev on_change_cb (T φ σ : Type) : Type := T → T → σ → Outcome φ σ

/-- A variable; `m_cbs` is the map from keys to listeners. -/
structure ConfigVar (T φ σ : Type) where
  m_val : T
  m_cbs : KeyedSet (Prod.fst : Nat × on_change_cb T φ σ → Nat) := ∅

namespace ConfigVar

variable {T φ σ : Type}

/-- What a call on a variable leaves: the variable, the keys of the listeners that were
called, the errors sent to the root logger, and the end of the call. -/
structure Result (T φ σ : Type) where
  var : ConfigVar T φ σ
  called : List Nat := []
  errors : List String := []
  outcome : Outcome φ σ

/-- The loop `for(auto& i : m_cbs) i.second(m_val, val)`: the keys that were called,
and how the loop ended. -/
def notify (old new : T) : List (Nat × on_change_cb T φ σ) → σ → List Nat × Outcome φ σ
  | [], state => ([], .returned state)
  | (key, cb) :: rest, state =>
      match cb old new state with
      | .returned state =>
          let later := notify old new rest state
          (key :: later.1, later.2)
      | stopped => ([key], stopped)

/-- `setValue(val)`: the listeners run before the value is stored, so one that throws
keeps it from being stored. -/
def setValue [BEq T] (var : ConfigVar T φ σ) (val : T) (state : σ) : Result T φ σ :=
  if val == var.m_val then { var := var, outcome := .returned state }
  else
    match notify var.m_val val var.m_cbs.toList state with
    | (called, .returned state) =>
        { var := { var with m_val := val }, called := called, outcome := .returned state }
    | (called, stopped) => { var := var, called := called, outcome := stopped }

/-- `typeid(val).name()` of a `std::string`. -/
def typeidString : String := "NSt7__cxx1112basic_stringIcSt11char_traitsIcESaIcEEE"

/-- The message of the handler in `fromString`. -/
def exceptionMessage (what val : String) : String :=
  "ConfigVar::toString exception" ++ what ++ "convert: " ++ typeidString ++ " - " ++ val

/-- `fromString(val)`, with `FromStr` failing with the text of what it throws. It
returns `false` whatever happens, and nothing reads that. -/
def fromString [BEq T] (FromStr : String → Except String T) (var : ConfigVar T φ σ)
    (val : String) (state : σ) : Result T φ σ :=
  match FromStr val with
  | .error what =>
      { var := var, errors := [exceptionMessage what val], outcome := .returned state }
  | .ok parsed =>
      let result := var.setValue parsed state
      match result.outcome with
      | .threw what state =>
          { result with
            errors := [exceptionMessage what val]
            outcome := .returned state }
      | _ => result

/-- `addListener(cb)` with the key that the counter has reached. -/
def addListener (var : ConfigVar T φ σ) (key : Nat) (cb : on_change_cb T φ σ) :
    ConfigVar T φ σ :=
  { var with m_cbs := var.m_cbs.insert (key, cb) }

end ConfigVar

end Chord
