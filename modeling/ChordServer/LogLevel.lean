import Mathlib.Tactic.IntervalCases

set_option autoImplicit false

namespace Chord

/-- The values of `LogLevel::Level`. The listener stores `(LogLevel::Level)100`
in it, so the type is the enumeration's integer type and not its six names. -/
structure LogLevel where
  value : Nat
  deriving DecidableEq, Repr

namespace LogLevel

def UNKNOWN : LogLevel := ⟨0⟩
def DEBUG : LogLevel := ⟨1⟩
def INFO : LogLevel := ⟨2⟩
def WARN : LogLevel := ⟨3⟩
def ERROR : LogLevel := ⟨4⟩
def FATAL : LogLevel := ⟨5⟩

instance : LE LogLevel := ⟨fun low high => low.value ≤ high.value⟩

instance (low high : LogLevel) : Decidable (low ≤ high) :=
  inferInstanceAs (Decidable (low.value ≤ high.value))

theorem le_def (low high : LogLevel) : low ≤ high ↔ low.value ≤ high.value := Iff.rfl

/-- The levels an event is logged with: `debug` .. `fatal` pass no others. -/
def IsEvent (level : LogLevel) : Prop := DEBUG ≤ level ∧ level ≤ FATAL

instance (level : LogLevel) : Decidable level.IsEvent :=
  inferInstanceAs (Decidable (_ ∧ _))

def FromString (str : String) : LogLevel :=
  if str = "debug" then DEBUG
  else if str = "info" then INFO
  else if str = "warn" then WARN
  else if str = "error" then ERROR
  else if str = "fatal" then FATAL
  else if str = "DEBUG" then DEBUG
  else if str = "INFO" then INFO
  else if str = "WARN" then WARN
  else if str = "ERROR" then ERROR
  else if str = "FATAL" then FATAL
  else UNKNOWN

def ToString (level : LogLevel) : String :=
  if level = DEBUG then "DEBUG"
  else if level = INFO then "INFO"
  else if level = WARN then "WARN"
  else if level = ERROR then "ERROR"
  else if level = FATAL then "FATAL"
  else "unknown"

/-- Only the five named levels survive their own text; every other value comes
back as `UNKNOWN`. -/
theorem FromString_ToString (level : LogLevel) :
    FromString (ToString level) = if level ≤ FATAL then level else UNKNOWN := by
  obtain ⟨value⟩ := level
  by_cases named : value ≤ 5
  · interval_cases value <;> decide
  · have above : ¬ (⟨value⟩ : LogLevel) ≤ FATAL := named
    have text : ToString ⟨value⟩ = "unknown" := by
      simp only [ToString, DEBUG, INFO, WARN, ERROR, FATAL, LogLevel.mk.injEq]
      rw [if_neg (by omega), if_neg (by omega), if_neg (by omega), if_neg (by omega),
        if_neg (by omega)]
    rw [text, if_neg above]
    decide

end LogLevel

end Chord
