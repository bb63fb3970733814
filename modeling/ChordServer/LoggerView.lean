import ChordServer.LogIniter
import ChordServer.LoggerFrame

set_option autoImplicit false

namespace Chord

/-- What an appender is set to: its file, or none for the standard output, its level, the
pattern of its own formatter, and the pattern it formats with. -/
structure AppenderView where
  file : Option String
  level : LogLevel
  own : Option String
  effective : Option String
  deriving DecidableEq, Repr

/-- What a logger is set to. -/
structure LoggerView where
  level : LogLevel
  formatter : Option String
  appenders : List AppenderView
  deriving DecidableEq, Repr

/-- The pattern is one that a definition can set. -/
def Usable (pattern : String) : Prop :=
  pattern ≠ "" ∧ (LogFormatter.mk pattern).isError = false

instance (pattern : String) : Decidable (Usable pattern) := inferInstanceAs (Decidable (_ ∧ _))

/-- What a definition of an appender asks for, in a logger with the given pattern. -/
def AppenderView.ofDefine (inherited : Option String) (a : LogAppenderDefine) : AppenderView :=
  let own := if Usable a.formatter then some a.formatter else none
  { file := if a.type = 1 then some a.file else none
    level := a.level
    own := own
    effective := own.or inherited }

/-- The pattern that a definition leaves a logger with. -/
def LogDefine.pattern (d : LogDefine) (inherited : Option String) : Option String :=
  if Usable d.formatter then some d.formatter else inherited

/-- What a definition makes of a logger. -/
def LoggerView.configured (view : LoggerView) (d : LogDefine) : LoggerView :=
  { level := d.level
    formatter := d.pattern view.formatter
    appenders := d.appenders.map (.ofDefine (d.pattern view.formatter)) }

/-- What the removal of its definition makes of a logger. -/
def LoggerView.removed (view : LoggerView) : LoggerView :=
  { view with level := LogIniter.tooHigh, appenders := [] }

def Appender.view (appender : Appender) : AppenderView where
  file := appender.filename
  level := appender.base.m_level
  own :=
    if appender.base.m_has_Formatter then appender.base.m_formatter.map LogFormatter.getPattern
    else none
  effective := appender.base.m_formatter.map LogFormatter.getPattern

def Logger.view (logger : Logger) (appenders : AppenderPtr → Appender) : LoggerView where
  level := logger.m_level
  formatter := logger.m_formatter.map LogFormatter.getPattern
  appenders := logger.m_appenders.map fun a => (appenders a).view

namespace LogSystem

def view (s : LogSystem) (name : String) : LoggerView := (s.named name).view s.appenders

/-- No appender is held by two loggers. -/
def Separate (s : LogSystem) : Prop :=
  ∀ p < s.loggerCount, ∀ q < s.loggerCount, p ≠ q →
    ∀ a ∈ (s.loggers p).m_appenders, a ∉ (s.loggers q).m_appenders

/-- A logger that only gives appenders up keeps its appenders apart from the others'. -/
theorem Changed.separate {s t : LogSystem} {p : LoggerPtr} (changed : s.Changed t p)
    (fewer : ∀ a, a ∈ (t.loggers p).m_appenders → a ∈ (s.loggers p).m_appenders)
    (separate : s.Separate) : t.Separate := by
  have old : ∀ q a, a ∈ (t.loggers q).m_appenders → a ∈ (s.loggers q).m_appenders := by
    intro q a held
    by_cases here : q = p
    · rw [here] at held ⊢
      exact fewer a held
    · rwa [changed.other q here] at held
  unfold Separate
  rw [changed.loggerCount]
  exact fun q first r second apart a held other =>
    separate q first r second apart a (old q a held) (old r a other)

/-- The view of a logger depends on the appenders it holds only. -/
theorem view_congr {s t : LogSystem} {name : String} (named : t.named name = s.named name)
    (held : ∀ a ∈ (s.named name).m_appenders, (t.appenders a).view = (s.appenders a).view) :
    t.view name = s.view name := by
  unfold view Logger.view
  rw [named, List.map_congr_left held]

theorem Logged.separate {s t : LogSystem} (logged : s.Logged t) (separate : s.Separate) :
    t.Separate := by
  unfold Separate
  rw [logged.loggers.loggers, logged.loggers.loggerCount]
  exact separate

/-- Events change no view. -/
theorem Logged.view {s t : LogSystem} (logged : s.Logged t) : t.view = s.view := by
  funext n
  refine view_congr (by rw [logged.loggers.named]) fun a _ => ?_
  obtain ⟨base, name⟩ := logged.appender a
  rw [Appender.view, base, name]
  rfl

end LogSystem

end Chord
