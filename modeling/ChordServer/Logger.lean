import ChordServer.KeyedSet
import ChordServer.LogAppender
import Mathlib.Data.String.Basic

set_option autoImplicit false

namespace Chord

/-- The addresses of `Logger` and `LogAppender` objects. -/
abbrev LoggerPtr := Nat
abbrev AppenderPtr := Nat

/-- An appender object of either class. -/
inductive Appender
  | file (appender : FileLogAppender)
  | stdout (appender : LogAppender)
  deriving DecidableEq, Repr

/-- The formatter that the constructor of `Logger` makes. -/
def defaultPattern : String := "%d{%Y-%m-%d %H:%M:%S}%T%t%T%F%T[%p]%T[%c]%f:%l%T%m%n"

structure Logger where
  m_name : String := "root"
  m_level : LogLevel := .DEBUG
  m_formatter : Option LogFormatter := some ⟨defaultPattern⟩
  m_appenders : List AppenderPtr := []
  m_root : Option LoggerPtr := none
  deriving DecidableEq, Repr

/-- What ends the process inside the logging code. -/
inductive Fault
  | nullLogger
  | nullAppender
  | nullFormatter
  | deadlock
  deriving DecidableEq, Repr

/-- The objects of the logging code, with the members `m_logger` and `m_root` of the
one `LoggerManager`. `answers` is what the system answers to each call, `asked` counts
the calls so far, and `delivered` records the appenders that have been handed an event. -/
structure LogSystem where
  m_logger : KeyedSet (Prod.fst : String × LoggerPtr → String)
  m_root : LoggerPtr
  loggers : LoggerPtr → Logger
  loggerCount : Nat
  appenders : AppenderPtr → Appender
  appenderCount : Nat
  host : Host
  answers : Nat → Environment
  asked : Nat := 0
  delivered : List AppenderPtr := []

namespace Appender

/-- The part of an appender that the base class holds. -/
def base : Appender → LogAppender
  | .file appender => appender.toLogAppender
  | .stdout appender => appender

/-- The name of the file that an appender writes, if it writes one. -/
def filename : Appender → Option String
  | .file appender => some appender.m_filename
  | .stdout _ => none

/-- A call of a member function of the base class. -/
def update (f : LogAppender → LogAppender) : Appender → Appender
  | .file appender => .file { appender with toLogAppender := f appender.toLogAppender }
  | .stdout appender => .stdout (f appender)

@[simp] theorem base_update (f : LogAppender → LogAppender) (appender : Appender) :
    (appender.update f).base = f appender.base := by cases appender <;> rfl

@[simp] theorem filename_update (f : LogAppender → LogAppender) (appender : Appender) :
    (appender.update f).filename = appender.filename := by cases appender <;> rfl

/-- The virtual function `log`. -/
def log (platform : Platform) (appender : Appender) (level : LogLevel) (event : LogEvent)
    (env : Environment) (host : Host) : Option (Appender × Host) :=
  match appender with
  | .file appender =>
      (appender.log platform level event env host).map fun result => (.file result.1, result.2)
  | .stdout appender =>
      (StdOutLogAppender.log platform appender level event host).map fun host =>
        (.stdout appender, host)

end Appender

namespace LogSystem

def setLogger (s : LogSystem) (p : LoggerPtr) (logger : Logger) : LogSystem :=
  { s with loggers := Function.update s.loggers p logger }

def setAppender (s : LogSystem) (a : AppenderPtr) (appender : Appender) : LogSystem :=
  { s with appenders := Function.update s.appenders a appender }

section
variable (s : LogSystem) (p q : LoggerPtr) (logger : Logger) (a b : AppenderPtr)
  (appender : Appender)

@[simp] theorem setLogger_appenders : (s.setLogger p logger).appenders = s.appenders := rfl

@[simp] theorem setLogger_self : (s.setLogger p logger).loggers p = logger :=
  Function.update_self _ _ _

variable {p q} in
theorem setLogger_other (apart : q ≠ p) : (s.setLogger p logger).loggers q = s.loggers q :=
  Function.update_of_ne apart _ _

@[simp] theorem setAppender_self : (s.setAppender a appender).appenders a = appender :=
  Function.update_self _ _ _

variable {a b} in
theorem setAppender_other (apart : b ≠ a) :
    (s.setAppender a appender).appenders b = s.appenders b :=
  Function.update_of_ne apart _ _

end

/-- `new FileLogAppender(filename)`. -/
def newFileLogAppender (s : LogSystem) (filename : String) : LogSystem × AppenderPtr :=
  let made := FileLogAppender.new filename (s.answers s.asked) s.host
  ({ s.setAppender s.appenderCount (.file made.1) with
      appenderCount := s.appenderCount + 1, host := made.2, asked := s.asked + 1 },
    s.appenderCount)

/-- `new StdOutLogAppender`. -/
def newStdOutLogAppender (s : LogSystem) : LogSystem × AppenderPtr :=
  ({ s.setAppender s.appenderCount (.stdout {}) with appenderCount := s.appenderCount + 1 },
    s.appenderCount)

/-- A member function of the base class, called on the appender at `a`. -/
def updateAppender (s : LogSystem) (a : AppenderPtr) (f : LogAppender → LogAppender) : LogSystem :=
  s.setAppender a ((s.appenders a).update f)

/-- `i->log(self, level, event)`. -/
def callAppender (platform : Platform) (level : LogLevel) (event : LogEvent) (s : LogSystem)
    (i : AppenderPtr) : Except Fault LogSystem :=
  match (s.appenders i).log platform level event (s.answers s.asked) s.host with
  | none => .error .nullFormatter
  | some (appender, host) =>
      .ok { s.setAppender i appender with
        host := host, asked := s.asked + 1, delivered := s.delivered ++ [i] }

end LogSystem

namespace Logger

variable (s : LogSystem) (this : LoggerPtr)

def setLevel (val : LogLevel) : LogSystem :=
  s.setLogger this { s.loggers this with m_level := val }

/-- One round of the loop in `setFormatter`: an appender without a formatter of its own
follows its logger. -/
def followFormatter (val : Option LogFormatter) (s : LogSystem) (i : AppenderPtr) : LogSystem :=
  if (s.appenders i).base.m_has_Formatter then s
  else s.updateAppender i fun base => { base with m_formatter := val }

/-- `setFormatter(LogFormatter::ptr val)`. -/
def setFormatter (val : Option LogFormatter) : LogSystem :=
  let s := s.setLogger this { s.loggers this with m_formatter := val }
  (s.loggers this).m_appenders.foldl (followFormatter val) s

/-- `setFormatter(const std::string& val)`: a pattern with an error is refused. -/
def setFormatterString (val : String) : LogSystem :=
  let new_val : LogFormatter := ⟨val⟩
  if new_val.isError then
    { s with
      host := s.host.print
        ("Logger setFormatter name=" ++ (s.loggers this).m_name ++ "value=" ++ val ++
          " invalid formatter\n") }
  else setFormatter s this (some new_val)

def addAppender (appender : AppenderPtr) : LogSystem :=
  let s :=
    if ((s.appenders appender).base.getFormatter).isNone then
      s.updateAppender appender fun base =>
        { base with m_formatter := (s.loggers this).m_formatter }
    else s
  s.setLogger this
    { s.loggers this with m_appenders := (s.loggers this).m_appenders ++ [appender] }

def clearAppenders : LogSystem := s.setLogger this { s.loggers this with m_appenders := [] }

/-- `delAppender` erases the first occurrence. -/
def delAppender (appender : AppenderPtr) : LogSystem :=
  s.setLogger this
    { s.loggers this with m_appenders := (s.loggers this).m_appenders.erase appender }

/-- `log` with as many loggers left as are not locked by an outer call. When none is left
the logger is one of those, and its spinlock is never released. -/
def logUnlocked (platform : Platform) (level : LogLevel) (event : LogEvent) :
    Nat → LogSystem → LoggerPtr → Except Fault LogSystem
  | 0, _, _ => .error .deadlock
  | unlocked + 1, s, this =>
      if (s.loggers this).m_level ≤ level then
        if (s.loggers this).m_appenders ≠ [] then
          (s.loggers this).m_appenders.foldlM (LogSystem.callAppender platform level event) s
        else
          match (s.loggers this).m_root with
          | some m_root => logUnlocked platform level event unlocked s m_root
          | none => .ok s
      else .ok s

def log (platform : Platform) (level : LogLevel) (event : LogEvent) : Except Fault LogSystem :=
  logUnlocked platform level event s.loggerCount s this

end Logger

namespace LoggerManager

/-- `LoggerManager()`, with the first logger and the first appender at address 0. -/
def new (host : Host) (answers : Nat → Environment) : LogSystem :=
  let m_root : Logger := {}
  let s : LogSystem :=
    { m_logger := ∅, m_root := 0, loggers := fun _ => m_root, loggerCount := 1,
      appenders := fun _ => .stdout {}, appenderCount := 0, host := host, answers := answers }
  let made := s.newStdOutLogAppender
  let s := Logger.addAppender made.1 s.m_root made.2
  { s with m_logger := s.m_logger.insert (m_root.m_name, s.m_root) }

def getRoot (s : LogSystem) : LoggerPtr := s.m_root

def getLogger (s : LogSystem) (name : String) : LogSystem × LoggerPtr :=
  match s.m_logger.find name with
  | some it => (s, it.2)
  | none =>
      let logger : Logger := { m_name := name, m_root := some s.m_root }
      ({ s.setLogger s.loggerCount logger with
          loggerCount := s.loggerCount + 1
          m_logger := s.m_logger.insert (name, s.loggerCount) }, s.loggerCount)

end LoggerManager

/-- The macro `CHORD_LOG_LEVEL(logger, level) << text`, at a line of a source file: the
event is logged by the destructor of the temporary `LogEventWrap`. -/
def CHORD_LOG_LEVEL (platform : Platform) (s : LogSystem) (logger : LoggerPtr)
    (level : LogLevel) (file : String) (line : Int) (text : String) : Except Fault LogSystem :=
  if (s.loggers logger).m_level ≤ level then
    let env := s.answers s.asked
    let event : LogEvent :=
      { m_file := platform.sources ++ file, m_line := line, m_elapsed := 0,
        m_threadId := env.threadId, m_fiberId := env.fiberId, m_time := env.now, m_ss := text,
        m_logger := (s.loggers logger).m_name, m_level := level }
    Logger.log { s with asked := s.asked + 1 } logger platform level event
  else .ok s

end Chord
