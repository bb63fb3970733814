import ChordServer.LockProgram
import ChordServer.LogIniter
import ChordServer.LoggerYaml

set_option autoImplicit false

namespace Chord

/-- The locks of the logging code, named by the objects whose `m_mutex` they are. -/
inductive LogLock
  | manager
  | logger (logger : LoggerPtr)
  | appender (appender : AppenderPtr)
  deriving DecidableEq, Repr

/-- The functions of the logging code with the locks they take. An access to the loggers
that takes none, such as the reading of a level, is a step of its own. -/
abbrev LogProgram : Type → Type := LockProgram LogLock LogSystem Fault

namespace LogProgram

open LockProgram YAML

variable (platform : Platform) (yaml : YamlCpp)

namespace LogAppender

variable (this : AppenderPtr)

def setFormatter (val : Option LogFormatter) : LogProgram Unit :=
  locked (.appender this) .write
    (modify fun s => s.updateAppender this fun base => base.setFormatter val)

def getFormatter : LogProgram (Option LogFormatter) :=
  locked (.appender this) .write (read fun s => (s.appenders this).base.getFormatter)

def setLevel (level : LogLevel) : LogProgram Unit :=
  modify fun s => s.updateAppender this fun base => base.setLevel level

/-- The virtual function `toYamlString`. -/
def toYamlString : LogProgram String :=
  locked (.appender this) .write (read fun s => (s.appenders this).toYamlString yaml)

end LogAppender

namespace FileLogAppender

variable (this : AppenderPtr)

def setFile (changed : FileLogAppender × Host) (s : LogSystem) : LogSystem :=
  { s.setAppender this (.file changed.1) with host := changed.2 }

/-- A change of the members of a file appender, and of the host. -/
def update (f : FileLogAppender → Host → FileLogAppender × Host) (s : LogSystem) : LogSystem :=
  match s.appenders this with
  | .file appender => setFile this (f appender s.host) s
  | .stdout _ => s

def reopen (env : Environment) : LogProgram Unit :=
  locked (.appender this) .write (modify (update this fun appender host =>
    let reopened := appender.reopen env host
    (reopened.1, reopened.2.1)))

/-- `new FileLogAppender(filename)`. -/
def new (filename : String) : LogProgram AppenderPtr := do
  let (made, env) ← call fun s =>
    let env := s.answers s.asked
    let appender : FileLogAppender :=
      { m_filename := filename, m_filestream := {}, m_lastTime := env.indeterminate }
    ({ s.setAppender s.appenderCount (.file appender) with
        appenderCount := s.appenderCount + 1, asked := s.asked + 1 }, (s.appenderCount, env))
  reopen made env
  return made

/-- `now != m_lastTime + 3`. -/
def due (env : Environment) (s : LogSystem) : Bool :=
  match s.appenders this with
  | .file appender => env.now ≠ appender.m_lastTime + 3
  | .stdout _ => false

/-- `if(now != m_lastTime + 3) { reopen(); m_lastTime = now; }`. -/
def reopenAt (env : Environment) : LogProgram Unit := do
  if ← read (due this env) then
    reopen this env
    modify (update this fun appender host => ({ appender with m_lastTime := env.now }, host))

/-- `m_filestream << m_formatter->format(..)` and what follows it, in the lock's scope. -/
def write (level : LogLevel) (event : LogEvent) (env : Environment) : LogProgram Unit :=
  locked (.appender this) .write do
    match ← read fun s => (s.appenders this).base.m_formatter with
    | none => crash .nullFormatter
    | some formatter =>
        modify (update this fun appender host =>
          appender.write (formatter.format platform level event) env host)

def log (level : LogLevel) (event : LogEvent) (env : Environment) : LogProgram Unit := do
  if ← read fun s => decide ((s.appenders this).base.m_level ≤ level) then
    reopenAt this env
    write platform this level event env

end FileLogAppender

namespace StdOutLogAppender

variable (this : AppenderPtr)

def new : LogProgram AppenderPtr := call LogSystem.newStdOutLogAppender

def log (level : LogLevel) (event : LogEvent) : LogProgram Unit := do
  if ← read fun s => decide ((s.appenders this).base.m_level ≤ level) then
    locked (.appender this) .write do
      match ← read fun s => (s.appenders this).base.m_formatter with
      | none => crash .nullFormatter
      | some formatter =>
          modify fun s => { s with host := s.host.print (formatter.format platform level event) }

end StdOutLogAppender

/-- `i->log(self, level, event)`. -/
def callAppender (level : LogLevel) (event : LogEvent) (i : AppenderPtr) : LogProgram Unit := do
  let env ← call fun s =>
    ({ s with asked := s.asked + 1, delivered := s.delivered ++ [i] }, s.answers s.asked)
  match ← read fun s => s.appenders i with
  | .file _ => FileLogAppender.log platform i level event env
  | .stdout _ => StdOutLogAppender.log platform i level event

namespace Logger

variable (this : LoggerPtr)

def setLevel (val : LogLevel) : LogProgram Unit := modify fun s => Chord.Logger.setLevel s this val

def setFormatter (val : Option LogFormatter) : LogProgram Unit :=
  locked (.logger this) .write do
    modify fun s => s.setLogger this { s.loggers this with m_formatter := val }
    let m_appenders ← read fun s => (s.loggers this).m_appenders
    m_appenders.forM fun i =>
      locked (.appender i) .write (modify fun s => Chord.Logger.followFormatter val s i)

def setFormatterString (val : String) : LogProgram Unit :=
  let new_val : LogFormatter := ⟨val⟩
  if new_val.isError then
    modify fun s =>
      { s with
        host := s.host.print
          ("Logger setFormatter name=" ++ (s.loggers this).m_name ++ "value=" ++ val ++
            " invalid formatter\n") }
  else setFormatter this (some new_val)

def getFormatter : LogProgram (Option LogFormatter) :=
  locked (.logger this) .write (read fun s => (s.loggers this).m_formatter)

/-- An appender that has no formatter gets the logger's. -/
def lendFormatter (appender : AppenderPtr) : LogProgram Unit := do
  if (← LogAppender.getFormatter appender).isNone then
    locked (.appender appender) .write (modify fun s =>
      s.updateAppender appender fun base =>
        { base with m_formatter := (s.loggers this).m_formatter })

def addAppender (appender : AppenderPtr) : LogProgram Unit :=
  locked (.logger this) .write do
    lendFormatter this appender
    modify fun s =>
      s.setLogger this
        { s.loggers this with m_appenders := (s.loggers this).m_appenders ++ [appender] }

def clearAppenders : LogProgram Unit :=
  locked (.logger this) .write (modify fun s => Chord.Logger.clearAppenders s this)

def delAppender (appender : AppenderPtr) : LogProgram Unit :=
  locked (.logger this) .write (modify fun s => Chord.Logger.delAppender s this appender)

/-- A logger that is reached again from its own locked section waits for itself. -/
def logUnlocked (level : LogLevel) (event : LogEvent) : Nat → LoggerPtr → LogProgram Unit
  | 0, this => .acquire (.logger this) .write (.crash .deadlock)
  | unlocked + 1, this => do
      if ← read fun s => decide ((s.loggers this).m_level ≤ level) then
        locked (.logger this) .write do
          let m_appenders ← read fun s => (s.loggers this).m_appenders
          if m_appenders ≠ [] then m_appenders.forM (callAppender platform level event)
          else
            match ← read fun s => (s.loggers this).m_root with
            | some m_root => logUnlocked level event unlocked m_root
            | none => return

def log (level : LogLevel) (event : LogEvent) : LogProgram Unit := do
  logUnlocked platform level event (← read LogSystem.loggerCount) this

/-- One round of the loop over the appenders in `toYamlString`. -/
def pushAppender (node : Except YAML.Exception Node) (i : AppenderPtr) :
    LogProgram (Except YAML.Exception Node) :=
  match node with
  | .error exception => return .error exception
  | .ok node => do
      let text ← LogAppender.toYamlString yaml i
      return (yaml.Load text).map fun child => node.pushBackAt "appenders" child

def toYamlString : LogProgram (Except YAML.Exception String) :=
  locked (.logger this) .write do
    let logger ← read fun s => s.loggers this
    let node ← logger.m_appenders.foldlM (pushAppender yaml) (.ok logger.writeMembers)
    return node.map yaml.emit

end Logger

namespace LoggerManager

def getLogger (name : String) : LogProgram LoggerPtr :=
  locked .manager .write (call fun s => Chord.LoggerManager.getLogger s name)

def getRoot : LogProgram LoggerPtr := read Chord.LoggerManager.getRoot

/-- One round of the loop over the loggers in `toYamlString`. -/
def pushLogger (node : Except YAML.Exception Node) (i : String × LoggerPtr) :
    LogProgram (Except YAML.Exception Node) :=
  match node with
  | .error exception => return .error exception
  | .ok node => do
      let text ← Logger.toYamlString yaml i.2
      return (text.bind yaml.Load).map node.push_back

def toYamlString : LogProgram (Except YAML.Exception String) :=
  locked .manager .write do
    let loggers ← read fun s => s.m_logger.toList
    let node ← loggers.foldlM (pushLogger yaml) (.ok .Null)
    return node.map yaml.emit

end LoggerManager

/-- The temporary `LogEventWrap` of `CHORD_LOG_LEVEL(logger, level)`, if the logger lets the
level through. The event still lacks its text. -/
def LogEventWrap (logger : LoggerPtr) (level : LogLevel) (file : String) (line : Int) :
    LogProgram (Option (String → LogEvent)) := do
  if ← read fun s => decide ((s.loggers logger).m_level ≤ level) then
    let event ← call fun s =>
      let env := s.answers s.asked
      ({ s with asked := s.asked + 1 }, fun text : String =>
        { m_file := platform.sources ++ file, m_line := line, m_elapsed := 0,
          m_threadId := env.threadId, m_fiberId := env.fiberId, m_time := env.now, m_ss := text,
          m_logger := (s.loggers logger).m_name, m_level := level : LogEvent })
    return some event
  else return none

/-- `CHORD_LOG_LEVEL(logger, level) << text`. -/
def CHORD_LOG_LEVEL (logger : LoggerPtr) (level : LogLevel) (file : String) (line : Int)
    (text : String) : LogProgram Unit := do
  match ← LogEventWrap platform logger level file line with
  | none => return
  | some event => Logger.log platform logger level (event text)

namespace LogIniter

def newAppender (a : LogAppenderDefine) : LogProgram (Option AppenderPtr) := do
  if a.type = 1 then return some (← FileLogAppender.new a.file)
  else if a.type = 2 then return some (← StdOutLogAppender.new)
  else return none

def setAppenderFormatter (i : LogDefine) (ap : AppenderPtr) (a : LogAppenderDefine) :
    LogProgram Unit :=
  if a.formatter ≠ "" then
    let fmt : LogFormatter := ⟨a.formatter⟩
    if fmt.isError = false then LogAppender.setFormatter ap (some fmt)
    else
      modify fun s =>
        { s with
          host := s.host.print
            ("log name=" ++ i.name ++ "appender type=" ++ toString a.type ++ "formatter" ++
              a.formatter ++ "invalid\n") }
  else return

def addDefined (i : LogDefine) (logger : LoggerPtr) (a : LogAppenderDefine) :
    LogProgram Unit := do
  match ← newAppender a with
  | none => crash .nullAppender
  | some ap =>
      LogAppender.setLevel ap a.level
      setAppenderFormatter i ap a
      Logger.addAppender logger ap

def configure (logger : LoggerPtr) (i : LogDefine) : LogProgram Unit := do
  Logger.setLevel logger i.level
  (if i.formatter ≠ "" then Logger.setFormatterString logger i.formatter else pure ())
  Logger.clearAppenders logger
  i.appenders.forM (addDefined i logger)

def findLogger (old_value : LogDefines) (i : LogDefine) : LogProgram (Option LoggerPtr) := do
  match old_value.find i.name with
  | none => return some (← LoggerManager.getLogger i.name)
  | some it => if i ≠ it then return some (← LoggerManager.getLogger i.name) else return none

def apply (old_value : LogDefines) (i : LogDefine) : LogProgram Unit := do
  match ← findLogger old_value i with
  | none => crash .nullLogger
  | some logger => configure logger i

def remove (new_value : LogDefines) (i : LogDefine) : LogProgram Unit := do
  match new_value.find i.name with
  | some _ => return
  | none =>
      let logger ← LoggerManager.getLogger i.name
      Logger.setLevel logger Chord.LogIniter.tooHigh
      Logger.clearAppenders logger

/-- The listener of `g_log_defines`. -/
def onChange (old_value new_value : LogDefines) : LogProgram Unit := do
  CHORD_LOG_LEVEL platform (← LoggerManager.getRoot) .INFO "logger.cpp" 820
    "on_logger_conf_changed"
  new_value.toList.forM (apply old_value)
  old_value.toList.forM (remove new_value)

end LogIniter

end LogProgram

end Chord
