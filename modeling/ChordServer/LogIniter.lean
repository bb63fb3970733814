import ChordServer.ConfigVar
import ChordServer.LogDefine
import ChordServer.Logger

set_option autoImplicit false

namespace Chord

namespace LogIniter

/-- `new FileLogAppender(a.file)` or `new StdOutLogAppender`; `ap` stays null for any
other type. -/
def newAppender (s : LogSystem) (a : LogAppenderDefine) : LogSystem × Option AppenderPtr :=
  if a.type = 1 then
    let made := s.newFileLogAppender a.file
    (made.1, some made.2)
  else if a.type = 2 then
    let made := s.newStdOutLogAppender
    (made.1, some made.2)
  else (s, none)

/-- The formatter of a new appender; one with an error is reported and not used. -/
def setAppenderFormatter (i : LogDefine) (s : LogSystem) (ap : AppenderPtr)
    (a : LogAppenderDefine) : LogSystem :=
  if a.formatter ≠ "" then
    let fmt : LogFormatter := ⟨a.formatter⟩
    if fmt.isError = false then s.updateAppender ap fun base => base.setFormatter (some fmt)
    else
      { s with
        host := s.host.print
          ("log name=" ++ i.name ++ "appender type=" ++ toString a.type ++ "formatter" ++
            a.formatter ++ "invalid\n") }
  else s

/-- One round of the loop over `i.appenders`. -/
def addDefined (i : LogDefine) (logger : LoggerPtr) (s : LogSystem) (a : LogAppenderDefine) :
    Except Fault LogSystem :=
  let made := newAppender s a
  match made.2 with
  | none => .error .nullAppender
  | some ap =>
      let s := made.1.updateAppender ap fun base => base.setLevel a.level
      let s := setAppenderFormatter i s ap a
      .ok (Logger.addAppender s logger ap)

/-- What the loop over `new_value` does to the logger of `i`. -/
def configure (s : LogSystem) (logger : LoggerPtr) (i : LogDefine) : Except Fault LogSystem :=
  let s := Logger.setLevel s logger i.level
  let s := if i.formatter ≠ "" then Logger.setFormatterString s logger i.formatter else s
  let s := Logger.clearAppenders s logger
  i.appenders.foldlM (addDefined i logger) s

/-- The logger that a definition is applied to. A definition that is also in the old set
and equal there leaves the pointer null. -/
def findLogger (old_value : LogDefines) (s : LogSystem) (i : LogDefine) :
    LogSystem × Option LoggerPtr :=
  match old_value.find i.name with
  | none =>
      let got := LoggerManager.getLogger s i.name
      (got.1, some got.2)
  | some it =>
      if i ≠ it then
        let got := LoggerManager.getLogger s i.name
        (got.1, some got.2)
      else (s, none)

/-- One round of the loop over `new_value`. -/
def apply (old_value : LogDefines) (s : LogSystem) (i : LogDefine) : Except Fault LogSystem :=
  let found := findLogger old_value s i
  match found.2 with
  | none => .error .nullLogger
  | some logger => configure found.1 logger i

/-- `(LogLevel::Level)100`. -/
def tooHigh : LogLevel := ⟨100⟩

/-- One round of the loop over `old_value`. -/
def remove (new_value : LogDefines) (s : LogSystem) (i : LogDefine) : LogSystem :=
  match new_value.find i.name with
  | some _ => s
  | none =>
      let got := LoggerManager.getLogger s i.name
      Logger.clearAppenders (Logger.setLevel got.1 got.2 tooHigh) got.2

/-- The body of the listener. -/
def onChange (platform : Platform) (old_value new_value : LogDefines) (s : LogSystem) :
    Except Fault LogSystem := do
  let s ← CHORD_LOG_LEVEL platform s (LoggerManager.getRoot s) .INFO "logger.cpp" 820
    "on_logger_conf_changed"
  let s ← new_value.toList.foldlM (apply old_value) s
  return old_value.toList.foldl (remove new_value) s

/-- The listener that the constructor of `LogIniter` adds to `g_log_defines`. -/
def listener (platform : Platform) : on_change_cb LogDefines Fault LogSystem :=
  fun old_value new_value s =>
    match onChange platform old_value new_value s with
    | .ok s => .returned s
    | .error fault => .crashed fault

end LogIniter

/-- `g_log_defines` with a value and the one listener of `__log_init`. -/
def g_log_defines (platform : Platform) (m_val : LogDefines) :
    ConfigVar LogDefines Fault LogSystem :=
  ({ m_val := m_val } : ConfigVar LogDefines Fault LogSystem).addListener 1
    (LogIniter.listener platform)

/-- The loggers of the process and the value of `g_log_defines`. -/
structure Logging where
  log : LogSystem
  m_val : LogDefines

namespace Logging

/-- What the program may do with its loggers and their configuration. Loggers come
from `getLogger` only. -/
inductive Action
  | getLogger (name : String)
  | setLevel (logger : LoggerPtr) (val : LogLevel)
  | setFormatter (logger : LoggerPtr) (val : Option LogFormatter)
  | setFormatterString (logger : LoggerPtr) (val : String)
  | addAppender (logger : LoggerPtr) (appender : AppenderPtr)
  | delAppender (logger : LoggerPtr) (appender : AppenderPtr)
  | clearAppenders (logger : LoggerPtr)
  | newFileLogAppender (filename : String)
  | newStdOutLogAppender
  | setAppenderFormatter (appender : AppenderPtr) (val : Option LogFormatter)
  | setAppenderLevel (appender : AppenderPtr) (level : LogLevel)
  | log (logger : LoggerPtr) (level : LogLevel) (event : LogEvent)
  | setValue (val : LogDefines)

/-- The loggers and appenders that an action is given exist. -/
def Action.Valid (s : LogSystem) : Action → Prop
  | .setLevel logger _ => logger < s.loggerCount
  | .setFormatter logger _ => logger < s.loggerCount
  | .setFormatterString logger _ => logger < s.loggerCount
  | .addAppender logger appender => logger < s.loggerCount ∧ appender < s.appenderCount
  | .delAppender logger _ => logger < s.loggerCount
  | .clearAppenders logger => logger < s.loggerCount
  | .setAppenderFormatter appender _ => appender < s.appenderCount
  | .setAppenderLevel appender _ => appender < s.appenderCount
  | .log logger _ _ => logger < s.loggerCount
  | _ => True

instance (s : LogSystem) (action : Action) : Decidable (action.Valid s) := by
  cases action <;> unfold Action.Valid <;> infer_instance

/-- What one action does to the loggers, other than by the configuration. -/
def act (platform : Platform) (s : LogSystem) : Action → Except Fault LogSystem
  | .getLogger name => .ok (LoggerManager.getLogger s name).1
  | .setLevel logger val => .ok (Logger.setLevel s logger val)
  | .setFormatter logger val => .ok (Logger.setFormatter s logger val)
  | .setFormatterString logger val => .ok (Logger.setFormatterString s logger val)
  | .addAppender logger appender => .ok (Logger.addAppender s logger appender)
  | .delAppender logger appender => .ok (Logger.delAppender s logger appender)
  | .clearAppenders logger => .ok (Logger.clearAppenders s logger)
  | .newFileLogAppender filename => .ok (s.newFileLogAppender filename).1
  | .newStdOutLogAppender => .ok s.newStdOutLogAppender.1
  | .setAppenderFormatter appender val =>
      .ok (s.updateAppender appender fun base => base.setFormatter val)
  | .setAppenderLevel appender level =>
      .ok (s.updateAppender appender fun base => base.setLevel level)
  | .log logger level event => Logger.log s logger platform level event
  | .setValue _ => .ok s

/-- `none` if the action is not possible or does not return. -/
def step (platform : Platform) (s : Logging) (action : Action) : Option Logging :=
  match action with
  | .setValue val =>
      let result := (g_log_defines platform s.m_val).setValue val s.log
      match result.outcome with
      | .returned log => some { log := log, m_val := result.var.m_val }
      | _ => none
  | action =>
      if action.Valid s.log then
        match act platform s.log action with
        | .ok log => some { s with log := log }
        | .error _ => none
      else none

/-- A fresh `LoggerManager` and a fresh `g_log_defines`. -/
def start (host : Host) (answers : Nat → Environment) : Logging :=
  { log := LoggerManager.new host answers, m_val := ∅ }

end Logging

end Chord
