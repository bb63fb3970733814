import ChordServer.ConfigLoadLogging
import ChordServer.LoggerEffects

set_option autoImplicit false

namespace Chord

/-- The event of the macro `CHORD_LOG_LEVEL`, at a logger of this name. -/
def LogEvent.made (platform : Platform) (env : Environment) (name : String) (level : LogLevel)
    (file : String) (line : Int) (text : String) : LogEvent :=
  { m_file := platform.sources ++ file, m_line := line, m_elapsed := 0,
    m_threadId := env.threadId, m_fiberId := env.fiberId, m_time := env.now, m_ss := text,
    m_logger := name, m_level := level }

theorem CHORD_LOG_LEVEL_eq (platform : Platform) (s : LogSystem) (logger : LoggerPtr)
    (level : LogLevel) (file : String) (line : Int) (text : String) :
    CHORD_LOG_LEVEL platform s logger level file line text =
      if (s.loggers logger).m_level ≤ level then
        Logger.log { s with asked := s.asked + 1 } logger platform level
          (.made platform (s.answers s.asked) (s.loggers logger).m_name level file line text)
      else .ok s := rfl

/-- What the program does with its loggers, each time through `CHORD_LOG_NAME(name)`. An appender
is new when it is added, and set up as the listener of `LogIniter` does it. -/
inductive Command
  | setLevel (name : String) (val : LogLevel)
  | setFormatter (name : String) (val : String)
  | clearAppenders (name : String)
  | addAppender (name : String) (a : LogAppenderDefine)
  | log (name : String) (level : LogLevel) (event : LogEvent)
  | print (name : String) (level : LogLevel) (file : String) (line : Int) (text : String)
  | setValue (val : LogDefines)

namespace Logging

def perform (platform : Platform) (state : Logging) : Command → Option Logging
  | .setLevel name val =>
      let got := LoggerManager.getLogger state.log name
      some { state with log := Logger.setLevel got.1 got.2 val }
  | .setFormatter name val =>
      let got := LoggerManager.getLogger state.log name
      some { state with log := Logger.setFormatterString got.1 got.2 val }
  | .clearAppenders name =>
      let got := LoggerManager.getLogger state.log name
      some { state with log := Logger.clearAppenders got.1 got.2 }
  | .addAppender name a =>
      let got := LoggerManager.getLogger state.log name
      (LogIniter.addDefined { name := name } got.2 got.1 a).toOption.map fun log =>
        { state with log := log }
  | .log name level event =>
      let got := LoggerManager.getLogger state.log name
      (Logger.log got.1 got.2 platform level event).toOption.map fun log =>
        { state with log := log }
  | .print name level file line text =>
      let got := LoggerManager.getLogger state.log name
      (CHORD_LOG_LEVEL platform got.1 got.2 level file line text).toOption.map fun log =>
        { state with log := log }
  | .setValue val => step platform state (.setValue val)

end Logging

/-- What comes of an event at an appender that is set so. -/
def AppenderView.output (platform : Platform) (level : LogLevel) (event : LogEvent)
    (view : AppenderView) : Option Output :=
  if view.level ≤ level then
    view.effective.map fun pattern =>
      .line view.file ((LogFormatter.mk pattern).format platform level event)
  else none

/-- An appender without a pattern of its own gets another one. -/
def AppenderView.followed (pattern : Option String) (view : AppenderView) : AppenderView :=
  if view.own.isSome then view else { view with effective := pattern }

namespace LoggerView

def outputs (platform : Platform) (level : LogLevel) (event : LogEvent) (view : LoggerView) :
    List Output := view.appenders.filterMap (·.output platform level event)

/-- A pattern with an error is refused. -/
def reformatted (val : String) (view : LoggerView) : LoggerView :=
  if (LogFormatter.mk val).isError then view
  else
    { view with
      formatter := some val
      appenders := view.appenders.map (.followed (some val)) }

def added (a : LogAppenderDefine) (view : LoggerView) : LoggerView :=
  { view with appenders := view.appenders ++ [.ofDefine view.formatter a] }

end LoggerView

/-- The message about a pattern that is refused. -/
def LoggerView.refusal (name val : String) : List Output :=
  if (LogFormatter.mk val).isError then
    [.printed ("Logger setFormatter name=" ++ name ++ "value=" ++ val ++ " invalid formatter\n")]
  else []

/-- An appender of a definition opens its file, and reports a pattern with an error. -/
def LogAppenderDefine.outputs (name : String) (a : LogAppenderDefine) : List Output :=
  (if a.type = 1 then [.opened a.file] else []) ++
    if a.formatter ≠ "" ∧ (LogFormatter.mk a.formatter).isError then
      [.printed ("log name=" ++ name ++ "appender type=" ++ toString a.type ++ "formatter" ++
        a.formatter ++ "invalid\n")]
    else []

/-- What comes of a definition that is applied. -/
def LogDefine.outputs (d : LogDefine) : List Output :=
  (if d.formatter ≠ "" then LoggerView.refusal d.name d.formatter else []) ++
    d.appenders.flatMap (·.outputs d.name)

/-- The loggers as a program sees them: every name has one, which is what it is set to. -/
structure Loggers where
  view : String → LoggerView
  m_val : LogDefines

namespace Loggers

/-- Before anything has been set, `root` has the standard output and no other logger has an
appender. -/
def fresh : Loggers where
  view name :=
    { level := .DEBUG
      formatter := some defaultPattern
      appenders :=
        if name = "root" then [⟨none, .DEBUG, none, some defaultPattern⟩] else [] }
  m_val := ∅

def change (loggers : Loggers) (name : String) (f : LoggerView → LoggerView) : Loggers :=
  { loggers with view := fun n => LogIniter.only name f n (loggers.view n) }

/-- What comes of an event at the logger of a name: the lines of its appenders, or of those of
`root` if it has none. -/
def outputs (platform : Platform) (loggers : Loggers) (name : String) (level : LogLevel)
    (event : LogEvent) : List Output :=
  if (loggers.view name).level ≤ level then
    if (loggers.view name).appenders ≠ [] then (loggers.view name).outputs platform level event
    else if (loggers.view "root").level ≤ level then
      (loggers.view "root").outputs platform level event
    else []
  else []

/-- The meaning of the commands: the next loggers, and what the host is handed. The environment
answers for the events that the macro makes. -/
def step (platform : Platform) (loggers : Loggers) :
    Command × Environment → Option (Loggers × List Output)
  | (.setLevel name val, _) => some (loggers.change name fun view => { view with level := val }, [])
  | (.setFormatter name val, _) =>
      some (loggers.change name (.reformatted val), LoggerView.refusal name val)
  | (.clearAppenders name, _) =>
      some (loggers.change name fun view => { view with appenders := [] }, [])
  | (.addAppender name a, _) =>
      if a.type = 1 ∨ a.type = 2 then some (loggers.change name (.added a), a.outputs name)
      else none
  | (.log name level event, _) => some (loggers, loggers.outputs platform name level event)
  | (.print name level file line text, env) =>
      let event := LogEvent.made platform env name level file line text
      some (loggers, loggers.outputs platform name level event)
  | (.setValue val, env) =>
      let event := LogEvent.made platform env "root" .INFO "logger.cpp" 820
        "on_logger_conf_changed"
      if val = loggers.m_val then some (loggers, [])
      else if val.KnownTypes ∧ LogDefines.NoneUnchanged loggers.m_val val then
        let changed := LogIniter.changed loggers.m_val val
        some ({ view := fun n => changed n (loggers.view n), m_val := val },
          loggers.outputs platform "root" .INFO event ++ val.toList.flatMap LogDefine.outputs)
      else none

end Loggers

end Chord
