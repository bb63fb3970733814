import ChordServer.Fallible
import ChordServer.LoggerLocks

set_option autoImplicit false

namespace Chord.LogProgram

open LockProgram YAML

variable (platform : Platform) (yaml : YamlCpp) (level : LogLevel) (event : LogEvent)
  (s : LogSystem)

/-- One thread that runs the program does to the loggers what the function says. -/
abbrev Performs (program : LogProgram Unit) (s : LogSystem) (effect : Except Fault LogSystem) :
    Prop := program.alone s = effect.map fun next => ((), next)

namespace FileLogAppender

variable {this : AppenderPtr} {s}

@[simp] theorem setFile_self (changed : Chord.FileLogAppender × Host) :
    (setFile this changed s).appenders this = .file changed.1 := Function.update_self _ _ _

@[simp] theorem setFile_host (changed : Chord.FileLogAppender × Host) :
    (setFile this changed s).host = changed.2 := rfl

@[simp] theorem setFile_setFile (first second : Chord.FileLogAppender × Host) :
    setFile this second (setFile this first s) = setFile this second s := by
  simp [setFile, LogSystem.setAppender]

variable {appender : Chord.FileLogAppender}

theorem setFile_same (file : s.appenders this = .file appender) :
    setFile this (appender, s.host) s = s := by
  simp [setFile, LogSystem.setAppender, ← file]

theorem update_of_file (file : s.appenders this = .file appender)
    (f : Chord.FileLogAppender → Host → Chord.FileLogAppender × Host) :
    update this f s = setFile this (f appender s.host) s := by
  unfold update
  rw [file]

theorem reopenAt_alone (file : s.appenders this = .file appender) (env : Environment) :
    (reopenAt this env).alone s = .ok ((), setFile this (appender.reopenAt env s.host) s) := by
  unfold reopenAt Chord.FileLogAppender.reopenAt
  have due : due this env s = decide (env.now ≠ appender.m_lastTime + 3) := by
    unfold FileLogAppender.due
    rw [file]
  simp only [alone_bind, alone_read, Except.bind, due, decide_eq_true_eq]
  split
  · simp only [alone_bind, reopen, alone_locked, alone_modify, Except.bind, update_of_file file]
    rw [update_of_file (setFile_self _), setFile_setFile]
    rfl
  · rw [setFile_same file]
    rfl

theorem log_alone (file : s.appenders this = .file appender) (env : Environment) :
    Performs (log platform this level event env) s
      (match appender.log platform level event env s.host with
        | none => .error .nullFormatter
        | some result => .ok (setFile this result s)) := by
  unfold Performs log Chord.FileLogAppender.log
  have base : (s.appenders this).base = appender.toLogAppender := by rw [file]; rfl
  simp only [alone_bind, alone_read, Except.bind, base, decide_eq_true_eq]
  split
  · rw [alone_bind, reopenAt_alone file]
    simp only [Except.bind, write, alone_locked, alone_bind, alone_read, setFile_self,
      Appender.base]
    cases (appender.reopenAt env s.host).1.m_formatter with
    | none => rfl
    | some formatter =>
      rw [Option.map_some, alone_modify, update_of_file (setFile_self _), setFile_setFile]
      rfl
  · dsimp only
    rw [setFile_same file]
    rfl

end FileLogAppender

theorem StdOutLogAppender.log_alone {this : AppenderPtr} {appender : Chord.LogAppender}
    (stdout : s.appenders this = .stdout appender) :
    Performs (StdOutLogAppender.log platform this level event) s
      (match Chord.StdOutLogAppender.log platform appender level event s.host with
        | none => .error .nullFormatter
        | some host => .ok { s with host := host }) := by
  unfold Performs StdOutLogAppender.log Chord.StdOutLogAppender.log
  have base : (s.appenders this).base = appender := by rw [stdout]; rfl
  simp only [alone_bind, alone_read, Except.bind, base, decide_eq_true_eq]
  split
  · simp only [alone_locked, alone_bind, alone_read, Except.bind, base]
    cases appender.m_formatter <;> rfl
  · rfl

theorem callAppender_alone (i : AppenderPtr) :
    Performs (callAppender platform level event i) s (s.callAppender platform level event i) := by
  unfold Performs callAppender LogSystem.callAppender
  simp only [alone_bind, alone_call, alone_read, Except.bind]
  cases shape : s.appenders i with
  | file appender =>
    refine (FileLogAppender.log_alone platform level event (by exact shape) _).trans ?_
    simp only [Appender.log]
    cases appender.log platform level event (s.answers s.asked) s.host <;> rfl
  | stdout appender =>
    refine (StdOutLogAppender.log_alone platform level event _ (by exact shape)).trans ?_
    simp only [Appender.log]
    cases Chord.StdOutLogAppender.log platform appender level event s.host with
    | none => rfl
    | some host => simp [Except.map, LogSystem.setAppender, ← shape]

namespace Logger

variable (this : LoggerPtr)

theorem setFormatter_alone (val : Option LogFormatter) :
    Performs (setFormatter this val) s (.ok (Chord.Logger.setFormatter s this val)) := by
  have follow : ∀ i s, Performs (locked (.appender i) .write
      (modify fun s => Chord.Logger.followFormatter val s i)) s
      (pure (Chord.Logger.followFormatter val s i)) := fun _ _ => rfl
  unfold Performs setFormatter Chord.Logger.setFormatter
  simp only [alone_locked, alone_bind, alone_modify, alone_read, Except.bind]
  rw [alone_forM _ fun i _ s => follow i s, List.foldlM_pure]
  rfl

theorem setFormatterString_alone (val : String) :
    Performs (setFormatterString this val) s
      (.ok (Chord.Logger.setFormatterString s this val)) := by
  unfold Performs setFormatterString Chord.Logger.setFormatterString
  dsimp only
  split
  · rfl
  · exact setFormatter_alone s this _

theorem addAppender_alone (appender : AppenderPtr) :
    Performs (addAppender this appender) s (.ok (Chord.Logger.addAppender s this appender)) := by
  unfold Performs addAppender lendFormatter Chord.Logger.addAppender
  simp only [alone_locked, alone_bind, LogAppender.getFormatter, alone_read, Except.bind]
  by_cases bare : (s.appenders appender).base.getFormatter.isNone = true
  · simp only [if_pos bare, alone_locked, alone_modify]
    rfl
  · simp only [if_neg bare, alone_pure, alone_modify]
    rfl

theorem logUnlocked_alone (unlocked : Nat) : ∀ (s : LogSystem) (this : LoggerPtr),
    Performs (logUnlocked platform level event unlocked this) s
      (Chord.Logger.logUnlocked platform level event unlocked s this) := by
  induction unlocked with
  | zero => exact fun _ _ => rfl
  | succ unlocked ih =>
    intro s this
    unfold Performs logUnlocked Chord.Logger.logUnlocked
    simp only [alone_bind, alone_read, Except.bind, decide_eq_true_eq]
    split
    · simp only [alone_locked, alone_bind, alone_read, Except.bind]
      split
      · exact alone_forM _ (fun i _ s => callAppender_alone platform level event s i) s
      · simp only [alone_bind, alone_read, Except.bind]
        cases (s.loggers this).m_root with
        | none => rfl
        | some m_root => exact ih s m_root
    · rfl

theorem log_alone : Performs (log platform this level event) s
    (Chord.Logger.log s this platform level event) :=
  logUnlocked_alone platform level event s.loggerCount s this

theorem toYamlString_alone : (toYamlString yaml this).alone s =
    .ok (Chord.Logger.toYamlString yaml s this, s) := by
  have pushed : ∀ node, ∀ i ∈ (s.loggers this).m_appenders, (pushAppender yaml node i).alone s =
      .ok (node.map fun node => node.pushBackAt "appenders" (s.appenders i).toYaml, s) := by
    intro node i _
    cases node with
    | error exception => rfl
    | ok node =>
      simp only [pushAppender, LogAppender.toYamlString, alone_bind, alone_locked, alone_read,
        Except.bind, Appender.toYamlString_eq, yaml.Load_emit]
      rfl
  simp only [toYamlString, alone_locked, alone_bind, alone_read, Except.bind]
  rw [alone_foldlM _ pushed, Fallible.foldl_map_ok, Chord.Logger.toYamlString_eq]
  rfl

end Logger

namespace LoggerManager

theorem getLogger_alone (name : String) : (getLogger name).alone s =
    .ok ((Chord.LoggerManager.getLogger s name).2, (Chord.LoggerManager.getLogger s name).1) := rfl

theorem toYamlString_alone : (toYamlString yaml).alone s =
    .ok (Chord.LoggerManager.toYamlString yaml s, s) := by
  have pushed : ∀ node, ∀ i ∈ s.m_logger.toList, (pushLogger yaml node i).alone s =
      .ok (node.map fun node => node.push_back (Chord.Logger.toYaml s i.2), s) := by
    intro node i _
    cases node with
    | error exception => rfl
    | ok node =>
      simp only [pushLogger, alone_bind, Logger.toYamlString_alone, Except.bind,
        Chord.Logger.toYamlString_eq]
      change Except.ok (((yaml.Load _).map node.push_back), s) = _
      rw [yaml.Load_emit]
      rfl
  simp only [toYamlString, alone_locked, alone_bind, alone_read, Except.bind]
  rw [alone_foldlM _ pushed, Fallible.foldl_map_ok, Chord.LoggerManager.toYamlString_eq]
  rfl

end LoggerManager

theorem CHORD_LOG_LEVEL_alone (logger : LoggerPtr) (file : String) (line : Int) (text : String) :
    Performs (CHORD_LOG_LEVEL platform logger level file line text) s
      (Chord.CHORD_LOG_LEVEL platform s logger level file line text) := by
  unfold Performs CHORD_LOG_LEVEL LogEventWrap Chord.CHORD_LOG_LEVEL
  simp only [alone_bind, alone_read, Except.bind, decide_eq_true_eq]
  by_cases passes : (s.loggers logger).m_level ≤ level
  · simp only [if_pos passes, alone_bind, alone_call, alone_pure, Except.bind]
    exact Logger.log_alone platform level _ _ logger
  · simp only [if_neg passes, alone_pure]
    rfl

namespace LogIniter

theorem newAppender_alone (a : LogAppenderDefine) : (newAppender a).alone s =
    .ok ((Chord.LogIniter.newAppender s a).2, (Chord.LogIniter.newAppender s a).1) := by
  unfold newAppender Chord.LogIniter.newAppender
  split
  · simp only [alone_bind, FileLogAppender.new, alone_call, Except.bind, FileLogAppender.reopen,
      alone_locked, alone_modify, alone_pure]
    rw [FileLogAppender.update_of_file (by exact LogSystem.setAppender_self _ _ _)]
    simp [FileLogAppender.setFile, LogSystem.newFileLogAppender, LogSystem.setAppender,
      Chord.FileLogAppender.new]
  · split <;> rfl

theorem setAppenderFormatter_alone (i : LogDefine) (ap : AppenderPtr) (a : LogAppenderDefine) :
    Performs (setAppenderFormatter i ap a) s
      (.ok (Chord.LogIniter.setAppenderFormatter i s ap a)) := by
  unfold Performs setAppenderFormatter Chord.LogIniter.setAppenderFormatter
  dsimp only
  split_ifs <;> rfl

theorem addDefined_alone (i : LogDefine) (logger : LoggerPtr) (a : LogAppenderDefine) :
    Performs (addDefined i logger a) s (Chord.LogIniter.addDefined i logger s a) := by
  unfold Performs addDefined Chord.LogIniter.addDefined
  simp only [alone_bind, newAppender_alone, Except.bind]
  cases (Chord.LogIniter.newAppender s a).2 with
  | none => rfl
  | some ap =>
    simp only [alone_bind, LogAppender.setLevel, alone_modify, Except.bind]
    rw [setAppenderFormatter_alone]
    exact Logger.addAppender_alone _ logger ap

theorem configure_alone (logger : LoggerPtr) (i : LogDefine) :
    Performs (configure logger i) s (Chord.LogIniter.configure s logger i) := by
  unfold Performs configure Chord.LogIniter.configure
  simp only [alone_bind, Logger.setLevel, alone_modify, Except.bind, Logger.clearAppenders,
    alone_locked]
  by_cases given : i.formatter ≠ ""
  · simp only [if_pos given]
    rw [Logger.setFormatterString_alone]
    exact alone_forM _ (fun a _ s => addDefined_alone s i logger a) _
  · simp only [if_neg given, alone_pure]
    exact alone_forM _ (fun a _ s => addDefined_alone s i logger a) _

theorem apply_alone (old_value : LogDefines) (i : LogDefine) :
    Performs (apply old_value i) s (Chord.LogIniter.apply old_value s i) := by
  have found : (findLogger old_value i).alone s = .ok
      ((Chord.LogIniter.findLogger old_value s i).2,
        (Chord.LogIniter.findLogger old_value s i).1) := by
    unfold findLogger Chord.LogIniter.findLogger
    cases old_value.find i.name with
    | none => rfl
    | some it =>
      dsimp only
      split_ifs <;> rfl
  unfold Performs apply Chord.LogIniter.apply
  simp only [alone_bind, found, Except.bind]
  cases (Chord.LogIniter.findLogger old_value s i).2 with
  | none => rfl
  | some logger => exact configure_alone _ logger i

theorem remove_alone (new_value : LogDefines) (i : LogDefine) :
    Performs (remove new_value i) s (.ok (Chord.LogIniter.remove new_value s i)) := by
  unfold Performs remove Chord.LogIniter.remove
  cases new_value.find i.name <;> rfl

/-- One thread that runs the listener does what `onChange` says. -/
theorem onChange_alone (old_value new_value : LogDefines) :
    Performs (onChange platform old_value new_value) s
      (Chord.LogIniter.onChange platform old_value new_value s) := by
  unfold Performs onChange Chord.LogIniter.onChange
  simp only [alone_bind, LoggerManager.getRoot, alone_read, Except.bind]
  rw [CHORD_LOG_LEVEL_alone]
  cases Chord.CHORD_LOG_LEVEL platform s (Chord.LoggerManager.getRoot s) .INFO "logger.cpp" 820
    "on_logger_conf_changed" with
  | error fault => rfl
  | ok s =>
    simp only [Except.map]
    rw [alone_forM new_value.toList fun i _ s => apply_alone s old_value i]
    change _ = Except.map _
      ((new_value.toList.foldlM (Chord.LogIniter.apply old_value) s).bind fun s =>
        pure (old_value.toList.foldl (Chord.LogIniter.remove new_value) s))
    cases new_value.toList.foldlM (Chord.LogIniter.apply old_value) s with
    | error fault => rfl
    | ok s =>
      refine (alone_forM old_value.toList (fun i _ s => remove_alone s new_value i) s).trans ?_
      exact congrArg (Except.map _) List.foldlM_pure

end LogIniter

end Chord.LogProgram
