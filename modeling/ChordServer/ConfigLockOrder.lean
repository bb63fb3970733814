import ChordServer.ConfigLocks
import ChordServer.LockThreads

set_option autoImplicit false

namespace Chord

open YAML LockProgram

variable {types : ConfigTypes} (lib : Libraries types)

/-- What a thread may call, on any objects. The listener that is added is that of
`LogIniter`. -/
inductive Operation (types : ConfigTypes)
  | getLogger (name : String)
  | loggersToYamlString
  | log (logger : LoggerPtr) (level : LogLevel) (event : LogEvent)
  | setLevel (logger : LoggerPtr) (val : LogLevel)
  | setFormatter (logger : LoggerPtr) (val : Option LogFormatter)
  | setFormatterString (logger : LoggerPtr) (val : String)
  | getFormatter (logger : LoggerPtr)
  | addAppender (logger : LoggerPtr) (appender : AppenderPtr)
  | delAppender (logger : LoggerPtr) (appender : AppenderPtr)
  | clearAppenders (logger : LoggerPtr)
  | loggerToYamlString (logger : LoggerPtr)
  | newFileLogAppender (filename : String)
  | newStdOutLogAppender
  | appenderLog (appender : AppenderPtr) (level : LogLevel) (event : LogEvent)
  | setAppenderFormatter (appender : AppenderPtr) (val : Option LogFormatter)
  | getAppenderFormatter (appender : AppenderPtr)
  | setAppenderLevel (appender : AppenderPtr) (level : LogLevel)
  | appenderToYamlString (appender : AppenderPtr)
  | reopen (appender : AppenderPtr) (env : Environment)
  | Lookup (tag : types.Tag) (name : String) (default_value : types.Val tag)
  | LookupOnly (tag : types.Tag) (name : String)
  | LookupBase (name : String)
  | LoadFromYaml (root : Node)
  | getValue (v : VarPtr types)
  | setValue (v : VarPtr types) (val : types.Val v.1)
  | varToString (v : VarPtr types)
  | varFromString (v : VarPtr types) (val : String)
  | addListener (address : Nat)
  | delListener (v : VarPtr types) (key : Nat)

namespace ConfigProgram

/-- The call, with its result thrown away. -/
def ignore {α : Type} (program : ConfigProgram types α) : ConfigProgram types Unit := do
  let _ ← program
  return

/-- The code of a call. -/
def operation : Operation types → ConfigProgram types Unit
  | .getLogger name => ignore (lift (LogProgram.LoggerManager.getLogger name))
  | .loggersToYamlString => ignore (lift (LogProgram.LoggerManager.toYamlString lib.yaml))
  | .log logger level event => lift (LogProgram.Logger.log lib.platform logger level event)
  | .setLevel logger val => lift (LogProgram.Logger.setLevel logger val)
  | .setFormatter logger val => lift (LogProgram.Logger.setFormatter logger val)
  | .setFormatterString logger val => lift (LogProgram.Logger.setFormatterString logger val)
  | .getFormatter logger => ignore (lift (LogProgram.Logger.getFormatter logger))
  | .addAppender logger appender => lift (LogProgram.Logger.addAppender logger appender)
  | .delAppender logger appender => lift (LogProgram.Logger.delAppender logger appender)
  | .clearAppenders logger => lift (LogProgram.Logger.clearAppenders logger)
  | .loggerToYamlString logger => ignore (lift (LogProgram.Logger.toYamlString lib.yaml logger))
  | .newFileLogAppender filename => ignore (lift (LogProgram.FileLogAppender.new filename))
  | .newStdOutLogAppender => ignore (lift LogProgram.StdOutLogAppender.new)
  | .appenderLog appender level event =>
      lift (LogProgram.callAppender lib.platform level event appender)
  | .setAppenderFormatter appender val => lift (LogProgram.LogAppender.setFormatter appender val)
  | .getAppenderFormatter appender => ignore (lift (LogProgram.LogAppender.getFormatter appender))
  | .setAppenderLevel appender level => lift (LogProgram.LogAppender.setLevel appender level)
  | .appenderToYamlString appender =>
      ignore (lift (LogProgram.LogAppender.toYamlString lib.yaml appender))
  | .reopen appender env => lift (LogProgram.FileLogAppender.reopen appender env)
  | .Lookup tag name default_value => ignore (Config.Lookup lib tag name default_value)
  | .LookupOnly tag name => ignore (Config.LookupOnly tag name)
  | .LookupBase name => ignore (Config.LookupBase name)
  | .LoadFromYaml root => Config.LoadFromYaml lib root
  | .getValue v => ignore (ConfigVar.getValue v)
  | .setValue v val => ConfigVar.setValue lib v val
  | .varToString v => ignore (ConfigVar.toString lib v)
  | .varFromString v val => ConfigVar.fromString lib v val
  | .addListener address => ignore (ConfigVar.addListener address)
  | .delListener v key => ConfigVar.delListener v key

end ConfigProgram

/-- The order in which the locks of the process are taken. -/
def ConfigLock.rank (root : LoggerPtr) : ConfigLock types → Nat
  | .map => 0
  | .var _ => 1
  | .log lock => 2 + lock.rank root

namespace ConfigProgram

variable {root : LoggerPtr} {α : Type} {floor : Nat}

/-- The program takes the locks of the process from the rank on, and in order. -/
abbrev Takes (root : LoggerPtr) (floor : Nat) (program : ConfigProgram types α) : Prop :=
  Above (ConfigLock.rank root) (fun s => s.log.Rooted root) floor program

theorem takes_lift {program : LogProgram α} (takes : LogProgram.Takes root floor program) :
    Takes root (2 + floor) (lift program : ConfigProgram types α) := by
  have zoomed : Ordered (ConfigLock.rank root) (fun s : Process types => s.log.Rooted root)
      (2 + floor) ([].map ConfigLock.log) ([].map ConfigLock.log) (lift program) := by
    unfold lift
    refine Ordered.zoom ?_ ?_ ?_ takes
    · exact fun _ => rfl
    · exact fun _ rooted => rooted
    · exact fun _ _ _ rooted => rooted
  exact zoomed

theorem takes_logRoot (level : LogLevel) (file : String) (line : Int) (text : String) :
    Takes root 3 (logRoot lib level file line text) :=
  takes_lift (above_bind (above_read _) fun logger =>
    LogProgram.takes_CHORD_LOG_LEVEL lib.platform level logger file line text)

theorem takes_ignore {program : ConfigProgram types α} (takes : Takes root floor program) :
    Takes root floor (ignore program) := above_bind takes fun _ => above_pure _

/-- A change of the registry, the variables or a counter. -/
theorem takes_call {f : Process types → Process types × α} (same : ∀ s, (f s).1.log = s.log) :
    Takes root floor (call f) := above_call fun s rooted => by rw [same]; exact rooted

theorem takes_modify {f : Process types → Process types} (same : ∀ s, (f s).log = s.log) :
    Takes root floor (modify f) := above_modify fun s rooted => by rw [same]; exact rooted

section Variables
variable (v : VarPtr types)

theorem takes_var {mode : LockMode} {body : ConfigProgram types α} (inside : Takes root 2 body) :
    Takes root 1 (locked (.var v) mode body) := above_locked (Nat.le_refl 1) inside

theorem ConfigVar.takes_toString : Takes root 1 (ConfigVar.toString lib v) := by
  refine above_bind (takes_var v (above_read _)) fun text => ?_
  split
  · exact above_pure _
  · exact above_bind ((takes_logRoot lib _ _ _ _).mono (Nat.le_add_left 1 2)) fun _ => above_pure _
  · exact above_pure _

theorem ConfigVar.takes_callback (tag : types.Tag) (old_value new_value : types.Val tag) :
    Takes root 2 (ConfigVar.callback lib tag old_value new_value) := by
  cases tag with
  | none => exact takes_lift (LogProgram.LogIniter.takes_onChange lib.platform old_value new_value)
  | some t => exact above_pure _

theorem ConfigVar.takes_setValue (val : types.Val v.1) :
    Takes root 1 (ConfigVar.setValue lib v val) := by
  have notified : Takes root 1 (ConfigVar.notify lib v val) := by
    refine takes_var v (above_bind (above_read _) fun var => ?_)
    split
    · exact above_pure _
    · split
      · exact above_pure _
      · exact above_bind (above_forM fun _ _ => takes_callback lib v.1 _ _) fun _ => above_pure _
  refine above_bind notified fun changed => ?_
  split
  · exact takes_var v (takes_modify fun _ => rfl)
  · exact above_pure _

theorem ConfigVar.takes_fromString (val : String) :
    Takes root 1 (ConfigVar.fromString lib v val) := by
  have printed : ∀ text, Takes root 1 (lift (modify fun s =>
      { s with host := s.host.print text }) : ConfigProgram types Unit) := fun text =>
    (takes_lift (LogProgram.takes_print (fun _ => text) 0)).mono (Nat.le_succ 1)
  refine above_bind (printed _) fun _ => ?_
  split
  · exact takes_setValue lib v _
  · exact (takes_logRoot lib _ _ _ _).mono (Nat.le_add_left 1 2)

theorem ConfigVar.takes_delListener (key : Nat) :
    Takes root 1 (ConfigVar.delListener v key) := takes_var v (takes_modify fun _ => rfl)

theorem ConfigVar.takes_addListener (address : Nat) :
    Takes root 1 (ConfigVar.addListener address : ConfigProgram types Nat) :=
  takes_var _ (takes_call fun _ => rfl)

end Variables

theorem takes_map {mode : LockMode} {body : ConfigProgram types α} (inside : Takes root 1 body) :
    Takes root 0 (locked .map mode body) := above_locked (Nat.le_refl 0) inside

theorem Config.takes_found (tag : types.Tag) (name : String) (it : VarPtr types) :
    Takes root 1 (Config.found lib tag name it) := by
  unfold Config.found
  split
  · exact above_bind ((takes_logRoot lib _ _ _ _).mono (Nat.le_add_left 1 2)) fun _ => above_pure _
  · refine above_bind ((takes_lift (LogProgram.LoggerManager.takes_getRoot 0)).mono
      (Nat.le_succ 1)) fun logger => ?_
    refine above_bind ((takes_lift (LogProgram.takes_LogEventWrap lib.platform _ logger _ _ 0)).mono
      (Nat.le_succ 1)) fun event => ?_
    split
    · exact above_pure _
    · refine above_bind (ConfigVar.takes_toString lib it) fun text => ?_
      exact above_bind ((takes_lift (LogProgram.Logger.takes_log lib.platform _ _ logger)).mono
        (Nat.le_add_left 1 2)) fun _ => above_pure _

theorem Config.takes_Lookup (tag : types.Tag) (name : String) (default_value : types.Val tag) :
    Takes root 0 (Config.Lookup lib tag name default_value) := by
  refine takes_map (above_bind (above_read _) fun it => ?_)
  split
  · exact above_bind (takes_found lib tag name _) fun _ => above_pure _
  · split
    · exact above_bind (takes_call fun _ => rfl) fun _ => above_pure _
    · exact above_bind ((takes_logRoot lib _ _ _ _).mono (Nat.le_add_left 1 2))
        fun _ => above_pure _

theorem Config.takes_LoadFromYaml (node : Node) : Takes root 0 (Config.LoadFromYaml lib node) := by
  refine above_bind (above_forM fun text _ =>
    (takes_logRoot lib _ _ _ text).mono (Nat.zero_le 3)) fun _ => above_forM fun entry _ => ?_
  unfold Config.loadEntry
  split
  · exact above_pure _
  · refine above_bind (takes_map (above_read _)) fun var => ?_
    split
    · exact above_pure _
    · exact (ConfigVar.takes_fromString lib _ _).mono (Nat.zero_le 1)

/-- Every call takes its locks in the order of the rank. -/
theorem takes_operation (call : Operation types) : Takes root 0 (operation lib call) := by
  have lifts : ∀ {α : Type} {floor : Nat} {program : LogProgram α},
      LogProgram.Takes root floor program → Takes root 0 (lift program : ConfigProgram types α) :=
    fun takes => (takes_lift takes).mono (Nat.zero_le _)
  cases call with
  | getLogger name => exact takes_ignore (lifts (LogProgram.LoggerManager.takes_getLogger name))
  | loggersToYamlString =>
    exact takes_ignore (lifts (LogProgram.LoggerManager.takes_toYamlString lib.yaml))
  | log logger level event =>
    exact lifts (LogProgram.Logger.takes_log lib.platform level event logger)
  | setLevel logger val => exact lifts (LogProgram.Logger.takes_setLevel logger val 0)
  | setFormatter logger val => exact lifts (LogProgram.Logger.takes_setFormatter logger val)
  | setFormatterString logger val =>
    exact lifts (LogProgram.Logger.takes_setFormatterString logger val)
  | getFormatter logger => exact takes_ignore (lifts (LogProgram.Logger.takes_getFormatter logger))
  | addAppender logger appender =>
    exact lifts (LogProgram.Logger.takes_addAppender logger appender)
  | delAppender logger appender =>
    exact lifts (LogProgram.Logger.takes_delAppender logger appender)
  | clearAppenders logger => exact lifts (LogProgram.Logger.takes_clearAppenders logger)
  | loggerToYamlString logger =>
    exact takes_ignore (lifts (LogProgram.Logger.takes_toYamlString lib.yaml logger))
  | newFileLogAppender filename =>
    exact takes_ignore (lifts (LogProgram.FileLogAppender.takes_new filename))
  | newStdOutLogAppender => exact takes_ignore (lifts LogProgram.StdOutLogAppender.takes_new)
  | appenderLog appender level event =>
    exact lifts (LogProgram.takes_callAppender lib.platform level event appender)
  | setAppenderFormatter appender val =>
    exact lifts (LogProgram.LogAppender.takes_setFormatter appender val)
  | getAppenderFormatter appender =>
    exact takes_ignore (lifts (LogProgram.LogAppender.takes_getFormatter appender))
  | setAppenderLevel appender level =>
    exact lifts (LogProgram.takes_updateAppender appender _ 0)
  | appenderToYamlString appender =>
    exact takes_ignore (lifts (LogProgram.LogAppender.takes_toYamlString lib.yaml appender))
  | reopen appender env => exact lifts (LogProgram.FileLogAppender.takes_reopen appender env)
  | Lookup tag name default_value =>
    exact takes_ignore (Config.takes_Lookup lib tag name default_value)
  | LookupOnly tag name => exact takes_ignore (takes_map (above_read _))
  | LookupBase name => exact takes_ignore (takes_map (above_read _))
  | LoadFromYaml root => exact Config.takes_LoadFromYaml lib root
  | getValue v => exact takes_ignore ((takes_var v (above_read _)).mono (Nat.zero_le 1))
  | setValue v val => exact (ConfigVar.takes_setValue lib v val).mono (Nat.zero_le 1)
  | varToString v => exact takes_ignore ((ConfigVar.takes_toString lib v).mono (Nat.zero_le 1))
  | varFromString v val => exact (ConfigVar.takes_fromString lib v val).mono (Nat.zero_le 1)
  | addListener address =>
    exact takes_ignore ((ConfigVar.takes_addListener address).mono (Nat.zero_le 1))
  | delListener v key => exact (ConfigVar.takes_delListener v key).mono (Nat.zero_le 1)

end ConfigProgram

/-- The process when its static objects have been made: a fresh `LoggerManager`, and
`g_log_defines` in the registry with the listener of `LogIniter`. -/
def Process.start (types : ConfigTypes) (host : Host) (answers : Nat → Environment) :
    Process types where
  log := LoggerManager.new host answers
  GetDatas := fun name => if name = "logs" then some (none, 0) else none
  vars := fun v =>
    match v with
    | (none, 0) => some { m_val := (∅ : LogDefines), m_cbs := [1] }
    | _ => none
  varCount := 1
  s_fun_id := fun tag => if tag = none then 1 else 0

/-- Threads that call the functions of the process in any order never deadlock. -/
theorem process_deadlockFree {ι : Type} [DecidableEq ι] (host : Host)
    (answers : Nat → Environment) (actions : List (LockThreads.Action ι (Operation types))) :
    Transition.EveryState (LockThreads.step (ConfigProgram.operation lib))
      LockThreads.DeadlockFree
      ({ shared := Process.start types host answers } :
        LockThreads ι (ConfigLock types) (Process types) Fault) actions :=
  LockThreads.everyState_deadlockFree
    (fun call => ConfigProgram.takes_operation lib call)
    (LogSystem.Rooted.new host answers) actions

end Chord
