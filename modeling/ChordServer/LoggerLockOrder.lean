import ChordServer.LoggerLocks

set_option autoImplicit false

namespace Chord

open LockProgram

/-- The order in which the locks of the logging code are taken. -/
def LogLock.rank (root : LoggerPtr) : LogLock → Nat
  | .manager => 0
  | .logger p => if p = root then 2 else 1
  | .appender _ => 3

/-- Every logger falls back on the root or on nothing, and the root on nothing. -/
structure LogSystem.Rooted (root : LoggerPtr) (s : LogSystem) : Prop where
  m_root : s.m_root = root
  made : root < s.loggerCount
  falls : ∀ p m_root, (s.loggers p).m_root = some m_root → m_root = root ∧ p ≠ root

namespace LogSystem.Rooted

variable {root : LoggerPtr} {s t : LogSystem}

theorem new (host : Host) (answers : Nat → Environment) :
    (LoggerManager.new host answers).Rooted 0 := by
  refine ⟨rfl, Nat.zero_lt_one, fun p m_root falls => ?_⟩
  have none : ((LoggerManager.new host answers).loggers p).m_root = none := by
    by_cases here : p = 0
    · rw [here]
      rfl
    · exact congrArg Logger.m_root (LogSystem.setLogger_other _ _ here)
  rw [none] at falls
  cases falls

theorem of_same (rooted : s.Rooted root) (m_root : t.m_root = s.m_root)
    (loggers : t.loggers = s.loggers) (loggerCount : t.loggerCount = s.loggerCount) :
    t.Rooted root := by
  refine ⟨m_root.trans rooted.m_root, by rw [loggerCount]; exact rooted.made, ?_⟩
  rw [loggers]
  exact rooted.falls

theorem setLogger (rooted : s.Rooted root) (p : LoggerPtr) {logger : Logger}
    (same : logger.m_root = (s.loggers p).m_root) : (s.setLogger p logger).Rooted root := by
  refine ⟨rooted.m_root, rooted.made, fun q m_root falls => rooted.falls q m_root ?_⟩
  by_cases here : q = p
  · rwa [here, setLogger_self, same, ← here] at falls
  · rwa [setLogger_other s logger here] at falls

theorem getLogger (rooted : s.Rooted root) (name : String) :
    (LoggerManager.getLogger s name).1.Rooted root := by
  unfold LoggerManager.getLogger
  split
  · exact rooted
  · refine ⟨rooted.m_root, Nat.lt_succ_of_lt rooted.made, fun q m_root falls => ?_⟩
    by_cases new : q = s.loggerCount
    · have fallsNew : some s.m_root = some m_root := by
        rw [new] at falls
        exact (congrArg Logger.m_root (setLogger_self s s.loggerCount _)).symm.trans falls
      exact ⟨(Option.some.inj fallsNew).symm.trans rooted.m_root,
        fun same => absurd rooted.made (by rw [← same, new]; exact Nat.lt_irrefl _)⟩
    · refine rooted.falls q m_root ?_
      exact (congrArg Logger.m_root (setLogger_other s _ new)).symm.trans falls

theorem update (rooted : s.Rooted root) (this : AppenderPtr)
    (f : FileLogAppender → Host → FileLogAppender × Host) :
    (LogProgram.FileLogAppender.update this f s).Rooted root := by
  unfold LogProgram.FileLogAppender.update
  split
  · exact rooted.of_same rfl rfl rfl
  · exact rooted

end LogSystem.Rooted

namespace LogProgram

open LogSystem

variable (root : LoggerPtr)

/-- The program takes locks of the logging code from the rank on, and in order. -/
abbrev Takes {α : Type} (floor : Nat) (program : LogProgram α) : Prop :=
  Above (LogLock.rank root) (Rooted root) floor program

variable {root} (platform : Platform) (yaml : YAML.YamlCpp) (level : LogLevel) (event : LogEvent)

theorem takes_appender {α : Type} {this : AppenderPtr} {body : LogProgram α}
    (inside : Takes root 4 body) : Takes root 3 (locked (.appender this) .write body) :=
  above_locked (Nat.le_refl 3) inside

section Appenders
variable (this : AppenderPtr)

theorem takes_updateAppender (f : LogAppender → LogAppender) (floor : Nat) :
    Takes root floor (modify fun s => s.updateAppender this f) :=
  above_modify fun _ rooted => rooted.of_same rfl rfl rfl

theorem takes_update (f : FileLogAppender → Host → FileLogAppender × Host) (floor : Nat) :
    Takes root floor (modify (FileLogAppender.update this f)) :=
  above_modify fun _ rooted => rooted.update this f

theorem LogAppender.takes_setFormatter (val : Option LogFormatter) :
    Takes root 3 (LogAppender.setFormatter this val) :=
  takes_appender (takes_updateAppender this _ _)

theorem LogAppender.takes_getFormatter : Takes root 3 (LogAppender.getFormatter this) :=
  takes_appender (above_read _)

theorem LogAppender.takes_toYamlString : Takes root 3 (LogAppender.toYamlString yaml this) :=
  takes_appender (above_read _)

theorem FileLogAppender.takes_reopen (env : Environment) :
    Takes root 3 (FileLogAppender.reopen this env) := takes_appender (takes_update this _ _)

theorem FileLogAppender.takes_new (filename : String) :
    Takes root 3 (FileLogAppender.new filename) := by
  refine above_bind (above_call fun _ rooted => rooted.of_same rfl rfl rfl) fun made => ?_
  exact above_bind (takes_reopen _ _) fun _ => above_pure _

theorem StdOutLogAppender.takes_new : Takes root 3 StdOutLogAppender.new :=
  above_call fun _ rooted => rooted.of_same rfl rfl rfl

theorem FileLogAppender.takes_reopenAt (env : Environment) :
    Takes root 3 (FileLogAppender.reopenAt this env) := by
  refine above_bind (above_read _) fun due => ?_
  split
  · exact above_bind (takes_reopen this env) fun _ => takes_update this _ _
  · exact above_pure _

theorem FileLogAppender.takes_write (env : Environment) :
    Takes root 3 (FileLogAppender.write platform this level event env) := by
  refine takes_appender (above_bind (above_read _) fun formatter => ?_)
  split
  · exact above_crash _
  · exact takes_update this _ _

theorem FileLogAppender.takes_log (env : Environment) :
    Takes root 3 (FileLogAppender.log platform this level event env) := by
  refine above_bind (above_read _) fun passes => ?_
  split
  · exact above_bind (takes_reopenAt this env) fun _ => takes_write platform level event this env
  · exact above_pure _

theorem StdOutLogAppender.takes_log :
    Takes root 3 (StdOutLogAppender.log platform this level event) := by
  refine above_bind (above_read _) fun passes => ?_
  split
  · refine takes_appender (above_bind (above_read _) fun formatter => ?_)
    split
    · exact above_crash _
    · exact above_modify fun _ rooted => rooted.of_same rfl rfl rfl
  · exact above_pure _

theorem takes_callAppender : Takes root 3 (callAppender platform level event this) := by
  refine above_bind (above_call fun _ rooted => rooted.of_same rfl rfl rfl) fun env => ?_
  refine above_bind (above_read _) fun appender => ?_
  split
  · exact FileLogAppender.takes_log platform level event this env
  · exact StdOutLogAppender.takes_log platform level event this

end Appenders

section Loggers
variable (this : LoggerPtr)

/-- In the section of any logger's lock only appenders may be locked, unless the logger is
an ordinary one. -/
theorem takes_logger {α : Type} {body : LogProgram α} (inside : Takes root 3 body) :
    Takes root 1 (locked (.logger this) .write body) := by
  unfold Takes
  by_cases here : this = root
  · have rank : LogLock.rank root (.logger this) = 2 := if_pos here
    exact above_locked (by rw [rank]; exact Nat.le_succ 1) (by rw [rank]; exact inside)
  · have rank : LogLock.rank root (.logger this) = 1 := if_neg here
    exact above_locked (by rw [rank]) (by rw [rank]; exact inside.mono (Nat.le_succ 2))

theorem takes_setLogger {floor : Nat} {f : LogSystem → Logger}
    (same : ∀ s, (f s).m_root = (s.loggers this).m_root) :
    Takes root floor (modify fun s => s.setLogger this (f s)) :=
  above_modify fun s rooted => rooted.setLogger this (same s)

theorem Logger.takes_setLevel (val : LogLevel) (floor : Nat) :
    Takes root floor (Logger.setLevel this val) := takes_setLogger this fun _ => rfl

theorem Logger.takes_setFormatter (val : Option LogFormatter) :
    Takes root 1 (Logger.setFormatter this val) := by
  refine takes_logger this (above_bind (takes_setLogger this fun _ => rfl) fun _ => ?_)
  refine above_bind (above_read _) fun m_appenders => above_forM fun i _ => takes_appender ?_
  refine above_modify fun s rooted => ?_
  unfold Chord.Logger.followFormatter
  split
  · exact rooted
  · exact rooted.of_same rfl rfl rfl

theorem takes_print (text : LogSystem → String) (floor : Nat) :
    Takes root floor (modify fun s => { s with host := s.host.print (text s) }) :=
  above_modify fun _ rooted => rooted.of_same rfl rfl rfl

theorem Logger.takes_setFormatterString (val : String) :
    Takes root 1 (Logger.setFormatterString this val) := by
  unfold Logger.setFormatterString
  dsimp only
  split
  · exact takes_print _ _
  · exact takes_setFormatter this _

theorem Logger.takes_getFormatter : Takes root 1 (Logger.getFormatter this) :=
  takes_logger this (above_read _)

theorem Logger.takes_addAppender (appender : AppenderPtr) :
    Takes root 1 (Logger.addAppender this appender) := by
  refine takes_logger this (above_bind ?_ fun _ => takes_setLogger this fun _ => rfl)
  refine above_bind (LogAppender.takes_getFormatter appender) fun formatter => ?_
  split
  · exact takes_appender (above_modify fun _ rooted => rooted.of_same rfl rfl rfl)
  · exact above_pure _

theorem Logger.takes_clearAppenders : Takes root 1 (Logger.clearAppenders this) :=
  takes_logger this (takes_setLogger this fun _ => rfl)

theorem Logger.takes_delAppender (appender : AppenderPtr) :
    Takes root 1 (Logger.delAppender this appender) :=
  takes_logger this (takes_setLogger this fun _ => rfl)

/-- The root's own `log` goes no further than its appenders. -/
theorem Logger.takes_logUnlocked_root (unlocked : Nat) :
    Takes root 2 (Logger.logUnlocked platform level event unlocked root) := by
  have rank : LogLock.rank root (.logger root) = 2 := if_pos rfl
  cases unlocked with
  | zero =>
    exact ⟨by rw [rank], fun _ member => absurd member List.not_mem_nil, trivial⟩
  | succ unlocked =>
    refine above_bind (above_read _) fun passes => ?_
    split
    · refine above_locked (by rw [rank]) ?_
      rw [rank]
      refine above_bind (above_read _) fun m_appenders => ?_
      split
      · exact above_forM fun i _ => takes_callAppender platform level event i
      · refine above_read_bind fun s rooted => ?_
        split
        · rename_i m_root falls
          exact absurd rfl (rooted.falls root m_root falls).2
        · exact above_pure _
    · exact above_pure _

theorem Logger.takes_logUnlocked (unlocked : Nat) :
    Takes root 1 (Logger.logUnlocked platform level event unlocked this) := by
  by_cases here : this = root
  · rw [here]
    exact (takes_logUnlocked_root platform level event unlocked).mono (Nat.le_succ 1)
  · have rank : LogLock.rank root (.logger this) = 1 := if_neg here
    cases unlocked with
    | zero =>
      exact ⟨by rw [rank], fun _ member => absurd member List.not_mem_nil, trivial⟩
    | succ unlocked =>
      refine above_bind (above_read _) fun passes => ?_
      split
      · refine above_locked (by rw [rank]) ?_
        rw [rank]
        refine above_bind (above_read _) fun m_appenders => ?_
        split
        · exact above_forM fun i _ =>
            (takes_callAppender platform level event i).mono (Nat.le_succ 2)
        · refine above_read_bind fun s rooted => ?_
          split
          · rename_i m_root falls
            rw [(rooted.falls this m_root falls).1]
            exact takes_logUnlocked_root platform level event unlocked
          · exact above_pure _
      · exact above_pure _

theorem Logger.takes_log : Takes root 1 (Logger.log platform this level event) :=
  above_bind (above_read _) fun unlocked => takes_logUnlocked platform level event this unlocked

theorem Logger.takes_toYamlString : Takes root 1 (Logger.toYamlString yaml this) := by
  refine takes_logger this (above_bind (above_read _) fun logger => ?_)
  refine above_bind (above_foldlM (fun node i _ => ?_) _) fun node => above_pure _
  unfold Logger.pushAppender
  split
  · exact above_pure _
  · exact above_bind (LogAppender.takes_toYamlString yaml i) fun _ => above_pure _

end Loggers

theorem takes_manager {α : Type} {body : LogProgram α} (inside : Takes root 1 body) :
    Takes root 0 (locked .manager .write body) := above_locked (Nat.le_refl 0) inside

theorem LoggerManager.takes_getLogger (name : String) :
    Takes root 0 (LoggerManager.getLogger name) :=
  takes_manager (above_call fun _ rooted => rooted.getLogger name)

theorem LoggerManager.takes_getRoot (floor : Nat) : Takes root floor LoggerManager.getRoot :=
  above_read _

theorem LoggerManager.takes_toYamlString : Takes root 0 (LoggerManager.toYamlString yaml) := by
  refine takes_manager (above_bind (above_read _) fun loggers => ?_)
  refine above_bind (above_foldlM (fun node i _ => ?_) _) fun node => above_pure _
  unfold LoggerManager.pushLogger
  split
  · exact above_pure _
  · exact above_bind (Logger.takes_toYamlString yaml i.2) fun _ => above_pure _

theorem takes_LogEventWrap (logger : LoggerPtr) (file : String) (line : Int) (floor : Nat) :
    Takes root floor (LogEventWrap platform logger level file line) := by
  refine above_bind (above_read _) fun passes => ?_
  split
  · exact above_bind (above_call fun _ rooted => rooted.of_same rfl rfl rfl) fun _ => above_pure _
  · exact above_pure _

theorem takes_CHORD_LOG_LEVEL (logger : LoggerPtr) (file : String) (line : Int) (text : String) :
    Takes root 1 (CHORD_LOG_LEVEL platform logger level file line text) := by
  refine above_bind (takes_LogEventWrap platform level logger file line _) fun event => ?_
  split
  · exact above_pure _
  · exact Logger.takes_log platform level _ logger

namespace LogIniter

theorem takes_addDefined (i : LogDefine) (logger : LoggerPtr) (a : LogAppenderDefine) :
    Takes root 1 (addDefined i logger a) := by
  have made : Takes root 3 (newAppender a) := by
    unfold newAppender
    split_ifs
    · exact above_bind (FileLogAppender.takes_new a.file) fun _ => above_pure _
    · exact above_bind StdOutLogAppender.takes_new fun _ => above_pure _
    · exact above_pure _
  have formatted : ∀ ap, Takes root 3 (setAppenderFormatter i ap a) := by
    intro ap
    unfold setAppenderFormatter
    dsimp only
    split_ifs
    · exact LogAppender.takes_setFormatter ap _
    · exact takes_print _ _
    · exact above_pure _
  refine above_bind (made.mono (Nat.le_add_left 1 2)) fun ap => ?_
  split
  · exact above_crash _
  · refine above_bind (takes_updateAppender _ _ _) fun _ => ?_
    exact above_bind ((formatted _).mono (Nat.le_add_left 1 2)) fun _ =>
      Logger.takes_addAppender logger _

theorem takes_configure (logger : LoggerPtr) (i : LogDefine) :
    Takes root 1 (configure logger i) := by
  refine above_bind (Logger.takes_setLevel logger i.level _) fun _ => above_bind ?_ fun _ => ?_
  · split_ifs
    · exact Logger.takes_setFormatterString logger i.formatter
    · exact above_pure _
  · exact above_bind (Logger.takes_clearAppenders logger) fun _ =>
      above_forM fun a _ => takes_addDefined i logger a

theorem takes_apply (old_value : LogDefines) (i : LogDefine) :
    Takes root 0 (apply old_value i) := by
  have found : Takes root 0 (findLogger old_value i) := by
    unfold findLogger
    split
    · exact above_bind (LoggerManager.takes_getLogger i.name) fun _ => above_pure _
    · split_ifs
      · exact above_bind (LoggerManager.takes_getLogger i.name) fun _ => above_pure _
      · exact above_pure _
  refine above_bind found fun logger => ?_
  split
  · exact above_crash _
  · exact (takes_configure _ i).mono (Nat.zero_le 1)

theorem takes_remove (new_value : LogDefines) (i : LogDefine) :
    Takes root 0 (remove new_value i) := by
  unfold remove
  split
  · exact above_pure _
  · refine above_bind (LoggerManager.takes_getLogger i.name) fun logger => ?_
    exact above_bind (Logger.takes_setLevel logger _ _) fun _ =>
      (Logger.takes_clearAppenders logger).mono (Nat.zero_le 1)

/-- The listener may run wherever no lock of the logging code is held. -/
theorem takes_onChange (old_value new_value : LogDefines) :
    Takes root 0 (onChange platform old_value new_value) := by
  refine above_bind (above_read _) fun logger => above_bind ?_ fun _ => above_bind ?_ fun _ => ?_
  · exact (takes_CHORD_LOG_LEVEL platform _ logger _ _ _).mono (Nat.zero_le 1)
  · exact above_forM fun i _ => takes_apply old_value i
  · exact above_forM fun i _ => takes_remove new_value i

end LogIniter

end LogProgram

end Chord
