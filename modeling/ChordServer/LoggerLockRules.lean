import ChordServer.LockRulesRuns
import ChordServer.LoggerInvariant
import ChordServer.LoggerLocks

set_option autoImplicit false

namespace Chord

open LockProgram LockRules

/-- The members of an appender that its lock protects. `m_level` and `m_lastTime` are read
and written without it. -/
structure GuardedAppender where
  m_formatter : Option LogFormatter
  m_has_Formatter : Bool
  m_filestream : Option OFStream

def Appender.guarded : Appender → GuardedAppender
  | .file appender => ⟨appender.m_formatter, appender.m_has_Formatter, appender.m_filestream⟩
  | .stdout appender => ⟨appender.m_formatter, appender.m_has_Formatter, none⟩

/-- The manager's map has every logger that there is, under its name. -/
structure LogSystem.Registered (s : LogSystem) : Prop where
  registered : ∀ p < s.loggerCount, s.m_logger.find (s.loggers p).m_name =
    some ((s.loggers p).m_name, p)
  named : ∀ entry ∈ s.m_logger, entry.2 < s.loggerCount ∧ (s.loggers entry.2).m_name = entry.1

/-- Loggers and appenders are made and never disposed of; names, roots, files and what is
registered under a name stay. -/
structure LogSystem.Grows (s t : LogSystem) : Prop where
  m_root : t.m_root = s.m_root
  loggerCount : s.loggerCount ≤ t.loggerCount
  appenderCount : s.appenderCount ≤ t.appenderCount
  loggers : ∀ p < s.loggerCount, (t.loggers p).m_name = (s.loggers p).m_name ∧
    (t.loggers p).m_root = (s.loggers p).m_root
  appenders : ∀ a < s.appenderCount, (t.appenders a).filename = (s.appenders a).filename
  found : ∀ name it, s.m_logger.find name = some it → t.m_logger.find name = some it

/-- What a lock of the logging code protects: the manager's map, the list of appenders and
the formatter of a logger, and what there is of an appender but its level and clock. -/
def LogLock.Kept : LogLock → LogSystem → LogSystem → Prop
  | .manager, s, t => t.m_logger = s.m_logger ∧ t.loggerCount = s.loggerCount
  | .logger p, s, t => p < s.loggerCount → (t.loggers p).m_appenders = (s.loggers p).m_appenders ∧
      (t.loggers p).m_formatter = (s.loggers p).m_formatter
  | .appender a, s, t => a < s.appenderCount → (t.appenders a).guarded = (s.appenders a).guarded

theorem LogLock.Kept.refl (lock : LogLock) (s : LogSystem) : lock.Kept s s := by
  cases lock with
  | manager => exact ⟨rfl, rfl⟩
  | logger p => exact fun _ => ⟨rfl, rfl⟩
  | appender a => exact fun _ => rfl

namespace LogSystem

variable {s t : LogSystem}

theorem Grows.refl (s : LogSystem) : s.Grows s :=
  ⟨rfl, Nat.le_refl _, Nat.le_refl _, fun _ _ => ⟨rfl, rfl⟩, fun _ _ => rfl, fun _ _ => id⟩

theorem Grows.trans {u : LogSystem} (first : s.Grows t) (second : t.Grows u) : s.Grows u where
  m_root := second.m_root.trans first.m_root
  loggerCount := first.loggerCount.trans second.loggerCount
  appenderCount := first.appenderCount.trans second.appenderCount
  loggers p made := by
    obtain ⟨name, root⟩ := first.loggers p made
    obtain ⟨name', root'⟩ := second.loggers p (made.trans_le first.loggerCount)
    exact ⟨name'.trans name, root'.trans root⟩
  appenders a made := (second.appenders a (made.trans_le first.appenderCount)).trans
    (first.appenders a made)
  found name it found := second.found name it (first.found name it found)

/-- The rules of the logging code. -/
def rules : LockRules LogLock LogSystem where
  valid := Registered
  kept := LogLock.Kept
  grows := Grows
  rests _ _ := True
  kept_refl := LogLock.Kept.refl
  grows_refl := Grows.refl
  grows_trans _ _ _ := Grows.trans
  rests_kept _ _ _ _ _ := trivial

theorem Registered.of_names (registered : s.Registered) (m_logger : t.m_logger = s.m_logger)
    (loggerCount : t.loggerCount = s.loggerCount)
    (names : ∀ p, (t.loggers p).m_name = (s.loggers p).m_name) : t.Registered := by
  constructor
  · intro p made
    rw [m_logger, names p]
    exact registered.registered p (loggerCount ▸ made)
  · intro entry member
    rw [loggerCount, names entry.2]
    exact registered.named entry (m_logger ▸ member)

variable {held : HeldLocks LogLock}

/-- A step that leaves the map, the names and the files alone. -/
theorem guarantee_of_names (registered : s.Registered) (m_logger : t.m_logger = s.m_logger)
    (m_root : t.m_root = s.m_root) (loggerCount : t.loggerCount = s.loggerCount)
    (appenderCount : s.appenderCount ≤ t.appenderCount)
    (loggers : ∀ p, (t.loggers p).m_name = (s.loggers p).m_name ∧
      (t.loggers p).m_root = (s.loggers p).m_root)
    (filenames : ∀ a < s.appenderCount, (t.appenders a).filename = (s.appenders a).filename)
    (lists : ∀ p, (.logger p, .write) ∉ held → LogLock.Kept (.logger p) s t)
    (guarded : ∀ a, (.appender a, .write) ∉ held → LogLock.Kept (.appender a) s t) :
    rules.Guarantee held s t := by
  refine ⟨registered.of_names m_logger loggerCount fun p => (loggers p).1,
    ⟨m_root, loggerCount.ge, appenderCount, fun p _ => loggers p, filenames,
      fun name it found => by rwa [m_logger]⟩, fun lock absent => ?_⟩
  cases lock with
  | manager => exact ⟨m_logger, loggerCount⟩
  | logger p => exact lists p absent
  | appender a => exact guarded a absent

/-- A step that changes nothing of the objects. -/
theorem guarantee_of_same (registered : s.Registered) (m_logger : t.m_logger = s.m_logger)
    (m_root : t.m_root = s.m_root) (loggers : t.loggers = s.loggers)
    (loggerCount : t.loggerCount = s.loggerCount) (appenders : t.appenders = s.appenders)
    (appenderCount : t.appenderCount = s.appenderCount) : rules.Guarantee held s t := by
  refine guarantee_of_names registered m_logger m_root loggerCount appenderCount.ge ?_ ?_ ?_ ?_
  · rw [loggers]
    exact fun _ => ⟨rfl, rfl⟩
  · rw [appenders]
    exact fun _ _ => rfl
  · intro p _ _
    rw [loggers]
    exact ⟨rfl, rfl⟩
  · intro a _ _
    rw [appenders]

/-- A change of a logger: its list and its formatter only with its lock. -/
theorem guarantee_setLogger (registered : s.Registered) {p : LoggerPtr} {logger : Logger}
    (name : logger.m_name = (s.loggers p).m_name) (root : logger.m_root = (s.loggers p).m_root)
    (locked : (.logger p, .write) ∈ held ∨ (logger.m_appenders = (s.loggers p).m_appenders ∧
      logger.m_formatter = (s.loggers p).m_formatter)) :
    rules.Guarantee held s (s.setLogger p logger) := by
  refine guarantee_of_names registered rfl rfl rfl (Nat.le_refl _) (fun q => ?_)
    (fun _ _ => rfl) (fun q absent _ => ?_) (fun _ _ _ => rfl)
  · by_cases here : q = p
    · rw [here, setLogger_self]
      exact ⟨name, root⟩
    · rw [setLogger_other s logger here]
      exact ⟨rfl, rfl⟩
  · by_cases here : q = p
    · rw [here] at absent ⊢
      rw [setLogger_self]
      exact locked.resolve_left absent
    · rw [setLogger_other s logger here]
      exact ⟨rfl, rfl⟩

/-- A change of an appender, and of the host. -/
theorem guarantee_setAppender (registered : s.Registered) {a : AppenderPtr} {appender : Appender}
    (host : Host) (filename : appender.filename = (s.appenders a).filename)
    (locked : (.appender a, .write) ∈ held ∨ appender.guarded = (s.appenders a).guarded) :
    rules.Guarantee held s { s.setAppender a appender with host := host } := by
  refine guarantee_of_names registered rfl rfl rfl (Nat.le_refl _) (fun _ => ⟨rfl, rfl⟩)
    (fun b _ => ?_) (fun _ _ _ => ⟨rfl, rfl⟩) (fun b absent _ => ?_)
  · by_cases here : b = a
    · rw [here]
      exact (congrArg Appender.filename (setAppender_self s a appender)).trans filename
    · exact congrArg Appender.filename (setAppender_other s appender here)
  · by_cases here : b = a
    · rw [here] at absent ⊢
      exact (congrArg Appender.guarded (setAppender_self s a appender)).trans
        (locked.resolve_left absent)
    · exact congrArg Appender.guarded (setAppender_other s appender here)

/-- A new appender is nobody's yet. -/
theorem guarantee_newAppender (registered : s.Registered) (appender : Appender) (asked : Nat) :
    rules.Guarantee held s { s.setAppender s.appenderCount appender with
      appenderCount := s.appenderCount + 1, asked := asked } := by
  have same : ∀ a < s.appenderCount,
      (s.setAppender s.appenderCount appender).appenders a = s.appenders a :=
    fun a made => setAppender_other s appender (Nat.ne_of_lt made)
  exact guarantee_of_names registered rfl rfl rfl (Nat.le_succ _) (fun _ => ⟨rfl, rfl⟩)
    (fun a made => congrArg Appender.filename (same a made)) (fun _ _ _ => ⟨rfl, rfl⟩)
    (fun a _ made => congrArg Appender.guarded (same a made))

/-- `getLogger` adds the logger of a name that has none. -/
theorem guarantee_getLogger (registered : s.Registered) (name : String)
    (locked : (.manager, .write) ∈ held) :
    rules.Guarantee held s (LoggerManager.getLogger s name).1 := by
  unfold LoggerManager.getLogger
  cases missing : s.m_logger.find name with
  | some it => exact .refl registered
  | none =>
    let made : Logger := { m_name := name, m_root := some s.m_root }
    have old : ∀ q < s.loggerCount, Function.update s.loggers s.loggerCount made q = s.loggers q :=
      fun q bound => Function.update_of_ne (Nat.ne_of_lt bound) _ _
    have new : Function.update s.loggers s.loggerCount made s.loggerCount = made :=
      Function.update_self _ _ _
    have kept : ∀ n it, s.m_logger.find n = some it →
        (s.m_logger.insert (name, s.loggerCount)).find n = some it := by
      intro n it found
      rw [KeyedSet.find_insert]
      split_ifs with same
      · rw [found, Option.getD_some]
      · exact found
    refine ⟨⟨fun q bound => ?_, fun entry member => ?_⟩, ⟨rfl, Nat.le_succ _, Nat.le_refl _,
      fun q bound => ?_, fun _ _ => rfl, kept⟩, fun lock absent => ?_⟩
    · dsimp only [setLogger]
      rcases Nat.lt_succ_iff_lt_or_eq.mp bound with before | rfl
      · rw [old q before]
        exact kept _ _ (registered.registered q before)
      · rw [new, KeyedSet.find_insert, if_pos rfl, missing, Option.getD_none]
    · dsimp only [setLogger]
      rcases KeyedSet.mem_insert.mp member with present | ⟨rfl, -⟩
      · obtain ⟨bound, same⟩ := registered.named entry present
        exact ⟨Nat.lt_succ_of_lt bound, by rw [old _ bound, same]⟩
      · exact ⟨Nat.lt_succ_self _, congrArg Logger.m_name new⟩
    · dsimp only [setLogger]
      rw [old q bound]
      exact ⟨rfl, rfl⟩
    · cases lock with
      | manager => exact absurd locked absent
      | logger q =>
        intro bound
        dsimp only [setLogger]
        rw [old q bound]
        exact ⟨rfl, rfl⟩
      | appender a => exact fun _ => rfl

theorem getLogger_find (s : LogSystem) (name : String) :
    (LoggerManager.getLogger s name).1.m_logger.find name =
      some (name, (LoggerManager.getLogger s name).2) := by
  unfold LoggerManager.getLogger
  cases missing : s.m_logger.find name with
  | some it =>
    dsimp only
    rw [missing, ← (KeyedSet.find_eq_some_iff.mp missing).2]
  | none =>
    dsimp only
    rw [KeyedSet.find_insert, if_pos rfl, missing, Option.getD_none]

end LogSystem

namespace LogProgram

open LogSystem

variable (platform : Platform) (yaml : YAML.YamlCpp) (level : LogLevel) (event : LogEvent)
  {held : HeldLocks LogLock}

/-- Whatever locks the thread holds already, the program obeys the rules. -/
abbrev Keeps {α : Type} (held : HeldLocks LogLock) (program : LogProgram α) : Prop :=
  program.Steady LogSystem.rules held

theorem keeps_locked {α : Type} {lock : LogLock} {body : LogProgram α}
    (inside : Keeps ((lock, .write) :: held) body) : Keeps held (locked lock .write body) :=
  steady_locked (fun _ => trivial) inside

section Appenders
variable (this : AppenderPtr)

theorem keeps_updateAppender {f : LogSystem → LogAppender → LogAppender}
    (locked : (.appender this, .write) ∈ held ∨ ∀ s base,
      (f s base).m_formatter = base.m_formatter ∧
        (f s base).m_has_Formatter = base.m_has_Formatter) :
    Keeps held (modify fun s => s.updateAppender this (f s)) := by
  refine steady_modify fun s registered => guarantee_setAppender registered s.host
    (Appender.filename_update _ _) (locked.imp id fun same => ?_)
  cases s.appenders this with
  | file appender =>
    obtain ⟨formatter, own⟩ := same s appender.toLogAppender
    simp only [Appender.update, Appender.guarded, formatter, own]
  | stdout appender =>
    obtain ⟨formatter, own⟩ := same s appender
    simp only [Appender.update, Appender.guarded, formatter, own]

/-- A change of the members of a file appender. -/
theorem keeps_update {f : FileLogAppender → Host → FileLogAppender × Host}
    (filename : ∀ appender host, (f appender host).1.m_filename = appender.m_filename)
    (locked : (.appender this, .write) ∈ held ∨ ∀ appender host,
      Appender.guarded (.file (f appender host).1) = Appender.guarded (.file appender)) :
    Keeps held (modify (FileLogAppender.update this f)) := by
  refine steady_modify fun s registered => ?_
  unfold FileLogAppender.update
  cases file : s.appenders this with
  | file appender =>
    refine guarantee_setAppender registered _ ?_ (locked.imp id fun same => ?_)
    · rw [file]
      exact congrArg some (filename appender s.host)
    · rw [file]
      exact same appender s.host
  | stdout appender => exact .refl registered

theorem LogAppender.keeps_setFormatter (val : Option LogFormatter) :
    Keeps held (LogAppender.setFormatter this val) :=
  keeps_locked (keeps_updateAppender this (.inl List.mem_cons_self))

theorem LogAppender.keeps_getFormatter : Keeps held (LogAppender.getFormatter this) :=
  keeps_locked (steady_read _)

theorem LogAppender.keeps_setLevel : Keeps held (LogAppender.setLevel this level) :=
  keeps_updateAppender this (.inr fun _ _ => ⟨rfl, rfl⟩)

theorem LogAppender.keeps_toYamlString : Keeps held (LogAppender.toYamlString yaml this) :=
  keeps_locked (steady_read _)

theorem FileLogAppender.keeps_reopen (env : Environment) :
    Keeps held (FileLogAppender.reopen this env) :=
  keeps_locked (keeps_update this (fun _ _ => rfl) (.inl List.mem_cons_self))

theorem FileLogAppender.keeps_new (filename : String) :
    Keeps held (FileLogAppender.new filename) := by
  refine steady_bind (steady_call fun s registered =>
    guarantee_newAppender registered _ _) fun made => ?_
  exact steady_bind (keeps_reopen _ _) fun _ => steady_pure _

theorem StdOutLogAppender.keeps_new : Keeps held StdOutLogAppender.new :=
  steady_call fun s registered => guarantee_newAppender registered _ s.asked

theorem FileLogAppender.keeps_reopenAt (env : Environment) :
    Keeps held (FileLogAppender.reopenAt this env) := by
  refine steady_bind (steady_read _) fun due => ?_
  split
  · exact steady_bind (keeps_reopen this env) fun _ =>
      keeps_update this (fun _ _ => rfl) (.inr fun _ _ => rfl)
  · exact steady_pure _

theorem FileLogAppender.keeps_write (env : Environment) :
    Keeps held (FileLogAppender.write platform this level event env) := by
  refine keeps_locked (steady_bind (steady_read _) fun formatter => ?_)
  split
  · exact steady_crash _
  · exact keeps_update this (fun _ _ => rfl) (.inl List.mem_cons_self)

theorem FileLogAppender.keeps_log (env : Environment) :
    Keeps held (FileLogAppender.log platform this level event env) := by
  refine steady_bind (steady_read _) fun passes => ?_
  split
  · exact steady_bind (keeps_reopenAt this env) fun _ => keeps_write platform level event this env
  · exact steady_pure _

theorem keeps_host {f : LogSystem → Host} :
    Keeps held (modify fun s => { s with host := f s }) :=
  steady_modify fun _ registered => guarantee_of_same registered rfl rfl rfl rfl rfl rfl

theorem StdOutLogAppender.keeps_log :
    Keeps held (StdOutLogAppender.log platform this level event) := by
  refine steady_bind (steady_read _) fun passes => ?_
  split
  · refine keeps_locked (steady_bind (steady_read _) fun formatter => ?_)
    split
    · exact steady_crash _
    · exact keeps_host
  · exact steady_pure _

theorem keeps_callAppender : Keeps held (callAppender platform level event this) := by
  refine steady_bind (steady_call fun _ registered =>
    guarantee_of_same registered rfl rfl rfl rfl rfl rfl) fun env => ?_
  refine steady_bind (steady_read _) fun appender => ?_
  split
  · exact FileLogAppender.keeps_log platform level event this env
  · exact StdOutLogAppender.keeps_log platform level event this

end Appenders

section Loggers
variable (this : LoggerPtr)

/-- A change of a logger that keeps its name and its root. -/
theorem keeps_setLogger {f : LogSystem → Logger}
    (same : ∀ s, (f s).m_name = (s.loggers this).m_name ∧ (f s).m_root = (s.loggers this).m_root)
    (locked : (.logger this, .write) ∈ held ∨ ∀ s,
      (f s).m_appenders = (s.loggers this).m_appenders ∧
        (f s).m_formatter = (s.loggers this).m_formatter) :
    Keeps held (modify fun s => s.setLogger this (f s)) :=
  steady_modify fun s registered => guarantee_setLogger registered (same s).1 (same s).2
    (locked.imp id fun unchanged => unchanged s)

theorem Logger.keeps_setLevel (val : LogLevel) : Keeps held (Logger.setLevel this val) :=
  keeps_setLogger this (fun _ => ⟨rfl, rfl⟩) (.inr fun _ => ⟨rfl, rfl⟩)

theorem Logger.keeps_setFormatter (val : Option LogFormatter) :
    Keeps held (Logger.setFormatter this val) := by
  refine keeps_locked (steady_bind
    (keeps_setLogger this (fun _ => ⟨rfl, rfl⟩) (.inl List.mem_cons_self)) fun _ => ?_)
  refine steady_bind (steady_read _) fun m_appenders => steady_forM fun i _ => keeps_locked ?_
  refine steady_modify fun s registered => ?_
  unfold Chord.Logger.followFormatter
  split
  · exact .refl registered
  · exact guarantee_setAppender registered s.host (Appender.filename_update _ _)
      (.inl List.mem_cons_self)

theorem Logger.keeps_setFormatterString (val : String) :
    Keeps held (Logger.setFormatterString this val) := by
  unfold Logger.setFormatterString
  dsimp only
  split
  · exact keeps_host
  · exact keeps_setFormatter this _

theorem Logger.keeps_getFormatter : Keeps held (Logger.getFormatter this) :=
  keeps_locked (steady_read _)

/-- With its lock a logger's list and formatter may change. -/
theorem keeps_list {f : LogSystem → Logger}
    (same : ∀ s, (f s).m_name = (s.loggers this).m_name ∧
      (f s).m_root = (s.loggers this).m_root) :
    Keeps ((.logger this, .write) :: held) (modify fun s => s.setLogger this (f s)) :=
  keeps_setLogger this same (.inl List.mem_cons_self)

theorem Logger.keeps_addAppender (appender : AppenderPtr) :
    Keeps held (Logger.addAppender this appender) := by
  refine keeps_locked (steady_bind ?_ fun _ => keeps_list this fun _ => ⟨rfl, rfl⟩)
  refine steady_bind (LogAppender.keeps_getFormatter appender) fun formatter => ?_
  split
  · exact keeps_locked (keeps_updateAppender appender (.inl List.mem_cons_self))
  · exact steady_pure _

theorem Logger.keeps_clearAppenders : Keeps held (Logger.clearAppenders this) :=
  keeps_locked (keeps_list this fun _ => ⟨rfl, rfl⟩)

theorem Logger.keeps_delAppender (appender : AppenderPtr) :
    Keeps held (Logger.delAppender this appender) :=
  keeps_locked (keeps_list this fun _ => ⟨rfl, rfl⟩)

theorem Logger.keeps_logUnlocked (unlocked : Nat) :
    ∀ (held : HeldLocks LogLock) (this : LoggerPtr),
      Keeps held (Logger.logUnlocked platform level event unlocked this) := by
  induction unlocked with
  | zero =>
    intro held this
    exact .inr ⟨fun _ => True, stable_true, fun _ _ _ _ => trivial, trivial⟩
  | succ unlocked ih =>
    intro held this
    refine steady_bind (steady_read _) fun passes => ?_
    split
    · refine keeps_locked (steady_bind (steady_read _) fun m_appenders => ?_)
      split
      · exact steady_forM fun i _ => keeps_callAppender platform level event i
      · refine steady_bind (steady_read _) fun m_root => ?_
        split
        · exact ih _ _
        · exact steady_pure _
    · exact steady_pure _

theorem Logger.keeps_log : Keeps held (Logger.log platform this level event) :=
  steady_bind (steady_read _) fun unlocked =>
    keeps_logUnlocked platform level event unlocked held this

theorem Logger.keeps_toYamlString : Keeps held (Logger.toYamlString yaml this) := by
  refine keeps_locked (steady_bind (steady_read _) fun logger => ?_)
  refine steady_bind (steady_foldlM (fun node i _ => ?_) _) fun node => steady_pure _
  unfold Logger.pushAppender
  split
  · exact steady_pure _
  · exact steady_bind (LogAppender.keeps_toYamlString yaml i) fun _ => steady_pure _

end Loggers

/-- `getLogger` answers with the logger that is registered under the name from then on. -/
theorem LoggerManager.obeys_getLogger (name : String) :
    (LoggerManager.getLogger name).Obeys LogSystem.rules held
      (fun p s => s.m_logger.find name = some (name, p)) held fun _ => True := by
  have stable : ∀ (held : HeldLocks LogLock) (p : LoggerPtr), LogSystem.rules.Stable held
      fun s => s.m_logger.find name = some (name, p) :=
    fun held p => stable_of_grows fun s t grows found => grows.found name _ found
  refine obeys_locked (obeys_call (fun s registered _ => ?_) (stable _) fun s _ _ => ?_)
    stable_true (fun _ _ _ _ => trivial) (stable held) fun p s _ found => ⟨found, fun _ => trivial⟩
  · exact guarantee_getLogger registered name List.mem_cons_self
  · exact getLogger_find s name

theorem LoggerManager.keeps_getLogger (name : String) :
    Keeps held (LoggerManager.getLogger name) := (obeys_getLogger name).steady

theorem LoggerManager.keeps_toYamlString : Keeps held (LoggerManager.toYamlString yaml) := by
  refine keeps_locked (steady_bind (steady_read _) fun loggers => ?_)
  refine steady_bind (steady_foldlM (fun node i _ => ?_) _) fun node => steady_pure _
  unfold LoggerManager.pushLogger
  split
  · exact steady_pure _
  · exact steady_bind (Logger.keeps_toYamlString yaml i.2) fun _ => steady_pure _

theorem keeps_LogEventWrap (logger : LoggerPtr) (file : String) (line : Int) :
    Keeps held (LogEventWrap platform logger level file line) := by
  refine steady_bind (steady_read _) fun passes => ?_
  split
  · exact steady_bind (steady_call fun _ registered =>
      guarantee_of_same registered rfl rfl rfl rfl rfl rfl) fun _ => steady_pure _
  · exact steady_pure _

theorem keeps_CHORD_LOG_LEVEL (logger : LoggerPtr) (file : String) (line : Int) (text : String) :
    Keeps held (CHORD_LOG_LEVEL platform logger level file line text) := by
  refine steady_bind (keeps_LogEventWrap platform level logger file line) fun event => ?_
  split
  · exact steady_pure _
  · exact Logger.keeps_log platform level _ logger

namespace LogIniter

theorem keeps_addDefined (i : LogDefine) (logger : LoggerPtr) (a : LogAppenderDefine) :
    Keeps held (addDefined i logger a) := by
  have made : Keeps held (newAppender a) := by
    unfold newAppender
    split_ifs
    · exact steady_bind (FileLogAppender.keeps_new a.file) fun _ => steady_pure _
    · exact steady_bind StdOutLogAppender.keeps_new fun _ => steady_pure _
    · exact steady_pure _
  have formatted : ∀ ap, Keeps held (setAppenderFormatter i ap a) := by
    intro ap
    unfold setAppenderFormatter
    dsimp only
    split_ifs
    · exact LogAppender.keeps_setFormatter ap _
    · exact keeps_host
    · exact steady_pure _
  refine steady_bind made fun ap => ?_
  split
  · exact steady_crash _
  · refine steady_bind (LogAppender.keeps_setLevel _ _) fun _ => ?_
    exact steady_bind (formatted _) fun _ => Logger.keeps_addAppender logger _

theorem keeps_configure (logger : LoggerPtr) (i : LogDefine) :
    Keeps held (configure logger i) := by
  refine steady_bind (Logger.keeps_setLevel logger i.level) fun _ => steady_bind ?_ fun _ => ?_
  · split_ifs
    · exact Logger.keeps_setFormatterString logger i.formatter
    · exact steady_pure _
  · exact steady_bind (Logger.keeps_clearAppenders logger) fun _ =>
      steady_forM fun a _ => keeps_addDefined i logger a

theorem keeps_apply (old_value : LogDefines) (i : LogDefine) :
    Keeps held (apply old_value i) := by
  have found : Keeps held (findLogger old_value i) := by
    unfold findLogger
    split
    · exact steady_bind (LoggerManager.keeps_getLogger i.name) fun _ => steady_pure _
    · split_ifs
      · exact steady_bind (LoggerManager.keeps_getLogger i.name) fun _ => steady_pure _
      · exact steady_pure _
  refine steady_bind found fun logger => ?_
  split
  · exact steady_crash _
  · exact keeps_configure _ i

theorem keeps_remove (new_value : LogDefines) (i : LogDefine) :
    Keeps held (remove new_value i) := by
  unfold remove
  split
  · exact steady_pure _
  · refine steady_bind (LoggerManager.keeps_getLogger i.name) fun logger => ?_
    exact steady_bind (Logger.keeps_setLevel logger _) fun _ => Logger.keeps_clearAppenders logger

theorem keeps_onChange (old_value new_value : LogDefines) :
    Keeps held (onChange platform old_value new_value) := by
  refine steady_bind (steady_read _) fun logger => ?_
  refine steady_bind ?_ fun _ => steady_bind ?_ fun _ => ?_
  · exact keeps_CHORD_LOG_LEVEL platform _ logger _ _ _
  · exact steady_forM fun i _ => keeps_apply old_value i
  · exact steady_forM fun i _ => keeps_remove new_value i

end LogIniter

end LogProgram

end Chord
