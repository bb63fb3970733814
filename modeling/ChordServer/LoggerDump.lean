import ChordServer.LogDefineDecode
import ChordServer.LogIniterHistory
import ChordServer.LoggerYaml
import ChordServer.YamlFlow

set_option autoImplicit false

namespace Chord

open LogDefines YAML

/-- What is read back of an appender that has written itself. -/
def AppenderView.dumped (a : AppenderView) : LogAppenderDefine :=
  match a.file with
  | some file => { type := 1, file := file, formatter := a.own.getD "" }
  | none => { type := 2 }

/-- What is read back of a logger that has written itself. -/
def LoggerView.dumped (name : String) (l : LoggerView) : LogDefine :=
  { name := name, level := if l.level ≤ .FATAL then l.level else .UNKNOWN,
    formatter := l.formatter.getD "", appenders := l.appenders.map AppenderView.dumped }

/-- The set that is read back of all loggers. -/
def LogSystem.dumped (s : LogSystem) : LogDefines where
  toList := s.m_logger.toList.map fun i => ((s.loggers i.2).view s.appenders).dumped i.1
  sorted := by
    rw [List.pairwise_map]
    exact s.m_logger.sorted

section
variable {node : Node} (level : LogLevel) (formatter : Option LogFormatter)

theorem find_formatter_writeSettings (fresh : node.find "formatter" = none) :
    (writeSettings node level formatter).find "formatter" =
      (formatter.map LogFormatter.getPattern).map .Scalar := by
  rw [find_writeSettings]
  cases formatter <;> simp [fresh]

theorem find_level_writeSettings (fresh : node.find "level" = none) :
    (writeSettings node level formatter).find "level" =
      (if level ≠ .UNKNOWN then some level.ToString else none).map .Scalar := by
  rw [find_writeSettings]
  by_cases unknown : level = .UNKNOWN <;> simp [unknown, fresh]

/-- A level above `FATAL` is written as unknown. -/
theorem FromString_written : LogLevel.FromString
    ((if level ≠ .UNKNOWN then some level.ToString else none).getD "") =
      if level ≤ .FATAL then level else .UNKNOWN := by
  by_cases unknown : level = .UNKNOWN
  · rw [unknown]
    decide
  · rw [if_pos unknown, Option.getD_some, LogLevel.FromString_ToString]

end

theorem Appender.view_own (a : Appender) :
    a.view.own = a.base.ownFormatter.map LogFormatter.getPattern := by
  unfold view LogAppender.ownFormatter
  dsimp only
  split <;> rfl

theorem readAppender_toYaml (yaml : YamlCpp) (a : Appender) :
    readAppender yaml (some a.toYaml) = pure (some a.view.dumped) := by
  have own := a.view_own
  cases a with
  | file a =>
    have isMap : a.toYaml.IsMap := isMap_writeSettings _ _ (Node.isMap_set _ _ _)
    have type : a.toYaml.find "type" = some (.Scalar "FileLogAppender") := by
      simp [FileLogAppender.toYaml, find_writeSettings, Node.find_set]
    have named : a.toYaml.find "file" = some (.Scalar a.m_filename) := by
      simp [FileLogAppender.toYaml, find_writeSettings, Node.find_set]
    have formats : a.toYaml.find "formatter" = ((Appender.file a).view.own).map .Scalar := by
      rw [own]
      exact find_formatter_writeSettings _ _ (by simp [Node.find_set])
    exact readAppender_file yaml isMap type named formats
  | stdout a =>
    have isMap : (StdOutLogAppender.toYaml a).IsMap :=
      isMap_writeSettings _ _ (Node.isMap_set _ _ _)
    have type : (StdOutLogAppender.toYaml a).find "type" = some (.Scalar "StdoutLogAppender") := by
      simp [StdOutLogAppender.toYaml, find_writeSettings, Node.find_set]
    exact readAppender_stdout yaml isMap type

theorem readDefine_toYaml (yaml : YamlCpp) (s : LogSystem) (p : LoggerPtr) :
    readDefine yaml (some (Logger.toYaml s p)) =
      pure (some (((s.loggers p).view s.appenders).dumped (s.loggers p).m_name)) := by
  have before : (s.loggers p).writeMembers.IsMap := isMap_writeSettings _ _ (Node.isMap_set _ _ _)
  have isMap : (Logger.toYaml s p).IsMap := Node.isMap_pushBacks _ _ _ before
  have members : ∀ key, "appenders" ≠ key →
      (Logger.toYaml s p).find key = (s.loggers p).writeMembers.find key := by
    intro key apart
    rw [Logger.toYaml, Node.find_pushBacks, if_neg (not_and_of_not_left _ apart)]
  have name : (Logger.toYaml s p).find "name" = some (.Scalar (s.loggers p).m_name) := by
    rw [members _ (by decide)]
    simp [Logger.writeMembers, find_writeSettings, Node.find_set]
  have level := (members "level" (by decide)).trans
    (find_level_writeSettings _ _ (by simp [Node.find_set]))
  have formatter := (members "formatter" (by decide)).trans
    (find_formatter_writeSettings _ _ (by simp [Node.find_set]))
  have appenders : readAppenders yaml (Logger.toYaml s p) =
      pure ((s.loggers p).m_appenders.map fun a => (s.appenders a).view.dumped) := by
    refine readAppenders_of_find yaml (fun a => (s.appenders a).toYaml) _ isMap ?_
      fun a _ => readAppender_toYaml yaml (s.appenders a)
    have fresh : (s.loggers p).writeMembers.find "appenders" = none := by
      simp [Logger.writeMembers, find_writeSettings, Node.find_set]
    rw [Logger.toYaml, Node.find_pushBacks, fresh]
    by_cases none : (s.loggers p).m_appenders = [] <;> simp [none]
  rw [readDefine_of_find yaml isMap name level formatter appenders, FromString_written,
    LoggerView.dumped, Logger.view, List.map_map]
  rfl

/-- The text of the manager is read as the definitions that its loggers dump. -/
theorem LoggerManager.fromString_toYamlString (yaml : YamlCpp) {s : LogSystem}
    (wf : s.WellFormed) : ∃ text, toYamlString yaml s = .ok text ∧
      LogDefines.fromString yaml text = pure s.dumped := by
  refine ⟨_, toYamlString_eq yaml s, ?_⟩
  refine fromString_emit yaml (fun i => Logger.toYaml s i.2) s.m_logger.toList
    (fun i member => ?_) s.dumped.sorted
  rw [readDefine_toYaml, (wf.named i member).2]

/-- Of the events that there are, both levels let the same ones through. -/
def LogLevel.AcceptSame (first second : LogLevel) : Prop :=
  ∀ level : LogLevel, level.IsEvent → (first ≤ level ↔ second ≤ level)

/-- The appenders have the same kind and file, take the same events, and have the same
formatter of their own or none. -/
structure AppenderView.Agrees (a b : AppenderView) : Prop where
  file : a.file = b.file
  level : a.level.AcceptSame b.level
  own : a.own = b.own

/-- The loggers take the same events, format them alike and have in order the same
appenders. -/
structure LoggerView.Agrees (l m : LoggerView) : Prop where
  level : l.level.AcceptSame m.level
  formatter : l.formatter = m.formatter
  appenders : List.Forall₂ AppenderView.Agrees l.appenders m.appenders

/-- The appender takes all events, and only a file has a formatter of its own. -/
def AppenderView.Dumpable (a : AppenderView) : Prop :=
  a.level ≤ .DEBUG ∧ ∀ pattern, a.own = some pattern → a.file.isSome ∧ Usable pattern

def LoggerView.Dumpable (l : LoggerView) : Prop :=
  l.level ≤ .FATAL ∧ (∃ pattern, l.formatter = some pattern ∧ Usable pattern) ∧
    ∀ a ∈ l.appenders, a.Dumpable

def LogSystem.Dumpable (s : LogSystem) : Prop :=
  ∀ p < s.loggerCount, ((s.loggers p).view s.appenders).Dumpable

instance (a : AppenderView) : Decidable a.Dumpable :=
  inferInstanceAs (Decidable (_ ∧ ∀ pattern ∈ a.own, a.file.isSome ∧ Usable pattern))

instance (l : LoggerView) : Decidable l.Dumpable :=
  inferInstanceAs (Decidable (_ ∧ (∃ pattern ∈ l.formatter, Usable pattern) ∧ _))

instance (s : LogSystem) : Decidable s.Dumpable := inferInstanceAs (Decidable (∀ p < _, _))

theorem LogLevel.acceptSame_written_iff (level : LogLevel) :
    level.AcceptSame (if level ≤ .FATAL then level else .UNKNOWN) ↔ level ≤ .FATAL := by
  split
  · rename_i named
    exact iff_of_true (fun _ _ => Iff.rfl) named
  · rename_i above
    refine iff_of_false (fun same => above ?_) above
    exact (same .FATAL (by decide)).mpr (by decide)

theorem LogLevel.acceptSame_UNKNOWN_iff (level : LogLevel) :
    level.AcceptSame .UNKNOWN ↔ level ≤ .DEBUG := by
  constructor
  · exact fun same => (same .DEBUG (by decide)).mpr (by decide)
  · exact fun low event isEvent =>
      iff_of_true (le_trans (α := Nat) low isEvent.1) (Nat.zero_le event.value)

theorem not_usable_empty : ¬ Usable "" := fun usable => usable.1 rfl

theorem usable_defaultPattern : Usable defaultPattern := by decide +kernel

/-- An optional pattern is written as a text, and a text is read as one if it is usable. -/
theorem eq_usable_iff (pattern inherited : Option String)
    (other : ∀ text, inherited = some text → Usable text) :
    pattern = (if Usable (pattern.getD "") then some (pattern.getD "") else inherited) ↔
      (∀ text, pattern = some text → Usable text) ∧ (pattern = none → inherited = none) := by
  cases pattern with
  | none => simp [not_usable_empty, eq_comm]
  | some text =>
    by_cases usable : Usable text
    · simp [usable]
    · simp only [Option.getD_some, usable, if_false, Option.some.injEq, forall_eq', false_and,
        iff_false]
      exact fun same => usable (other text same.symm)

namespace AppenderView

variable (a : AppenderView) (pattern : Option String)

theorem dumped_file : (ofDefine pattern a.dumped).file = a.file := by
  unfold dumped
  split
  · rename_i file found
    rw [found]
    rfl
  · rename_i found
    rw [found]
    rfl

theorem dumped_level : (ofDefine pattern a.dumped).level = .UNKNOWN := by
  unfold dumped
  split <;> rfl

theorem dumped_own_iff : a.own = (ofDefine pattern a.dumped).own ↔
    ∀ text, a.own = some text → a.file.isSome ∧ Usable text := by
  unfold dumped
  split
  · rename_i file found
    rw [found]
    refine (eq_usable_iff a.own none fun _ missing => nomatch missing).trans ?_
    simp
  · rename_i found
    have dropped : (ofDefine pattern { type := 2 }).own = none := by
      simp [ofDefine, not_usable_empty]
    rw [found, dropped, Option.eq_none_iff_forall_ne_some]
    simp

/-- An appender comes back as it was exactly if it is dumpable. -/
theorem agrees_iff : a.Agrees (ofDefine pattern a.dumped) ↔ a.Dumpable := by
  have level := a.level.acceptSame_UNKNOWN_iff
  rw [← dumped_level a pattern] at level
  rw [Dumpable, ← level, ← dumped_own_iff a pattern]
  exact ⟨fun agrees => ⟨agrees.level, agrees.own⟩,
    fun ⟨level, own⟩ => ⟨(dumped_file a pattern).symm, level, own⟩⟩

end AppenderView

/-- A logger comes back as it was exactly if it is dumpable. -/
theorem LoggerView.agrees_iff (l : LoggerView) (name : String) :
    l.Agrees (.ofDefine (l.dumped name) ((l.dumped name).pattern (some defaultPattern))) ↔
      l.Dumpable := by
  have level := l.level.acceptSame_written_iff
  have formatter : l.formatter = (l.dumped name).pattern (some defaultPattern) ↔
      ∃ pattern, l.formatter = some pattern ∧ Usable pattern := by
    refine (eq_usable_iff l.formatter (some defaultPattern) ?_).trans ?_
    · rintro text same
      rw [← Option.some.inj same]
      exact usable_defaultPattern
    · cases l.formatter <;> simp
  have appenders : List.Forall₂ AppenderView.Agrees l.appenders
      ((l.dumped name).appenders.map (.ofDefine ((l.dumped name).pattern (some defaultPattern)))) ↔
      ∀ a ∈ l.appenders, a.Dumpable := by
    rw [LoggerView.dumped, List.map_map, List.forall₂_map_right_iff, List.forall₂_same]
    exact forall₂_congr fun a _ => a.agrees_iff _
  rw [Dumpable, ← level, ← formatter, ← appenders]
  exact ⟨fun agrees => ⟨agrees.level, agrees.formatter, agrees.appenders⟩,
    fun ⟨level, formatter, appenders⟩ => ⟨level, formatter, appenders⟩⟩

namespace LoggerManager

open Logging

variable {yaml : YamlCpp} {platform : Platform} {s : LogSystem}

/-- The manager's text is read as one definition for each logger, and these make of fresh
loggers what the loggers were. -/
def DumpsFaithfully (yaml : YamlCpp) (platform : Platform) (host : Host)
    (answers : Nat → Environment) (s : LogSystem) : Prop :=
  ∃ text defines applied, toYamlString yaml s = .ok text ∧
    ((LogDefines.fromString yaml text).run.run "").1 = .ok defines ∧
    defines.toList.map LogDefine.name = s.m_logger.toList.map Prod.fst ∧
    Transition.run (step platform) (start host answers) [.setValue defines] = some applied ∧
    ∀ p < s.loggerCount, (s.view (s.loggers p).m_name).Agrees
      (applied.log.view (s.loggers p).m_name)

theorem dumped_known (s : LogSystem) : s.dumped.KnownTypes := by
  intro d member a inside
  obtain ⟨i, -, rfl⟩ := List.mem_map.mp member
  obtain ⟨view, -, rfl⟩ := List.mem_map.mp inside
  unfold AppenderView.dumped
  split
  · exact .inl rfl
  · exact .inr rfl

/-- What the dumped definitions make of fresh loggers. -/
theorem applied_view {host : Host} {answers : Nat → Environment} {applied : Logging}
    (wf : s.WellFormed)
    (ran : Transition.run (step platform) (start host answers) [.setValue s.dumped] =
      some applied) {p : LoggerPtr} (inside : p < s.loggerCount) :
    let d := ((s.loggers p).view s.appenders).dumped (s.loggers p).m_name
    applied.log.view (s.loggers p).m_name = .ofDefine d (d.pattern (some defaultPattern)) := by
  intro d
  have entry := (KeyedSet.find_eq_some_iff.mp (wf.registered p inside)).1
  have member : d ∈ s.dumped := List.mem_map.mpr ⟨_, entry, rfl⟩
  have stored : applied.m_val = s.dumped := run_setValues_m_val platform [s.dumped] ran
  have view := (run_follows [s.dumped] ran).view d (stored ▸ member)
  exact view.trans (congrArg (LoggerView.ofDefine d) (LogDefines.pattern_of_mem member _))

theorem dumpsFaithfully_iff_of_wellFormed (host : Host) (answers : Nat → Environment)
    (wf : s.WellFormed) : DumpsFaithfully yaml platform host answers s ↔ s.Dumpable := by
  obtain ⟨text, written, read⟩ := fromString_toYamlString yaml wf
  have names : s.dumped.toList.map LogDefine.name = s.m_logger.toList.map Prod.fst := by
    rw [LogSystem.dumped, List.map_map]
    rfl
  have agree : ∀ {applied : Logging},
      Transition.run (step platform) (start host answers) [.setValue s.dumped] = some applied →
      ((∀ p < s.loggerCount, (s.view (s.loggers p).m_name).Agrees
        (applied.log.view (s.loggers p).m_name)) ↔ s.Dumpable) := by
    intro applied ran
    refine forall₂_congr fun p inside => ?_
    rw [applied_view wf ran inside, LogSystem.view, wf.named_name inside, LoggerView.agrees_iff]
  constructor
  · rintro ⟨other, defines, applied, rewritten, reread, -, ran, agrees⟩
    rw [written] at rewritten
    cases rewritten
    rw [read] at reread
    cases reread
    exact (agree ran).mp agrees
  · intro dumpable
    obtain ⟨applied, ran⟩ := run_first platform host answers (dumped_known s)
    exact ⟨text, s.dumped, applied, written, by rw [read]; rfl, names, ran,
      (agree ran).mpr dumpable⟩

/-- In every state that the program can reach, the dump is faithful exactly if every logger
has one of the named levels and a usable formatter, and its appenders take all events and
have no formatter of their own other than a file's usable one. -/
theorem dumpsFaithfully_iff {host host' : Host} {answers answers' : Nat → Environment}
    {actions : List Action} {state : Logging}
    (ran : Transition.run (step platform) (start host answers) actions = some state) :
    DumpsFaithfully yaml platform host' answers' state.log ↔ state.log.Dumpable :=
  dumpsFaithfully_iff_of_wellFormed host' answers' (run_wellFormed ran)

/-- Another logger than `root`, with a level and a file that has a pattern of its own. -/
theorem second_logger_dumpsFaithfully :
    ∃ state, Transition.run (step default) (start default default)
        [.getLogger "system", .setLevel 1 .WARN, .setFormatter 1 (some ⟨"%p %m"⟩),
          .newFileLogAppender "system.txt", .setAppenderFormatter 1 (some ⟨"%d %m%n"⟩),
          .addAppender 1 1] = some state ∧
      DumpsFaithfully Flow.yaml default default default state.log := by
  have ran : Transition.run (step default) (start default default)
    [.getLogger "system", .setLevel 1 .WARN, .setFormatter 1 (some ⟨"%p %m"⟩),
      .newFileLogAppender "system.txt", .setAppenderFormatter 1 (some ⟨"%d %m%n"⟩),
      .addAppender 1 1] = some _ := rfl
  exact ⟨_, ran, (dumpsFaithfully_iff ran).mpr (by decide +kernel)⟩

/-- An appender that is set to errors only comes back as one that takes every event. -/
theorem appender_level_is_not_read :
    ∃ state, Transition.run (step default) (start default default)
        [.newStdOutLogAppender, .setAppenderLevel 1 .ERROR, .addAppender 0 1] = some state ∧
      ¬ DumpsFaithfully Flow.yaml default default default state.log := by
  have ran : Transition.run (step default) (start default default)
    [.newStdOutLogAppender, .setAppenderLevel 1 .ERROR, .addAppender 0 1] = some _ := rfl
  refine ⟨_, ran, fun faithful => ?_⟩
  have wf := run_wellFormed ran
  have dumpable := (dumpsFaithfully_iff_of_wellFormed default default wf).mp faithful
  exact absurd ((dumpable 0 Nat.zero_lt_one).2.2 _ (.tail _ (.head _))).1 (by decide)

end LoggerManager

end Chord
