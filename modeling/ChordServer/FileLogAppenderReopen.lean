import ChordServer.FileLogAppenderContent

set_option autoImplicit false

namespace OFStream

/-- The file is open and an operation on it has failed. -/
def Stuck (stream : OFStream) : Prop := stream.isOpen = true ∧ stream.failed = true

/-- A failed stream stays open, and only a write that fails makes an open one fail. -/
theorem stuck_write (stream : OFStream) (text : List Char) (succeeds : Bool) (disk : Disk) :
    (stream.write text succeeds disk).1.Stuck ↔
      stream.Stuck ∨ (stream.isOpen = true ∧ stream.failed = false ∧ succeeds = false) := by
  unfold Stuck write
  cases isOpen : stream.isOpen <;> cases failed : stream.failed <;> cases succeeds <;>
    simp_all

theorem Stuck.write {stream : OFStream} (stuck : stream.Stuck) (text : List Char)
    (succeeds : Bool) (disk : Disk) : (stream.write text succeeds disk).2 = disk := by
  rw [OFStream.write, if_pos (.inl stuck.2)]

end OFStream

namespace Chord.FileLogAppender

/-- The stream is open on the appender's file and good. -/
def Restored (appender : FileLogAppender) : Prop :=
  appender.m_filestream.isOpen = true ∧ appender.m_filestream.failed = false ∧
    appender.m_filestream.file = appender.m_filename

/-- `reopen()` reports whether the stream is restored, which it is when the file can be opened. -/
def ReopenRestores (appender : FileLogAppender) (env : Environment) (host : Host) : Prop :=
  let done := appender.reopen env host
  (done.2.2 = true ↔ Restored done.1) ∧ (env.opens = true → Restored done.1)

/-- An open stream that has failed is not closed, so that `open()` fails on it. -/
theorem reopen_of_stuck {appender : FileLogAppender} (stuck : appender.m_filestream.Stuck)
    (env : Environment) (host : Host) : appender.reopen env host = (appender, host, true) := by
  obtain ⟨base, filename, ⟨isOpen, failed, file, position⟩, lastTime⟩ := appender
  obtain ⟨rfl, rfl⟩ : isOpen = true ∧ failed = true := stuck
  rfl

/-- Every other stream is closed when `open()` is called. -/
theorem reopen_of_not_stuck {appender : FileLogAppender} (free : ¬ appender.m_filestream.Stuck)
    (env : Environment) (host : Host) :
    ∃ closed : OFStream, closed.isOpen = false ∧
      appender.reopen env host =
        let opened := closed.openFile appender.m_filename env.opens host.disk
        ({ appender with m_filestream := opened.1 }, { host with disk := opened.2 },
          opened.1.failed) := by
  cases failed : appender.m_filestream.failed with
  | false => exact ⟨appender.m_filestream.close, rfl, by simp [reopen, failed]⟩
  | true =>
    refine ⟨appender.m_filestream, ?_, by simp [reopen, failed]⟩
    cases isOpen : appender.m_filestream.isOpen with
    | false => rfl
    | true => exact absurd ⟨isOpen, failed⟩ free

/-- What a stream was before does not matter once its file has been opened. -/
theorem reopen_opens {appender : FileLogAppender} (free : ¬ appender.m_filestream.Stuck)
    {env : Environment} (opens : env.opens = true) (host : Host) :
    appender.reopen env host =
      ({ appender with m_filestream := { isOpen := true, file := appender.m_filename } },
        { host with disk := Function.update host.disk appender.m_filename [] }, false) := by
  obtain ⟨closed, shut, same⟩ := reopen_of_not_stuck free env host
  simp only [same, OFStream.openFile, shut, opens, Bool.false_eq_true, Bool.true_eq_false,
    or_self, ↓reduceIte]

theorem reopen_fails {appender : FileLogAppender} (free : ¬ appender.m_filestream.Stuck)
    {env : Environment} (refused : env.opens = false) (host : Host) :
    (appender.reopen env host).1.m_filestream.isOpen = false ∧
      (appender.reopen env host).2.2 = true := by
  obtain ⟨closed, shut, same⟩ := reopen_of_not_stuck free env host
  simp only [same, OFStream.openFile, refused, or_true, ↓reduceIte]
  exact ⟨shut, trivial⟩

/-- The reported value is the negation of what it is documented to be. -/
theorem reopen_reports (appender : FileLogAppender) (env : Environment) (host : Host) :
    (appender.reopen env host).2.2 = true ↔ ¬ Restored (appender.reopen env host).1 := by
  by_cases stuck : appender.m_filestream.Stuck
  · rw [reopen_of_stuck stuck]
    refine iff_of_true rfl fun restored => ?_
    exact Bool.false_ne_true (restored.2.1.symm.trans stuck.2)
  · cases opens : env.opens with
    | true =>
      rw [reopen_opens stuck opens]
      exact iff_of_false Bool.false_ne_true (not_not.mpr ⟨rfl, rfl, rfl⟩)
    | false =>
      obtain ⟨shut, reported⟩ := reopen_fails stuck opens host
      refine iff_of_true reported fun restored => ?_
      rw [restored.1] at shut
      cases shut

theorem restored_iff_not_stuck (appender : FileLogAppender) {env : Environment} (host : Host)
    (opens : env.opens = true) :
    Restored (appender.reopen env host).1 ↔ ¬ appender.m_filestream.Stuck := by
  constructor
  · intro restored stuck
    rw [reopen_of_stuck stuck] at restored
    exact Bool.false_ne_true (restored.2.1.symm.trans stuck.2)
  · intro free
    rw [reopen_opens free opens]
    exact ⟨rfl, rfl, rfl⟩

/-- Reopening neither frees a stuck stream nor makes one stuck. -/
theorem stuck_reopen (appender : FileLogAppender) (env : Environment) (host : Host) :
    (appender.reopen env host).1.m_filestream.Stuck ↔ appender.m_filestream.Stuck := by
  by_cases stuck : appender.m_filestream.Stuck
  · rw [reopen_of_stuck stuck]
  · refine iff_of_false (fun after => ?_) stuck
    cases opens : env.opens with
    | true =>
      rw [reopen_opens stuck opens] at after
      cases after.2
    | false =>
      obtain ⟨shut, -⟩ := reopen_fails stuck opens host
      exact Bool.false_ne_true (shut.symm.trans after.1)

/-- One call `log(logger, level, event)` with what the system answers during it. -/
structure Attempt where
  level : LogLevel
  event : LogEvent
  env : Environment

def attempt (platform : Platform) (state : FileLogAppender × Host) (call : Attempt) :
    Option (FileLogAppender × Host) :=
  log platform state.1 call.level call.event call.env state.2

/-- An accepted call that finds its file open can write to it. -/
def WriteHolds (state : FileLogAppender × Host) (call : Attempt) : Prop :=
  let stream := (state.1.reopenAt call.env state.2).1.m_filestream
  state.1.m_level ≤ call.level → stream.isOpen = true → stream.failed = false →
    call.env.writes = true

theorem stuck_reopenAt (appender : FileLogAppender) (env : Environment) (host : Host) :
    (appender.reopenAt env host).1.m_filestream.Stuck ↔ appender.m_filestream.Stuck := by
  unfold reopenAt
  split
  · exact stuck_reopen appender env host
  · exact Iff.rfl

variable {platform : Platform}

theorem stuck_attempt {state next : FileLogAppender × Host} {call : Attempt}
    (logged : attempt platform state call = some next) :
    next.1.m_filestream.Stuck ↔ state.1.m_filestream.Stuck ∨ ¬ WriteHolds state call := by
  unfold attempt log at logged
  split at logged
  · rename_i accepted
    obtain ⟨formatter, -, rfl⟩ := Option.map_eq_some_iff.mp logged
    have written := (state.1.reopenAt call.env state.2).1.m_filestream.stuck_write
      (formatter.format platform call.level call.event).toList call.env.writes
      (state.1.reopenAt call.env state.2).2.disk
    rw [stuck_reopenAt] at written
    refine written.trans (or_congr_right ?_)
    simp only [WriteHolds, accepted, forall_const, Classical.not_imp, Bool.not_eq_true]
  · rename_i refused
    obtain rfl := Option.some.inj logged
    refine (or_iff_left (not_not.mpr fun accepted => ?_)).symm
    exact absurd accepted refused

/-- Nothing that is logged to a stuck stream reaches the disk. -/
theorem disk_attempt {state next : FileLogAppender × Host} {call : Attempt}
    (stuck : state.1.m_filestream.Stuck) (logged : attempt platform state call = some next) :
    next.2.disk = state.2.disk := by
  have still := (stuck_reopenAt state.1 call.env state.2).mpr stuck
  have kept : (state.1.reopenAt call.env state.2).2 = state.2 := by
    unfold reopenAt
    split
    · rw [reopen_of_stuck stuck]
    · rfl
  unfold attempt log at logged
  split at logged
  · obtain ⟨formatter, -, rfl⟩ := Option.map_eq_some_iff.mp logged
    dsimp only [FileLogAppender.write]
    split
    · exact (still.write _ _ _).trans (congrArg Host.disk kept)
    · exact (still.write _ _ _).trans (congrArg Host.disk kept)
  · obtain rfl := Option.some.inj logged
    rfl

theorem stuck_run (calls : List Attempt) : ∀ {start final : FileLogAppender × Host},
    Transition.run (attempt platform) start calls = some final →
      (final.1.m_filestream.Stuck ↔ start.1.m_filestream.Stuck ∨
        ¬ Transition.StepsMeet (attempt platform) WriteHolds start calls) := by
  induction calls with
  | nil =>
    intro start final ran
    obtain rfl := Option.some.inj ran
    exact (or_iff_left (not_not.mpr trivial)).symm
  | cons call rest ih =>
    intro start final ran
    obtain ⟨next, logged, later⟩ := Option.bind_eq_some_iff.mp ran
    rw [ih later, stuck_attempt logged, or_assoc, Transition.stepsMeet_cons logged,
      Classical.not_and_iff_not_or_not]

/-- A stuck stream stays stuck, and the disk as it is, whatever is logged. -/
theorem disk_run {start final : FileLogAppender × Host} {calls : List Attempt}
    (stuck : start.1.m_filestream.Stuck)
    (ran : Transition.run (attempt platform) start calls = some final) :
    final.2.disk = start.2.disk := by
  have kept : ∀ state call next,
      state.1.m_filestream.Stuck ∧ state.2.disk = start.2.disk →
      attempt platform state call = some next →
      next.1.m_filestream.Stuck ∧ next.2.disk = start.2.disk := by
    rintro state call next ⟨stuck, same⟩ logged
    exact ⟨(stuck_attempt logged).mpr (.inl stuck), (disk_attempt stuck logged).trans same⟩
  exact (Transition.run_invariant kept ⟨stuck, rfl⟩ ran).2

/-- A stream that is not stuck is in order again once its file has been opened. -/
theorem writes_of_reopened {state : FileLogAppender × Host} {formatter : LogFormatter}
    {env : Environment} (free : ¬ state.1.m_filestream.Stuck)
    (formatted : state.1.m_formatter = some formatter) (opens : env.opens = true) :
    Writes ((state.1.reopen env state.2).1, (state.1.reopen env state.2).2.1)
      state.1.m_filename state.1.m_level formatter state.1.m_lastTime [] := by
  rw [reopen_opens free opens]
  exact ⟨rfl, rfl, formatted, rfl, rfl, rfl, rfl, Function.update_self _ _ _, rfl⟩

/-- In a run that starts free, the stream stays free exactly while no write to the open file
fails. -/
theorem restored_of_run {start final : FileLogAppender × Host} {calls : List Attempt}
    (ran : Transition.run (attempt platform) start calls = some final) :
    (∀ env : Environment, env.opens = true → Restored (final.1.reopen env final.2).1) ↔
      ¬ start.1.m_filestream.Stuck ∧
        Transition.StepsMeet (attempt platform) WriteHolds start calls := by
  rw [← not_not (a := Transition.StepsMeet _ _ _ _), ← not_or, ← stuck_run calls ran]
  constructor
  · intro every
    exact (restored_iff_not_stuck final.1 final.2 rfl).mp (every { now := 0 } rfl)
  · intro free env opens
    exact (restored_iff_not_stuck final.1 final.2 opens).mpr free

/-- What `reopen()` reports is never right. It restores every stream but an open one that has
failed, which a failed write leaves: nothing that is logged later is in the file. After a
failed open the events are written as if nothing had failed. -/
theorem reopen_restores_iff (platform : Platform) (state : FileLogAppender × Host)
    (env : Environment) :
    ¬ ReopenRestores state.1 env state.2 ∧
      (env.opens = true →
        (Restored (state.1.reopen env state.2).1 ↔ ¬ state.1.m_filestream.Stuck)) ∧
      (∀ calls final, Transition.run (attempt platform) state calls = some final →
        ((∀ env : Environment, env.opens = true → Restored (final.1.reopen env final.2).1) ↔
            ¬ state.1.m_filestream.Stuck ∧
              Transition.StepsMeet (attempt platform) WriteHolds state calls) ∧
          (state.1.m_filestream.Stuck → final.2.disk = state.2.disk)) ∧
      ∀ (formatter : LogFormatter) (calls : List Call), ¬ state.1.m_filestream.Stuck →
        state.1.m_formatter = some formatter → env.opens = true →
        ∃ final, Transition.run (step platform)
            ((state.1.reopen env state.2).1, (state.1.reopen env state.2).2.1) calls = some final ∧
          final.2.disk state.1.m_filename =
            contentAfter platform state.1.m_level formatter state.1.m_lastTime [] calls := by
  refine ⟨fun restores => ?_, fun opens => ?_, fun calls final ran => ⟨?_, fun stuck => ?_⟩,
    fun formatter calls free formatted opens => ?_⟩
  · exact not_iff_self ((reopen_reports state.1 env state.2).symm.trans restores.1)
  · exact restored_iff_not_stuck state.1 state.2 opens
  · exact restored_of_run ran
  · exact disk_run stuck ran
  · obtain ⟨final, ran, ended⟩ := (writes_of_reopened free formatted opens).run platform calls
    exact ⟨final, ran, ended.stream.holds⟩

/-- An appender to "log.txt" with the given stream. -/
def onLogTxt (stream : OFStream) : FileLogAppender :=
  { m_filename := "log.txt", m_filestream := stream, m_lastTime := 0, m_formatter := some ⟨"%m"⟩ }

def failedStream : OFStream := { isOpen := true, failed := true, file := "log.txt" }

/-- An event of the level INFO, logged at the given second. -/
def infoAt (now : UInt64) (writes : Bool) : Attempt where
  level := .INFO
  event :=
    { m_file := "", m_line := 0, m_elapsed := 0, m_threadId := 0, m_fiberId := 0, m_time := now,
      m_ss := "a", m_logger := "root", m_level := .INFO }
  env := { now := now, writes := writes }

theorem reopen_restores_on_log_txt :
    ¬ Restored ((onLogTxt failedStream).reopen default default).1 ∧
      (∃ final, Transition.run (attempt default) (onLogTxt {}, default)
          [infoAt 10 true, infoAt 13 true] = some final ∧
        ∀ env : Environment, env.opens = true → Restored (final.1.reopen env final.2).1) ∧
      (∃ final, Transition.run (attempt default) (onLogTxt failedStream, default)
          [infoAt 10 true] = some final ∧ final.2.disk = (default : Host).disk) ∧
      ∃ final, Transition.run (step default)
          (((onLogTxt {}).reopen default default).1, ((onLogTxt {}).reopen default default).2.1)
          [⟨.INFO, (infoAt 10 true).event, 10⟩, ⟨.INFO, (infoAt 10 true).event, 13⟩] =
            some final ∧
        final.2.disk "log.txt" = "aa".toList := by
  obtain ⟨-, -, runs, logged⟩ := reopen_restores_iff default (onLogTxt {}, default) default
  obtain ⟨-, reopened, frozen, -⟩ :=
    reopen_restores_iff default (onLogTxt failedStream, default) default
  have free : ¬ (onLogTxt {}).m_filestream.Stuck := fun stuck => absurd stuck.1 (by decide)
  refine ⟨fun restored => ?_, ?_, ?_, ?_⟩
  · exact (reopened rfl).mp restored ⟨rfl, rfl⟩
  · obtain ⟨final, ran⟩ : ∃ final, Transition.run (attempt default) (onLogTxt {}, default)
        [infoAt 10 true, infoAt 13 true] = some final := ⟨_, rfl⟩
    have hold : Transition.StepsMeet (attempt default) WriteHolds (onLogTxt {}, default)
        [infoAt 10 true, infoAt 13 true] :=
      ⟨fun _ _ _ => rfl, fun _ _ => ⟨fun _ _ _ => rfl, fun _ _ => trivial⟩⟩
    exact ⟨final, ran, (runs _ final ran).1.mpr ⟨free, hold⟩⟩
  · obtain ⟨final, ran⟩ : ∃ final, Transition.run (attempt default)
        (onLogTxt failedStream, default) [infoAt 10 true] = some final := ⟨_, rfl⟩
    exact ⟨final, ran, (frozen _ final ran).2 ⟨rfl, rfl⟩⟩
  · obtain ⟨final, ran, content⟩ := logged ⟨"%m"⟩
      [⟨.INFO, (infoAt 10 true).event, 10⟩, ⟨.INFO, (infoAt 10 true).event, 13⟩] free rfl rfl
    exact ⟨final, ran, content.trans (by decide +kernel)⟩

/-- The file is opened and `false` is returned; an open stream that has failed stays as it is
although the file can be opened; and after one failed write the file stays empty. -/
theorem reopen_does_not_restore :
    ¬ ReopenRestores (onLogTxt {}) default default ∧
      ¬ Restored ((onLogTxt failedStream).reopen default default).1 ∧
      (Transition.run (attempt default) (constructed "log.txt" .DEBUG ⟨"%m%n"⟩ true 0 default)
        [infoAt 10 false, infoAt 20 true, infoAt 30 true]).map
          (fun final => final.2.disk "log.txt") = some [] := by
  refine ⟨fun restores => ?_, fun restored => ?_, by decide +kernel⟩
  · exact absurd (restores.1.mpr ⟨rfl, rfl, rfl⟩) (by decide)
  · exact absurd restored.2.1 (by decide)

end Chord.FileLogAppender
