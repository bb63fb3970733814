import ChordServer.LockRulesRuns
import ChordServer.Logger

set_option autoImplicit false

namespace Chord

open LockProgram LockRules LockThreads

/-- A line of the file: what `log` was called with, and the formatter that the appender had then. -/
structure SharedAppender.Line where
  formatter : LogFormatter
  level : LogLevel
  event : LogEvent

/-- A `FileLogAppender` that threads share, the host, and the lines that have been written to the
file since it was last opened. -/
structure SharedAppender where
  appender : FileLogAppender
  host : Host
  lines : List SharedAppender.Line := []

/-- The functions of the appender; the one lock is its `m_mutex`. -/
abbrev AppenderProgram : Type → Type := LockProgram Unit SharedAppender Fault

namespace SharedAppender

variable (platform : Platform)

def setFormatter (val : Option LogFormatter) : AppenderProgram Unit :=
  locked () .write (modify fun s =>
    { s with appender := { s.appender with
      toLogAppender := s.appender.toLogAppender.setFormatter val } })

def setLevel (level : LogLevel) : AppenderProgram Unit :=
  modify fun s => { s with appender := { s.appender with
    toLogAppender := s.appender.toLogAppender.setLevel level } }

def reopened (env : Environment) (s : SharedAppender) : SharedAppender :=
  let result := s.appender.reopen env s.host
  { appender := result.1, host := result.2.1 }

def reopen (env : Environment) : AppenderProgram Unit := locked () .write (modify (reopened env))

/-- `if(now != m_lastTime + 3) { reopen(); m_lastTime = now; }`. -/
def reopenAt (env : Environment) : AppenderProgram Unit := do
  if ← read fun s => decide (env.now ≠ s.appender.m_lastTime + 3) then
    reopen env
    modify fun s => { s with appender := { s.appender with m_lastTime := env.now } }

/-- One character of `m_filestream << text` gets into the file. -/
def put (c : Char) (s : SharedAppender) : SharedAppender :=
  let written := s.appender.m_filestream.write [c] true s.host.disk
  { s with
    appender := { s.appender with m_filestream := written.1 }
    host := { s.host with disk := written.2 } }

/-- The characters of the line. -/
def Line.text (line : Line) : List Char :=
  (line.formatter.format platform line.level line.event).toList

/-- `m_filestream << text`, one character after the other, and the message of a failed write. -/
def writeLine (line : Line) : AppenderProgram Unit := do
  (line.text platform).forM fun c => modify (put c)
  modify fun s => { s with lines := s.lines ++ [line] }
  if ← read fun s => s.appender.m_filestream.failed then
    modify fun s => { s with host := s.host.print "file_appender log error\n" }

/-- `m_filestream << m_formatter->format(..)`. -/
def writeEvent (level : LogLevel) (event : LogEvent) : AppenderProgram Unit := do
  match ← read fun s => s.appender.m_formatter with
  | none => crash .nullFormatter
  | some formatter => writeLine platform { formatter := formatter, level := level, event := event }

def log (level : LogLevel) (event : LogEvent) (env : Environment) : AppenderProgram Unit := do
  if ← read fun s => decide (s.appender.m_level ≤ level) then
    reopenAt env
    locked () .write (writeEvent platform level event)

/-- What a thread may call. -/
inductive Call
  | log (level : LogLevel) (event : LogEvent) (now : UInt64)
  | reopen
  | setFormatter (val : Option LogFormatter)
  | setLevel (level : LogLevel)

/-- Every open and every write of the file succeeds. -/
def call : Call → AppenderProgram Unit
  | .log level event now => log platform level event { now := now }
  | .reopen => reopen { now := 0 }
  | .setFormatter val => setFormatter val
  | .setLevel level => setLevel level

/-- The file of the appender holds the content, and the stream writes at its end. -/
def Holds (content : List Char) (s : SharedAppender) : Prop :=
  s.appender.m_filestream.Appending s.appender.m_filename s.host.disk content

/-- The line is that of a call of `log`, in a formatter that a call has given the appender. -/
structure Line.Logged (calls : List Call) (line : Line) : Prop where
  event : ∃ now, .log line.level line.event now ∈ calls
  formatter : .setFormatter (some line.formatter) ∈ calls

/-- After calls like these the file holds whole lines and the beginning of one. -/
structure WholeLines (calls : List Call) (s : SharedAppender) : Prop where
  formatter : ∀ formatter, s.appender.m_formatter = some formatter →
    .setFormatter (some formatter) ∈ calls
  lines : ∀ line ∈ s.lines, line.Logged calls
  holds : ∃ begun, (begun = [] ∨ ∃ line : Line, line.Logged calls ∧ begun <+: line.text platform) ∧
    s.Holds (s.lines.flatMap (Line.text platform) ++ begun)

/-- The lock protects all of the appender but its level and its clock. -/
structure Kept (s t : SharedAppender) : Prop where
  stream : t.appender.m_filestream = s.appender.m_filestream
  filename : t.appender.m_filename = s.appender.m_filename
  formatter : t.appender.m_formatter = s.appender.m_formatter
  disk : t.host.disk = s.host.disk
  lines : t.lines = s.lines

theorem Kept.holds {s t : SharedAppender} (kept : s.Kept t) {content : List Char}
    (holds : s.Holds content) : t.Holds content := by
  unfold Holds
  rw [kept.stream, kept.filename, kept.disk]
  exact holds

/-- What the file holds while nobody writes to it. -/
def Rests (s : SharedAppender) : Prop := s.Holds (s.lines.flatMap (Line.text platform))

theorem Kept.rests {s t : SharedAppender} (kept : s.Kept t) (rests : s.Rests platform) :
    t.Rests platform := by
  unfold Rests
  rw [kept.lines]
  exact kept.holds rests

def rules (calls : List Call) : LockRules Unit SharedAppender where
  valid := WholeLines platform calls
  kept _ := Kept
  grows _ _ := True
  rests _ := Rests platform
  kept_refl _ _ := ⟨rfl, rfl, rfl, rfl, rfl⟩
  grows_refl _ := trivial
  grows_trans _ _ _ _ _ := trivial
  rests_kept _ _ _ kept rests := kept.rests platform rests

variable {platform} {calls : List Call} {s t : SharedAppender} {held : HeldLocks Unit}

theorem WholeLines.of_rests (formatter : ∀ formatter, s.appender.m_formatter = some formatter →
    .setFormatter (some formatter) ∈ calls) (lines : ∀ line ∈ s.lines, line.Logged calls)
    (rests : s.Rests platform) : s.WholeLines platform calls :=
  ⟨formatter, lines, [], .inl rfl, by rwa [List.append_nil]⟩

/-- A step that leaves the protected part alone. -/
theorem guarantee_of_kept (whole : s.WholeLines platform calls) (kept : s.Kept t) :
    (rules platform calls).Guarantee held s t := by
  refine ⟨⟨?_, ?_, ?_⟩, trivial, fun _ _ => kept⟩
  · rw [kept.formatter]
    exact whole.formatter
  · rw [kept.lines]
    exact whole.lines
  · rw [kept.lines]
    obtain ⟨begun, logged, holds⟩ := whole.holds
    exact ⟨begun, logged, kept.holds holds⟩

/-- With the lock anything may be done that leaves whole lines and the beginning of one. -/
theorem guarantee_of_locked (whole : t.WholeLines platform calls) :
    (rules platform calls).Guarantee (((), .write) :: held) s t :=
  ⟨whole, trivial, fun _ absent => absurd List.mem_cons_self absent⟩

theorem put_holds {content : List Char} (holds : s.Holds content) (c : Char) :
    (put c s).Holds (content ++ [c]) := OFStream.Appending.write holds [c]

theorem reopened_holds (env : Environment) (opens : env.opens = true) {content : List Char}
    (holds : s.Holds content) : (reopened env s).Holds [] := by
  have good : s.appender.m_filestream.failed = false := holds.good
  unfold Holds reopened FileLogAppender.reopen
  rw [if_neg (by simp [good]), opens]
  exact OFStream.openFile_appending _ _ _ rfl

/-- What a thread that has the lock knows while it writes: the lines so far, and as much of its
own as it has written. -/
def Writing (platform : Platform) (lines : List Line) (begun : List Char) (s : SharedAppender) :
    Prop :=
  s.lines = lines ∧ s.Holds (lines.flatMap (Line.text platform) ++ begun)

theorem stable_writing (lines : List Line) (begun : List Char) :
    (rules platform calls).Stable (((), .write) :: held)
      (Writing platform lines begun) :=
  stable_of_kept List.mem_cons_self fun _ _ kept writing =>
    ⟨kept.lines.trans writing.1, kept.holds writing.2⟩

/-- The loop over the text of a line, by induction on what is left of it. -/
theorem obeys_put {line : Line} (logged : line.Logged calls) (lines : List Line) :
    ∀ rest before : List Char, line.text platform = before ++ rest →
      (rest.forM fun c => modify (put c) : AppenderProgram PUnit).Obeys (rules platform calls)
        (((), .write) :: held) (fun _ => Writing platform lines (line.text platform))
        (((), .write) :: held) (Writing platform lines before) := by
  intro rest
  induction rest with
  | nil =>
    intro before whole
    rw [whole, List.append_nil]
    exact obeys_pure fun _ _ writing => writing
  | cons c rest ih =>
    intro before whole
    have next : ∀ s : SharedAppender, Writing platform lines before s →
        Writing platform lines (before ++ [c]) (put c s) := by
      intro s writing
      refine ⟨writing.1, ?_⟩
      rw [← List.append_assoc]
      exact put_holds writing.2 c
    have split : line.text platform = (before ++ [c]) ++ rest := by rw [whole]; simp
    refine obeys_bind (obeys_modify (fun s valid writing => guarantee_of_locked ?_)
      (stable_writing _ _) fun s _ writing => next s writing) fun _ => ih (before ++ [c]) split
    obtain ⟨same, holds⟩ := next s writing
    refine ⟨valid.formatter, valid.lines, before ++ [c], .inr ⟨line, logged, rest, split.symm⟩, ?_⟩
    rw [same]
    exact holds

theorem stable_rests : (rules platform calls).Stable (((), .write) :: held) (Rests platform) :=
  stable_of_kept List.mem_cons_self ((rules platform calls).rests_kept ())

/-- Of a line the whole is in the file before the lock is given up. -/
theorem obeys_writeLine {line : Line} (logged : line.Logged calls) (lines : List Line) :
    (writeLine platform line).Obeys (rules platform calls) (((), .write) :: held)
      (fun _ => Rests platform) (((), .write) :: held) (Writing platform lines []) := by
  have whole : ∀ s : SharedAppender, Writing platform lines (line.text platform) s →
      Rests platform { s with lines := s.lines ++ [line] } := by
    rintro s ⟨rfl, holds⟩
    unfold Rests
    rw [List.flatMap_append, List.flatMap_singleton]
    exact holds
  refine obeys_bind (obeys_put logged lines _ [] rfl) fun _ =>
    obeys_bind (obeys_modify (fun s valid writing => ?_) stable_rests
      fun s _ writing => whole s writing) fun _ => ?_
  · refine guarantee_of_locked
      (.of_rests valid.formatter (fun other member => ?_) (whole s writing))
    rcases List.mem_append.mp member with before | last
    · exact valid.lines other before
    · rw [List.mem_singleton.mp last]
      exact logged
  · refine obeys_read_bind (fun _ => Rests platform) (fun _ => stable_rests)
      (fun _ _ rests => rests) fun s _ _ => ?_
    split
    · exact obeys_modify (fun s whole _ => guarantee_of_kept whole ⟨rfl, rfl, rfl, rfl, rfl⟩)
        stable_rests fun _ _ rests => rests
    · exact obeys_pure fun _ _ rests => rests

theorem steady_writeEvent {level : LogLevel} {event : LogEvent}
    (logged : ∃ now, .log level event now ∈ calls) :
    (locked () .write (writeEvent platform level event)).Steady (rules platform calls) held := by
  have body : (writeEvent platform level event).Obeys (rules platform calls)
      (((), .write) :: held) (fun _ => Rests platform) (((), .write) :: held)
      (Rests platform) := by
    refine obeys_read_bind (fun s => Writing platform s.lines []) (fun s => stable_writing _ _)
      (fun s _ rests => ⟨rfl, by rwa [List.append_nil]⟩) fun s valid _ => ?_
    split
    · trivial
    · rename_i formatter given
      exact obeys_writeLine ⟨logged, valid.formatter formatter given⟩ s.lines
  exact obeys_locked body stable_rests (fun _ _ _ rests => rests) (fun _ => stable_true)
    fun _ _ _ rests => ⟨trivial, fun _ => rests⟩

/-- A change in the lock's scope that leaves whole lines. -/
theorem steady_change {f : SharedAppender → SharedAppender}
    (whole : ∀ s : SharedAppender, s.WholeLines platform calls → s.Rests platform →
      (f s).WholeLines platform calls ∧ (f s).Rests platform) :
    (locked () .write (modify f) : AppenderProgram Unit).Steady (rules platform calls) held := by
  refine obeys_locked (obeys_modify (fun s valid rests => guarantee_of_locked
    (whole s valid rests).1) stable_rests fun s valid rests => (whole s valid rests).2)
    stable_rests (fun _ _ _ rests => rests) (fun _ => stable_true)
    fun _ _ _ rests => ⟨trivial, fun _ => rests⟩

theorem steady_reopen (env : Environment) (opens : env.opens = true) :
    (reopen env).Steady (rules platform calls) held :=
  steady_change fun _ whole rests => by
    have fresh := reopened_holds env opens rests
    exact ⟨.of_rests whole.formatter (fun _ member => absurd member List.not_mem_nil) fresh, fresh⟩

theorem steady_log {level : LogLevel} {event : LogEvent}
    (logged : ∃ now, .log level event now ∈ calls) (env : Environment) (opens : env.opens = true) :
    (log platform level event env).Steady (rules platform calls) held := by
  refine steady_bind (steady_read _) fun passes => ?_
  split
  · refine steady_bind ?_ fun _ => steady_writeEvent logged
    refine steady_bind (steady_read _) fun due => ?_
    split
    · exact steady_bind (steady_reopen env opens) fun _ =>
        steady_modify fun s whole => guarantee_of_kept whole ⟨rfl, rfl, rfl, rfl, rfl⟩
    · exact steady_pure _
  · exact steady_pure _

theorem steady_setFormatter {val : Option LogFormatter} (made : .setFormatter val ∈ calls) :
    (setFormatter val).Steady (rules platform calls) held :=
  steady_change fun _ whole rests => by
    refine ⟨.of_rests (fun formatter same => ?_) whole.lines rests, rests⟩
    obtain rfl : val = some formatter := same
    exact made

theorem steady_call {made : Call} (member : made ∈ calls) :
    (call platform made).Steady (rules platform calls) held := by
  cases made with
  | log level event now => exact steady_log ⟨now, member⟩ _ rfl
  | reopen => exact steady_reopen _ rfl
  | setFormatter val => exact steady_setFormatter member
  | setLevel level =>
    exact steady_modify fun s whole => guarantee_of_kept whole ⟨rfl, rfl, rfl, rfl, rfl⟩

/-- An appender that has just been constructed, with its file opened. -/
def start (filename : String) (env : Environment) (host : Host) : SharedAppender :=
  let made := FileLogAppender.new filename env host
  { appender := made.1, host := made.2 }

variable {ι : Type} [DecidableEq ι]

/-- The calls that the threads begin. -/
def callsOf (actions : List (Action ι Call)) : List Call :=
  actions.filterMap fun action =>
    match action with
    | .start _ made => some made
    | .next _ => none

/-- Whatever the interleaving of the threads, the file holds, since it was last opened, whole
lines of logged events in formatters that the appender was given, in the order in which they were
written, and at most the beginning of one more, and that one only while a thread has the lock. -/
theorem file_holds_whole_lines (filename : String) (env : Environment) (opens : env.opens = true)
    (host : Host) (actions : List (Action ι Call)) (s : LockThreads ι Unit SharedAppender Fault)
    (ran : Transition.run (LockThreads.step (call platform))
      { shared := start filename env host } actions = some s) :
    s.shared.WholeLines platform (callsOf actions) ∧
      ((s.mutexes ()).writer = none → s.shared.Rests platform) := by
  have fresh : (start filename env host).Holds [] := by
    unfold Holds start FileLogAppender.new FileLogAppender.reopen
    rw [opens]
    exact OFStream.openFile_appending _ _ _ rfl
  have initial : (start filename env host).WholeLines platform (callsOf actions) :=
    .of_rests (fun _ same => nomatch same) (fun _ member => absurd member List.not_mem_nil) fresh
  have begins : ({ shared := start filename env host } :
      LockThreads ι Unit SharedAppender Fault).Follows (rules platform (callsOf actions)) :=
    follows_initial initial fun _ => fresh
  have steady : ∀ thread made, .start thread made ∈ actions →
      (call platform made).Steady (rules platform (callsOf actions)) [] := fun _ _ member =>
    steady_call (List.mem_filterMap.mpr ⟨_, member, rfl⟩)
  have follows := follows_run_of_started steady begins ran
  exact ⟨follows.valid, follows.rests ()⟩

/-- Two threads log at once. The first has written its line, the second is writing. -/
def overtaking : List (Action Bool Call) :=
  let event (m_ss : String) : LogEvent :=
    { m_file := "main.cc", m_line := 1, m_elapsed := 0, m_threadId := 1, m_fiberId := 0,
      m_time := 7, m_ss := m_ss, m_logger := "root", m_level := .INFO }
  [.start true (.setFormatter (some ⟨"%m"⟩)), .next true, .next true, .next true,
    .start false (.log .INFO (event "hello") 3), .start true (.log .INFO (event "again") 3),
    .next false, .next true, .next false, .next true] ++
    List.replicate 10 (.next false) ++ List.replicate 4 (.next true)

theorem file_holds_whole_lines_overtaking :
    ∃ s : LockThreads Bool Unit SharedAppender Fault,
      Transition.run (LockThreads.step (call default))
        { shared := start "log.txt" { now := 0 } default } overtaking = some s ∧
      s.shared.host.disk "log.txt" = "helloag".toList ∧ s.shared.lines.length = 1 ∧
      s.shared.WholeLines default (callsOf overtaking) := by
  have written : (Transition.run (LockThreads.step (call default))
      { shared := start "log.txt" { now := 0 } default } overtaking).map
        (fun s => (s.shared.host.disk "log.txt", s.shared.lines.length)) =
      some ("helloag".toList, 1) := by decide +kernel
  obtain ⟨s, ran, same⟩ := Option.map_eq_some_iff.mp written
  obtain ⟨holds, one⟩ := Prod.mk.inj same
  refine ⟨s, ran, holds, one, ?_⟩
  exact (file_holds_whole_lines "log.txt" { now := 0 } rfl default overtaking s ran).1

end SharedAppender

end Chord
