import ChordServer.LogAppender
import ChordServer.Transition

set_option autoImplicit false

namespace Chord.FileLogAppender

/-- One call `log(logger, level, event)` at a clock value, with every open and
every write of the file successful. -/
structure Call where
  level : LogLevel
  event : LogEvent
  now : UInt64

def Call.env (call : Call) : Environment := { now := call.now }

variable (platform : Platform)

def step (state : FileLogAppender × Host) (call : Call) : Option (FileLogAppender × Host) :=
  log platform state.1 call.level call.event call.env state.2

/-- The text of the events at or above the appender's level, in call order. -/
def acceptedText (level : LogLevel) (formatter : LogFormatter) (calls : List Call) : List Char :=
  calls.flatMap fun call =>
    if level ≤ call.level then (formatter.format platform call.level call.event).toList else []

/-- `m_lastTime` after the calls: an accepted call at any other second than three
after it stores its own. -/
def lastTimeAfter (level : LogLevel) (lastTime : UInt64) (calls : List Call) : UInt64 :=
  calls.foldl (fun last call =>
    if level ≤ call.level ∧ call.now ≠ last + 3 then call.now else last) lastTime

/-- No accepted call that reopens the file comes after text has been written. -/
def ReopensOnlyEmpty (level : LogLevel) (formatter : LogFormatter) (lastTime : UInt64)
    (calls : List Call) : Prop :=
  ∀ before call after, calls = before ++ call :: after → level ≤ call.level →
    call.now ≠ lastTimeAfter level lastTime before + 3 →
    acceptedText platform level formatter before = []

/-- The appender is as it is between two calls: its stream appends to its file. -/
structure Writes (state : FileLogAppender × Host) (filename : String) (level : LogLevel)
    (formatter : LogFormatter) (lastTime : UInt64) (content : List Char) : Prop where
  named : state.1.m_filename = filename
  leveled : state.1.m_level = level
  formatted : state.1.m_formatter = some formatter
  timed : state.1.m_lastTime = lastTime
  stream : state.1.m_filestream.Appending filename state.2.disk content

/-- What the file holds after the calls, when it held `content` before them. -/
def contentAfter (level : LogLevel) (formatter : LogFormatter) :
    UInt64 → List Char → List Call → List Char
  | _, content, [] => content
  | lastTime, content, call :: rest =>
      if level ≤ call.level then
        let text := (formatter.format platform call.level call.event).toList
        if call.now ≠ lastTime + 3 then contentAfter level formatter call.now text rest
        else contentAfter level formatter lastTime (content ++ text) rest
      else contentAfter level formatter lastTime content rest

section
variable {state : FileLogAppender × Host} {filename : String} {level : LogLevel}
  {formatter : LogFormatter} {lastTime : UInt64} {content : List Char}

/-- `reopen()` on a good stream leaves an empty file. -/
theorem Writes.reopen (writes : Writes state filename level formatter lastTime content)
    (env : Environment) (opens : env.opens = true) :
    Writes ((state.1.reopen env state.2).1, (state.1.reopen env state.2).2.1) filename level
      formatter lastTime [] := by
  refine ⟨writes.named, writes.leveled, writes.formatted, writes.timed, ?_⟩
  simp only [FileLogAppender.reopen, writes.stream.good, Bool.false_eq_true, ↓reduceIte, opens,
    writes.named]
  exact OFStream.openFile_appending state.1.m_filestream.close filename state.2.disk rfl

theorem Writes.write (writes : Writes state filename level formatter lastTime content)
    (text : String) (env : Environment) (succeeds : env.writes = true) :
    Writes (state.1.write text env state.2) filename level formatter lastTime
      (content ++ text.toList) := by
  have appended := writes.stream.write text.toList
  refine ⟨writes.named, writes.leveled, writes.formatted, writes.timed, ?_⟩
  simpa only [FileLogAppender.write, succeeds, appended.good, Bool.false_eq_true, ↓reduceIte]
    using appended

/-- One call: a refused event changes nothing, an accepted one may first empty
the file and then appends its text. -/
theorem Writes.step (writes : Writes state filename level formatter lastTime content)
    (call : Call) :
    ∃ next, step platform state call = some next ∧
      Writes next filename level formatter (lastTimeAfter level lastTime [call])
        (contentAfter platform level formatter lastTime content [call]) := by
  simp only [FileLogAppender.step, log, writes.leveled, lastTimeAfter, List.foldl_cons,
    List.foldl_nil, contentAfter]
  by_cases accepted : level ≤ call.level
  · by_cases due : call.now = lastTime + 3
    · have stays : state.1.reopenAt call.env state.2 = state := by
        simp [reopenAt, Call.env, writes.timed, due]
      simp only [accepted, due, stays, ne_eq, not_true_eq_false, and_false, ↓reduceIte,
        writes.formatted, Option.map_some, Option.some.injEq, exists_eq_left']
      exact writes.write _ _ rfl
    · have emptied := writes.reopen call.env rfl
      have reopened : Writes (state.1.reopenAt call.env state.2) filename level formatter
          call.now [] := by
        simp only [reopenAt, Call.env, writes.timed, ne_eq, due, not_false_eq_true, ↓reduceIte]
        exact ⟨emptied.named, emptied.leveled, emptied.formatted, rfl, emptied.stream⟩
      simp only [accepted, due, ne_eq, not_false_eq_true, and_self, ↓reduceIte,
        reopened.formatted, Option.map_some, Option.some.injEq, exists_eq_left']
      exact reopened.write _ _ rfl
  · simp only [accepted, false_and, ↓reduceIte, Option.some.injEq, exists_eq_left']
    exact writes

end

variable (level : LogLevel) (formatter : LogFormatter)

theorem contentAfter_cons (lastTime : UInt64) (content : List Char) (call : Call)
    (rest : List Call) :
    contentAfter platform level formatter lastTime content (call :: rest) =
      contentAfter platform level formatter (lastTimeAfter level lastTime [call])
        (contentAfter platform level formatter lastTime content [call]) rest := by
  simp only [contentAfter, lastTimeAfter, List.foldl_cons, List.foldl_nil]
  by_cases accepted : level ≤ call.level
  · by_cases due : call.now = lastTime + 3 <;> simp [accepted, due]
  · simp [accepted]

variable {level formatter} in
theorem Writes.run {filename : String} (calls : List Call) :
    ∀ {state : FileLogAppender × Host} {lastTime : UInt64} {content : List Char},
      Writes state filename level formatter lastTime content →
      ∃ final, Transition.run (FileLogAppender.step platform) state calls = some final ∧
        Writes final filename level formatter (lastTimeAfter level lastTime calls)
          (contentAfter platform level formatter lastTime content calls) := by
  induction calls with
  | nil => exact fun writes => ⟨_, rfl, writes⟩
  | cons call rest ih =>
    intro state lastTime content writes
    obtain ⟨next, stepped, written⟩ := writes.step platform call
    obtain ⟨final, ran, ended⟩ := ih written
    rw [← contentAfter_cons] at ended
    exact ⟨final, by rw [Transition.run_cons, stepped]; exact ran, ended⟩

theorem acceptedText_cons (call : Call) (rest : List Call) :
    acceptedText platform level formatter (call :: rest) =
      acceptedText platform level formatter [call] ++
        acceptedText platform level formatter rest := by
  simp [acceptedText]

/-- Reopening only ever shortens the file. -/
theorem contentAfter_length_le (calls : List Call) :
    ∀ (lastTime : UInt64) (content : List Char),
      (contentAfter platform level formatter lastTime content calls).length ≤
        content.length + (acceptedText platform level formatter calls).length := by
  induction calls with
  | nil => intro lastTime content; simp [contentAfter]
  | cons call rest ih =>
    intro lastTime content
    rw [acceptedText_cons, List.length_append, contentAfter]
    by_cases accepted : level ≤ call.level
    · have text : acceptedText platform level formatter [call] =
          (formatter.format platform call.level call.event).toList := by
        simp [acceptedText, accepted]
      by_cases due : call.now = lastTime + 3
      · have bound := ih lastTime
          (content ++ (formatter.format platform call.level call.event).toList)
        simp only [accepted, due, ne_eq, not_true_eq_false, ↓reduceIte, text] at bound ⊢
        simp only [List.length_append] at bound
        omega
      · have bound := ih call.now (formatter.format platform call.level call.event).toList
        simp only [accepted, due, ne_eq, not_false_eq_true, ↓reduceIte, text] at bound ⊢
        omega
    · have bound := ih lastTime content
      simp only [accepted, ↓reduceIte]
      omega

/-- Nothing is lost exactly when the file is empty at each call that reopens it:
a lost character is never made up for, because the length never catches up. -/
theorem contentAfter_eq_iff (calls : List Call) :
    ∀ (lastTime : UInt64) (content : List Char),
      contentAfter platform level formatter lastTime content calls =
          content ++ acceptedText platform level formatter calls ↔
        ∀ before call after, calls = before ++ call :: after → level ≤ call.level →
          call.now ≠ lastTimeAfter level lastTime before + 3 →
          content ++ acceptedText platform level formatter before = [] := by
  induction calls with
  | nil =>
    intro lastTime content
    simp [contentAfter, acceptedText]
  | cons call rest ih =>
    intro lastTime content
    have later : ∀ (next : UInt64) (text : List Char),
        lastTimeAfter level lastTime [call] = next →
        content ++ acceptedText platform level formatter [call] = text →
        ((∀ before other after, rest = before ++ other :: after → level ≤ other.level →
            other.now ≠ lastTimeAfter level next before + 3 →
            text ++ acceptedText platform level formatter before = []) ↔
          ∀ before other after, rest = before ++ other :: after → level ≤ other.level →
            other.now ≠ lastTimeAfter level lastTime (call :: before) + 3 →
            content ++ acceptedText platform level formatter (call :: before) = []) := by
      rintro next text rfl rfl
      refine forall_congr' fun before => forall_congr' fun other => forall_congr' fun after => ?_
      rw [acceptedText_cons platform level formatter call before, List.append_assoc]
      rfl
    have splits : (∀ before other after, call :: rest = before ++ other :: after →
          level ≤ other.level → other.now ≠ lastTimeAfter level lastTime before + 3 →
          content ++ acceptedText platform level formatter before = []) ↔
        (level ≤ call.level → call.now ≠ lastTime + 3 → content = []) ∧
          ∀ before other after, rest = before ++ other :: after → level ≤ other.level →
            other.now ≠ lastTimeAfter level lastTime (call :: before) + 3 →
            content ++ acceptedText platform level formatter (call :: before) = [] := by
      constructor
      · intro every
        refine ⟨fun accepted due => ?_, fun before other after shape => ?_⟩
        · simpa [acceptedText] using every [] call rest rfl accepted due
        · exact every (call :: before) other after (by rw [shape, List.cons_append])
      · rintro ⟨first, every⟩ before other after shape accepted due
        cases before with
        | nil =>
          obtain ⟨rfl, -⟩ : call = other ∧ rest = after := by simpa using shape
          simpa [acceptedText] using first accepted due
        | cons head before =>
          obtain ⟨rfl, shape⟩ : call = head ∧ rest = before ++ other :: after := by
            simpa using shape
          exact every before other after (by simpa using shape) accepted due
    rw [splits, acceptedText_cons, ← List.append_assoc, contentAfter]
    by_cases accepted : level ≤ call.level
    · have text : acceptedText platform level formatter [call] =
          (formatter.format platform call.level call.event).toList := by
        simp [acceptedText, accepted]
      by_cases due : call.now = lastTime + 3
      · have same : lastTimeAfter level lastTime [call] = lastTime := by
          simp [lastTimeAfter, due]
        rw [← later lastTime _ same rfl, ← ih]
        simp [accepted, due, text]
      · have stored : lastTimeAfter level lastTime [call] = call.now := by
          simp [lastTimeAfter, accepted, due]
        by_cases empty : content = []
        · rw [← later call.now _ stored rfl, ← ih]
          simp [accepted, due, text, empty]
        · have short := contentAfter_length_le platform level formatter rest call.now
            (formatter.format platform call.level call.event).toList
          have positive : 0 < content.length := List.length_pos_iff.mpr empty
          simp only [accepted, due, ne_eq, not_false_eq_true, ↓reduceIte, empty, forall_const,
            false_and, iff_false]
          intro same
          have sizes := congrArg List.length same
          simp only [List.length_append, text] at sizes
          omega
    · have same : lastTimeAfter level lastTime [call] = lastTime := by
        simp [lastTimeAfter, accepted]
      rw [← later lastTime _ same rfl, ← ih]
      simp [accepted, acceptedText]

/-- An appender that has just been constructed on `filename` and then given its
formatter and level. -/
def constructed (filename : String) (level : LogLevel) (formatter : LogFormatter)
    (own : Bool) (lastTime : UInt64) (host : Host) : FileLogAppender × Host :=
  let made := new filename { now := 0, indeterminate := lastTime } host
  ({ made.1 with m_level := level, m_formatter := some formatter, m_has_Formatter := own },
    made.2)

theorem constructed_writes (filename : String) (level : LogLevel) (formatter : LogFormatter)
    (own : Bool) (lastTime : UInt64) (host : Host) :
    Writes (constructed filename level formatter own lastTime host) filename level formatter
      lastTime [] :=
  ⟨rfl, rfl, rfl, rfl, OFStream.openFile_appending (OFStream.close {}) filename host.disk rfl⟩

/-- The calls return, and the file is what it was followed by every accepted
event's text. -/
def LosesNoLine (platform : Platform) (filename : String) (level : LogLevel)
    (formatter : LogFormatter) (own : Bool) (lastTime : UInt64) (host : Host)
    (calls : List Call) : Prop :=
  let start := constructed filename level formatter own lastTime host
  ∃ final, Transition.run (step platform) start calls = some final ∧
    final.2.disk filename =
      start.2.disk filename ++ acceptedText platform level formatter calls

theorem losesNoLine_contentAfter (filename : String) (own : Bool) (lastTime : UInt64)
    (host : Host) (calls : List Call) :
    LosesNoLine platform filename level formatter own lastTime host calls ↔
      contentAfter platform level formatter lastTime [] calls =
        acceptedText platform level formatter calls := by
  have start := constructed_writes filename level formatter own lastTime host
  obtain ⟨final, ran, ended⟩ := start.run platform calls
  simp only [LosesNoLine, ran, Option.some.injEq, exists_eq_left']
  rw [ended.stream.holds, start.stream.holds, List.nil_append]

/-- The file appender keeps every line exactly in the runs that reopen the file
only while nothing has been written. -/
theorem losesNoLine_iff (platform : Platform) (filename : String) (level : LogLevel)
    (formatter : LogFormatter) (own : Bool) (lastTime : UInt64) (host : Host)
    (calls : List Call) :
    LosesNoLine platform filename level formatter own lastTime host calls ↔
      ReopensOnlyEmpty platform level formatter lastTime calls := by
  have kept := contentAfter_eq_iff platform level formatter calls lastTime []
  simp only [List.nil_append] at kept
  rw [losesNoLine_contentAfter, ReopensOnlyEmpty, kept]

/-- Two events of one second: the second call reopens the file, because its clock
is not three seconds after the first, and the first line is gone. -/
theorem two_lines_in_one_second_lose_one :
    let event : LogEvent :=
      { m_file := "", m_line := 0, m_elapsed := 0, m_threadId := 0, m_fiberId := 0, m_time := 10,
        m_ss := "a", m_logger := "root", m_level := .INFO }
    ¬ LosesNoLine { strftime := fun _ _ _ => none, unspecified := "" } "log.txt" .DEBUG ⟨"%m%n"⟩
        true 0 { disk := fun _ => [], console := "" }
        [⟨.INFO, event, 10⟩, ⟨.INFO, { event with m_ss := "b" }, 10⟩] := by
  intro event
  rw [losesNoLine_contentAfter]
  decide +kernel

end Chord.FileLogAppender
