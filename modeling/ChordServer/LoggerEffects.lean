import ChordServer.LoggerDelivery

set_option autoImplicit false

namespace Chord

/-- What the logging code hands to the host: a file to open, a text for the standard output, or a
text for a file. -/
inductive Output
  | opened (file : String)
  | printed (text : String)
  | written (file text : String)
  deriving DecidableEq, Repr

/-- A text for a file, or for the standard output if there is none. -/
def Output.line (file : Option String) (text : String) : Output :=
  match file with
  | some file => .written file text
  | none => .printed text

/-- The host with the handles of the appenders: the file that each is open on, and its position
there. -/
structure Handles where
  host : Host
  opened : AppenderPtr → Option (String × Nat) := fun _ => none

namespace Handles

def print (handles : Handles) (text : String) : Handles :=
  { handles with host := { handles.host with console := handles.host.console ++ text } }

/-- The file is emptied and the handle stands at its beginning, if it can be opened. -/
def openFile (handles : Handles) (a : AppenderPtr) (file : String) (opens : Bool) : Handles :=
  if opens then
    { host := { handles.host with disk := Function.update handles.host.disk file [] }
      opened := Function.update handles.opened a (some (file, 0)) }
  else handles

/-- The text gets to where the handle stands in its file, or the failure is reported. It takes a
handle that is open on the file. -/
def write (handles : Handles) (a : AppenderPtr) (file text : String) (writes : Bool) :
    Option Handles :=
  if writes then
    (handles.opened a).bind fun opened =>
      if opened.1 = file then
        some {
          host := { handles.host with
            disk := Function.update handles.host.disk file
              (Disk.writeAt (handles.host.disk file) opened.2 text.toList) }
          opened := Function.update handles.opened a
            (some (file, opened.2 + text.toList.length)) }
      else none
  else some (handles.print "file_appender log error\n")

end Handles

/-- How the host takes an output. The file of a text may be opened anew before, and what fails
leaves the file as it is. -/
inductive Effect
  | opened (a : AppenderPtr) (file : String) (opens : Bool)
  | printed (text : String)
  | written (a : AppenderPtr) (file text : String) (reopens writes : Bool)

namespace Effect

def output : Effect → Output
  | .opened _ file _ => .opened file
  | .printed text => .printed text
  | .written _ file text _ _ => .written file text

/-- The handle that the host uses for it. -/
def handle : Effect → Option AppenderPtr
  | .opened a _ _ | .written a _ _ _ _ => some a
  | .printed _ => none

def perform (handles : Handles) : Effect → Option Handles
  | .opened a file opens => some (handles.openFile a file opens)
  | .printed text => some (handles.print text)
  | .written a file text reopens writes =>
      (handles.openFile a file reopens).write a file text writes

def Succeeds : Effect → Prop
  | .opened _ _ opens => opens = true
  | .printed _ => True
  | .written _ _ _ _ writes => writes = true

end Effect

/-- An effect leaves the other handles where they are. -/
theorem Effect.perform_other {effect : Effect} {handles next : Handles} {b : AppenderPtr}
    (performed : effect.perform handles = some next) (other : effect.handle ≠ some b) :
    next.opened b = handles.opened b := by
  have opening : ∀ a file opens, b ≠ a →
      (handles.openFile a file opens).opened b = handles.opened b := by
    intro a file opens apart
    unfold Handles.openFile
    split
    · exact Function.update_of_ne apart _ _
    · rfl
  cases effect with
  | printed text =>
    cases performed
    rfl
  | opened a file opens =>
    cases performed
    exact opening a file opens fun same => other (congrArg some same.symm)
  | written a file text reopens writes =>
    have apart : b ≠ a := fun same => other (congrArg some same.symm)
    rw [← opening a file reopens apart]
    simp only [perform, Handles.write] at performed
    split at performed
    · obtain ⟨opened, -, stored⟩ := Option.bind_eq_some_iff.mp performed
      obtain ⟨-, same⟩ := Option.ite_none_right_eq_some.mp stored
      cases same
      exact Function.update_of_ne apart _ _
    · cases performed
      rfl

/-- Every file can be opened and written. -/
def Reliable (answers : Nat → Environment) : Prop :=
  ∀ n, (answers n).opens = true ∧ (answers n).writes = true

/-- The host takes the outputs, in this order and no others, and comes to be `after`. If it is
reliable, it writes every text. -/
structure Host.Takes (host : Host) (answers : Nat → Environment) (outputs : List Output)
    (after : Host) (effects : List Effect) : Prop where
  outputs : effects.map Effect.output = outputs
  after : (Transition.run Effect.perform { host := host } effects).map Handles.host = some after
  succeed : Reliable answers → ∀ effect ∈ effects, effect.Succeeds

namespace Appender

/-- The stream of an appender that writes a file. -/
def stream : Appender → Option OFStream
  | .file appender => some appender.m_filestream
  | .stdout _ => none

/-- An open stream is one of the appender's file, and stands there as the handle does. -/
def At (appender : Appender) (opened : Option (String × Nat)) : Prop :=
  ∀ stream, appender.stream = some stream → stream.isOpen = true →
    appender.filename = some stream.file ∧ opened = some (stream.file, stream.position)

def Works (appender : Appender) : Prop :=
  ∀ stream, appender.stream = some stream → stream.isOpen = true ∧ stream.failed = false

/-- What the appender hands to the host of an event that it takes. -/
def output (platform : Platform) (level : LogLevel) (event : LogEvent) (appender : Appender) :
    Option Output :=
  if appender.base.m_level ≤ level then
    appender.base.m_formatter.map fun formatter =>
      .line appender.filename (formatter.format platform level event)
  else none

end Appender

namespace FileLogAppender

/-- Whether `reopen()` opens the file: not while the stream is open after a failure. -/
def reopens (appender : FileLogAppender) (env : Environment) : Bool :=
  env.opens && !(appender.m_filestream.failed && appender.m_filestream.isOpen)

def reopensAt (appender : FileLogAppender) (env : Environment) : Bool :=
  decide (env.now ≠ appender.m_lastTime + 3) && appender.reopens env

def writes (appender : FileLogAppender) (env : Environment) : Bool :=
  env.writes && appender.m_filestream.isOpen && !appender.m_filestream.failed

variable (appender : FileLogAppender) (env : Environment) (host : Host)

theorem reopen_of_reopens (opens : appender.reopens env = true) :
    (appender.reopen env host).1 =
        { appender with m_filestream := { isOpen := true, file := appender.m_filename } } ∧
      (appender.reopen env host).2.1 =
        { host with disk := Function.update host.disk appender.m_filename [] } := by
  unfold reopens at opens
  unfold reopen OFStream.openFile OFStream.close
  cases failed : appender.m_filestream.failed <;> cases isOpen : appender.m_filestream.isOpen <;>
    simp_all

theorem reopen_of_not (fails : appender.reopens env = false) :
    ∃ stream : OFStream,
      (appender.reopen env host).1 = { appender with m_filestream := stream } ∧
      (appender.reopen env host).2.1 = host ∧
      (stream.isOpen = true → appender.m_filestream.isOpen = true ∧
        stream.file = appender.m_filestream.file ∧
        stream.position = appender.m_filestream.position) := by
  unfold reopens at fails
  unfold reopen OFStream.openFile OFStream.close
  cases failed : appender.m_filestream.failed <;> cases isOpen : appender.m_filestream.isOpen <;>
    cases opens : env.opens <;> simp_all

theorem write_of_writes (text : String) (good : appender.writes env = true) :
    appender.write text env host =
      ({ appender with m_filestream := { appender.m_filestream with
          position := appender.m_filestream.position + text.toList.length } },
        { host with
          disk := Function.update host.disk appender.m_filestream.file
            (Disk.writeAt (host.disk appender.m_filestream.file) appender.m_filestream.position
              text.toList) }) := by
  unfold writes at good
  unfold write OFStream.write
  simp_all

theorem write_of_not (text : String) (fails : appender.writes env = false) :
    appender.write text env host =
      ({ appender with m_filestream := { appender.m_filestream with failed := true } },
        host.print "file_appender log error\n") := by
  unfold writes at fails
  unfold write OFStream.write
  cases failed : appender.m_filestream.failed <;> cases isOpen : appender.m_filestream.isOpen <;>
    cases writes : env.writes <;> simp_all

variable {appender env host} {handles : Handles} {a : AppenderPtr} {opened : Option (String × Nat)}

theorem at_file : (Appender.file appender).At opened ↔
    (appender.m_filestream.isOpen = true → appender.m_filename = appender.m_filestream.file ∧
      opened = some (appender.m_filestream.file, appender.m_filestream.position)) := by
  simp [Appender.At, Appender.stream, Appender.filename]

theorem works_file : (Appender.file appender).Works ↔
    appender.m_filestream.isOpen = true ∧ appender.m_filestream.failed = false := by
  simp [Appender.Works, Appender.stream]

/-- `reopen()` empties the file, or leaves it and the handle alone. -/
theorem reopen_handled (env : Environment) (same : handles.host = host)
    (here : (Appender.file appender).At (handles.opened a)) :
    (handles.openFile a appender.m_filename (appender.reopens env)).host =
        (appender.reopen env host).2.1 ∧
      (Appender.file (appender.reopen env host).1).At
        ((handles.openFile a appender.m_filename (appender.reopens env)).opened a) := by
  unfold Handles.openFile
  cases reopens : appender.reopens env with
  | true =>
    obtain ⟨opened, disk⟩ := reopen_of_reopens appender env host reopens
    rw [if_pos rfl, opened, disk, ← same, at_file]
    exact ⟨rfl, fun _ => ⟨rfl, Function.update_self a _ handles.opened⟩⟩
  | false =>
    obtain ⟨stream, opened, disk, kept⟩ := reopen_of_not appender env host reopens
    rw [if_neg Bool.false_ne_true, opened, disk, at_file]
    refine ⟨same, fun isOpen => ?_⟩
    obtain ⟨before, file, stands⟩ := kept isOpen
    obtain ⟨name, opened⟩ := at_file.mp here before
    rw [file, stands]
    exact ⟨name, opened⟩

theorem reopenAt_handled (env : Environment) (same : handles.host = host)
    (here : (Appender.file appender).At (handles.opened a)) :
    (handles.openFile a appender.m_filename (appender.reopensAt env)).host =
        (appender.reopenAt env host).2 ∧
      (Appender.file (appender.reopenAt env host).1).At
        ((handles.openFile a appender.m_filename (appender.reopensAt env)).opened a) := by
  unfold reopensAt reopenAt
  by_cases due : env.now ≠ appender.m_lastTime + 3
  · rw [decide_eq_true due, Bool.true_and, if_pos due]
    obtain ⟨host, stands⟩ := reopen_handled env same here
    exact ⟨host, at_file.mpr (at_file.mp stands)⟩
  · rw [decide_eq_false due, Bool.false_and, if_neg due]
    exact ⟨same, here⟩

theorem write_handled (env : Environment) (text : String) (same : handles.host = host)
    (here : (Appender.file appender).At (handles.opened a)) :
    ∃ next, handles.write a appender.m_filename text (appender.writes env) = some next ∧
      next.host = (appender.write text env host).2 ∧
      (Appender.file (appender.write text env host).1).At (next.opened a) := by
  unfold Handles.write
  cases writes : appender.writes env with
  | true =>
    have isOpen : appender.m_filestream.isOpen = true := by
      unfold FileLogAppender.writes at writes
      simp_all
    obtain ⟨name, opened⟩ := at_file.mp here isOpen
    rw [if_pos rfl, opened, Option.bind_some, if_pos name.symm,
      write_of_writes appender env host text writes]
    refine ⟨_, rfl, ?_, at_file.mpr fun _ => ⟨name, ?_⟩⟩
    · rw [same, name]
    · rw [← name]
      exact Function.update_self a _ handles.opened
  | false =>
    rw [if_neg Bool.false_ne_true, write_of_not appender env host text writes]
    have before := at_file.mp here
    refine ⟨_, rfl, ?_, at_file.mpr before⟩
    rw [Handles.print, same]
    rfl

/-- What works goes on to work where no open and no write fails. -/
theorem reopen_works (host : Host) (opens : env.opens = true)
    (works : appender.m_filestream.isOpen = true → appender.m_filestream.failed = false) :
    appender.reopens env = true ∧ (Appender.file (appender.reopen env host).1).Works := by
  have reopens : appender.reopens env = true := by
    unfold reopens
    cases isOpen : appender.m_filestream.isOpen <;> simp_all
  refine ⟨reopens, ?_⟩
  rw [(reopen_of_reopens appender env host reopens).1, works_file]
  exact ⟨rfl, rfl⟩

theorem reopenAt_works (host : Host) (opens : env.opens = true)
    (works : (Appender.file appender).Works) :
    (Appender.file (appender.reopenAt env host).1).Works := by
  unfold reopenAt
  split
  · exact works_file.mpr (works_file.mp
      (reopen_works host opens fun _ => (works_file.mp works).2).2)
  · exact works

theorem write_works (text : String) (host : Host) (writes : env.writes = true)
    (works : (Appender.file appender).Works) : appender.writes env = true ∧
      (Appender.file (appender.write text env host).1).Works := by
  obtain ⟨isOpen, good⟩ := works_file.mp works
  have writes : appender.writes env = true := by
    unfold FileLogAppender.writes
    rw [writes, isOpen, good]
    rfl
  rw [write_of_writes appender env host text writes, works_file]
  exact ⟨writes, isOpen, good⟩

theorem reopenAt_filename : (appender.reopenAt env host).1.m_filename = appender.m_filename := by
  unfold reopenAt
  split <;> rfl

end FileLogAppender

/-- The handles are those of the appenders, on the same host. -/
structure LogSystem.Handled (s : LogSystem) (handles : Handles) : Prop where
  host : handles.host = s.host
  stands : ∀ a, (s.appenders a).At (handles.opened a)

def LogSystem.Working (s : LogSystem) : Prop := ∀ a, (s.appenders a).Works

/-- The second system comes from the first by steps that hand these outputs to the host. -/
structure LogSystem.Puts (s : LogSystem) (outputs : List Output) (t : LogSystem) : Prop where
  m_root : t.m_root = s.m_root
  answers : t.answers = s.answers
  effects : ∀ handles, s.Handled handles → ∃ effects : List Effect,
    effects.map Effect.output = outputs ∧
      (∃ next, Transition.run Effect.perform handles effects = some next ∧ t.Handled next) ∧
      (Reliable s.answers → s.Working → t.Working ∧ ∀ effect ∈ effects, effect.Succeeds)

namespace LogSystem

variable {s t u : LogSystem} {first second outputs : List Output}

/-- A step that leaves the host and the streams alone, or gives some of them up. -/
theorem puts_nothing (m_root : t.m_root = s.m_root) (answers : t.answers = s.answers)
    (host : t.host = s.host)
    (streams : ∀ a, (t.appenders a).stream = none ∨
      (t.appenders a).stream = (s.appenders a).stream ∧
        (t.appenders a).filename = (s.appenders a).filename) : s.Puts [] t := by
  refine ⟨m_root, answers, fun handles handled =>
    ⟨[], rfl, ⟨handles, rfl, ?_, fun a => ?_⟩, fun _ works => ?_⟩⟩
  · exact handled.host.trans host.symm
  · have before := handled.stands a
    unfold Appender.At at before ⊢
    rcases streams a with none | ⟨same, name⟩
    · exact fun stream found => nomatch none.symm.trans found
    · rwa [same, name]
  · refine ⟨fun a => ?_, nofun⟩
    have before := works a
    unfold Appender.Works at before ⊢
    rcases streams a with none | ⟨same, -⟩
    · exact fun stream found => nomatch none.symm.trans found
    · rwa [same]

/-- So does one that only changes loggers. -/
theorem puts_of_same (m_root : t.m_root = s.m_root) (answers : t.answers = s.answers)
    (host : t.host = s.host) (appenders : t.appenders = s.appenders) : s.Puts [] t :=
  puts_nothing m_root answers host fun a => .inr (by rw [appenders]; exact ⟨rfl, rfl⟩)

/-- So does one that changes an appender, but not its stream. -/
theorem puts_setAppender {a : AppenderPtr} {made : Appender} (m_root : t.m_root = s.m_root)
    (answers : t.answers = s.answers) (host : t.host = s.host)
    (appenders : t.appenders = (s.setAppender a made).appenders)
    (stream : made.stream = none ∨
      made.stream = (s.appenders a).stream ∧ made.filename = (s.appenders a).filename) :
    s.Puts [] t := by
  refine puts_nothing m_root answers host fun b => ?_
  rw [appenders]
  by_cases same : b = a
  · rw [same, setAppender_self]
    exact stream
  · rw [setAppender_other s made same]
    exact .inr ⟨rfl, rfl⟩

theorem Puts.refl (s : LogSystem) : s.Puts [] s := puts_of_same rfl rfl rfl rfl

theorem Puts.trans (before : s.Puts first t) (after : t.Puts second u) :
    s.Puts (first ++ second) u := by
  refine ⟨after.m_root.trans before.m_root, after.answers.trans before.answers,
    fun handles handled => ?_⟩
  obtain ⟨early, same, ⟨middle, ran, there⟩, works⟩ := before.effects handles handled
  obtain ⟨late, same', ⟨final, ran', ended⟩, works'⟩ := after.effects middle there
  refine ⟨early ++ late, by rw [List.map_append, same, same'], ⟨final, ?_, ended⟩,
    fun reliable working => ?_⟩
  · rw [Transition.run_append, ran]
    exact ran'
  · obtain ⟨working, succeed⟩ := works reliable working
    obtain ⟨working, succeed'⟩ := works' (before.answers ▸ reliable) working
    exact ⟨working, List.forall_mem_append.mpr ⟨succeed, succeed'⟩⟩

/-- A step at one handle. -/
theorem puts_effect {effect : Effect} {a : AppenderPtr} (handle : effect.handle = some a)
    (m_root : t.m_root = s.m_root) (answers : t.answers = s.answers)
    (others : ∀ b, b ≠ a → t.appenders b = s.appenders b)
    (here : ∀ handles : Handles, handles.host = s.host →
      (s.appenders a).At (handles.opened a) → ∃ next, effect.perform handles = some next ∧
        next.host = t.host ∧ (t.appenders a).At (next.opened a))
    (works : Reliable s.answers → (s.appenders a).Works →
      (t.appenders a).Works ∧ effect.Succeeds) : s.Puts [effect.output] t := by
  refine ⟨m_root, answers, fun handles handled => ?_⟩
  obtain ⟨next, performed, host, stands⟩ := here handles handled.host (handled.stands a)
  refine ⟨[effect], rfl, ⟨next, ?_, host, fun b => ?_⟩, fun reliable working => ?_⟩
  · rw [Transition.run_cons, performed]
    rfl
  · by_cases same : b = a
    · rw [same]
      exact stands
    · have apart : effect.handle ≠ some b := by
        rw [handle]
        exact fun other => same (Option.some.inj other).symm
      rw [others b same, Effect.perform_other performed apart]
      exact handled.stands b
  · obtain ⟨working', succeeds⟩ := works reliable (working a)
    refine ⟨fun b => ?_, List.forall_mem_singleton.mpr succeeds⟩
    by_cases same : b = a
    · rw [same]
      exact working'
    · rw [others b same]
      exact working b

theorem puts_printed (s : LogSystem) (text : String) :
    s.Puts [.printed text] { s with host := s.host.print text } :=
  ⟨rfl, rfl, fun _ handled => ⟨[.printed text], rfl,
    ⟨_, rfl, congrArg (Host.print · text) handled.host, handled.stands⟩, fun _ working =>
      ⟨working, List.forall_mem_singleton.mpr trivial⟩⟩⟩

variable {platform : Platform} {level : LogLevel} {event : LogEvent}

theorem write_eq {i : AppenderPtr} {made : Appender} (found : s.appenders i = made)
    (wrote : s.write platform level event i = .ok t) : ∃ formatter next host,
      made.base.m_formatter = some formatter ∧
        made.write platform level event (s.answers s.asked) s.host = some (next, host) ∧
        t = { (s.refuse i).setAppender i next with host := host } := by
  unfold LogSystem.write at wrote
  rw [found] at wrote
  cases result : made.write platform level event (s.answers s.asked) s.host with
  | none => simp [result] at wrote
  | some after =>
    obtain ⟨formatter, formatted, -⟩ := Option.map_eq_some_iff.mp result
    simp only [result, Except.ok.injEq] at wrote
    exact ⟨formatter, after.1, after.2, formatted, rfl, wrote.symm⟩

/-- An appender that takes an event hands its line to the host. -/
theorem write_puts {i : AppenderPtr} (passes : (s.appenders i).base.m_level ≤ level)
    (wrote : s.write platform level event i = .ok t) :
    s.Puts ((s.appenders i).output platform level event).toList t := by
  cases found : s.appenders i with
  | stdout appender =>
    obtain ⟨formatter, next, host, formatted, result, rfl⟩ := write_eq found wrote
    rw [found] at passes
    rw [Appender.output, if_pos passes, formatted]
    rw [Appender.write, formatted] at result
    cases result
    have refused :
        s.Puts [] { (s.refuse i).setAppender i (.stdout appender) with host := s.host } :=
      puts_setAppender rfl rfl rfl rfl (.inl rfl)
    exact refused.trans (puts_printed _ (formatter.format platform level event))
  | file appender =>
    obtain ⟨formatter, next, host, formatted, result, rfl⟩ := write_eq found wrote
    rw [found] at passes
    rw [Appender.output, if_pos passes, formatted]
    rw [Appender.write, formatted] at result
    cases result
    let env := s.answers s.asked
    let ready := appender.reopenAt env s.host
    let text := formatter.format platform level event
    have name : ready.1.m_filename = appender.m_filename := FileLogAppender.reopenAt_filename
    refine @puts_effect s _ (.written i appender.m_filename text (appender.reopensAt env)
      (ready.1.writes env)) i rfl rfl rfl (fun b apart => setAppender_other (s.refuse i) _ apart)
      (fun handles host stands => ?_) fun reliable works => ?_
    · rw [found] at stands
      obtain ⟨opened, stands⟩ := FileLogAppender.reopenAt_handled env host stands
      obtain ⟨next, wrote, host, stands⟩ := FileLogAppender.write_handled env text opened stands
      rw [name] at wrote
      have self := setAppender_self (s.refuse i) i (.file (ready.1.write text env ready.2).1)
      exact ⟨next, wrote, host, self.symm ▸ stands⟩
    · rw [found] at works
      have good := FileLogAppender.write_works text ready.2 (reliable s.asked).2
        (FileLogAppender.reopenAt_works s.host (reliable s.asked).1 works)
      have self := setAppender_self (s.refuse i) i (.file (ready.1.write text env ready.2).1)
      exact ⟨self.symm ▸ good.2, good.1⟩

theorem callAppender_puts {i : AppenderPtr}
    (called : callAppender platform level event s i = .ok t) :
    s.Puts ((s.appenders i).output platform level event).toList t := by
  rw [callAppender_eq] at called
  split_ifs at called with passes
  · exact write_puts passes called
  · cases called
    rw [Appender.output, if_neg passes]
    exact puts_of_same rfl rfl rfl rfl

/-- The loop over the appenders of a logger. -/
theorem appenders_put (items : List AppenderPtr) :
    ∀ {s : LogSystem}, items.foldlM (callAppender platform level event) s = .ok t →
      s.Puts (items.filterMap fun a => (s.appenders a).output platform level event) t := by
  induction items with
  | nil =>
    intro s ran
    cases ran
    exact .refl t
  | cons i rest ih =>
    intro s ran
    obtain ⟨next, called, ran⟩ := Fallible.foldlM_cons_ok.mp ran
    have later := ih ran
    have same : ∀ a, (next.appenders a).output platform level event =
        (s.appenders a).output platform level event := by
      intro a
      obtain ⟨base, name⟩ := (callAppender_logged called).appender a
      unfold Appender.output
      rw [base, name]
    simp only [same] at later
    have both := (callAppender_puts called).trans later
    rw [List.filterMap_cons]
    cases handed : (s.appenders i).output platform level event with
    | none => simpa only [handed, Option.toList_none, List.nil_append] using both
    | some output => simpa only [handed, Option.toList_some, List.singleton_append] using both

end LogSystem

end Chord
