import ChordServer.LoggingInvariant

set_option autoImplicit false

namespace Chord

/-- What `log` does once the event has passed the level of the appender. -/
def Appender.write (platform : Platform) (appender : Appender) (level : LogLevel)
    (event : LogEvent) (env : Environment) (host : Host) : Option (Appender × Host) :=
  appender.base.m_formatter.map fun formatter =>
    let text := formatter.format platform level event
    match appender with
    | .file appender =>
        let ready := appender.reopenAt env host
        let written := ready.1.write text env ready.2
        (.file written.1, written.2)
    | .stdout appender => (.stdout appender, host.print text)

theorem Appender.log_eq (platform : Platform) (appender : Appender) (level : LogLevel)
    (event : LogEvent) (env : Environment) (host : Host) :
    appender.log platform level event env host =
      if appender.base.m_level ≤ level then appender.write platform level event env host
      else some (appender, host) := by
  cases appender with
  | file appender =>
    have same : (appender.reopenAt env host).1.m_formatter = appender.m_formatter := by
      unfold FileLogAppender.reopenAt
      split <;> rfl
    by_cases passes : appender.m_level ≤ level
    · have taken : (Appender.file appender).base.m_level ≤ level := passes
      rw [if_pos taken, Appender.log, FileLogAppender.log, if_pos passes]
      dsimp only
      rw [same, Option.map_map]
      rfl
    · have refused : ¬ (Appender.file appender).base.m_level ≤ level := passes
      rw [if_neg refused, Appender.log, FileLogAppender.log, if_neg passes]
      rfl
  | stdout appender =>
    by_cases passes : appender.m_level ≤ level
    · have taken : (Appender.stdout appender).base.m_level ≤ level := passes
      rw [if_pos taken, Appender.log, StdOutLogAppender.log, if_pos passes, Option.map_map]
      rfl
    · have refused : ¬ (Appender.stdout appender).base.m_level ≤ level := passes
      rw [if_neg refused, Appender.log, StdOutLogAppender.log, if_neg passes]
      rfl

namespace LogSystem

/-- The appender has been handed an event that is below its level. -/
def refuse (s : LogSystem) (i : AppenderPtr) : LogSystem :=
  { s with asked := s.asked + 1, delivered := s.delivered ++ [i] }

/-- The appender formats the event and writes the text. -/
def write (platform : Platform) (level : LogLevel) (event : LogEvent) (s : LogSystem)
    (i : AppenderPtr) : Except Fault LogSystem :=
  match (s.appenders i).write platform level event (s.answers s.asked) s.host with
  | none => .error .nullFormatter
  | some (appender, host) => .ok { (s.refuse i).setAppender i appender with host := host }

theorem callAppender_eq (platform : Platform) (level : LogLevel) (event : LogEvent)
    (s : LogSystem) (i : AppenderPtr) :
    callAppender platform level event s i =
      if (s.appenders i).base.m_level ≤ level then s.write platform level event i
      else .ok (s.refuse i) := by
  have same : s.setAppender i (s.appenders i) = s := by
    rw [setAppender, Function.update_eq_self]
  rw [callAppender, Appender.log_eq]
  split_ifs with passes
  · rfl
  · dsimp only
    rw [same]
    rfl

/-- The second system is the first after the listed appenders have written the event, in
this order, and no other has. -/
inductive Writes (platform : Platform) (level : LogLevel) (event : LogEvent) :
    LogSystem → List AppenderPtr → LogSystem → Prop
  | none (s : LogSystem) : Writes platform level event s [] s
  | refused {s t : LogSystem} {i : AppenderPtr} {writers : List AppenderPtr}
      (above : ¬ (s.appenders i).base.m_level ≤ level)
      (later : Writes platform level event (s.refuse i) writers t) :
      Writes platform level event s writers t
  | written {s t u : LogSystem} {i : AppenderPtr} {writers : List AppenderPtr}
      (passes : (s.appenders i).base.m_level ≤ level)
      (wrote : s.write platform level event i = .ok t)
      (later : Writes platform level event t writers u) :
      Writes platform level event s (i :: writers) u

/-- The appenders that have been handed an event between the two states and were set to
take it. -/
def written (level : LogLevel) (s t : LogSystem) : List AppenderPtr :=
  (t.delivered.drop s.delivered.length).filter fun a => (s.appenders a).base.m_level ≤ level

/-- The logger whose appenders an event at `this` goes to. -/
def sender (s : LogSystem) (this : LoggerPtr) (level : LogLevel) : Option LoggerPtr :=
  if (s.loggers this).m_level ≤ level then
    if (s.loggers this).m_appenders ≠ [] then some this
    else if this ≠ s.m_root ∧ (s.loggers s.m_root).m_level ≤ level then some s.m_root
    else none
  else none

variable {s t : LogSystem} {platform : Platform} {level : LogLevel} {event : LogEvent}

theorem callAppender_delivered {i : AppenderPtr}
    (called : callAppender platform level event s i = .ok t) :
    t.delivered = s.delivered ++ [i] := by
  unfold callAppender at called
  split at called
  · cases called
  · cases called
    rfl

theorem written_of_delivered {items : List AppenderPtr}
    (handed : t.delivered = s.delivered ++ items) :
    s.written level t = items.filter fun a => (s.appenders a).base.m_level ≤ level := by
  rw [written, handed, List.drop_left]

/-- The loop over the appenders hands the event to each in turn. -/
theorem foldlM_writes (items : List AppenderPtr) :
    ∀ {s : LogSystem}, items.foldlM (callAppender platform level event) s = .ok t →
      t.delivered = s.delivered ++ items ∧
        Writes platform level event s
          (items.filter fun a => (s.appenders a).base.m_level ≤ level) t := by
  induction items with
  | nil =>
    intro s ran
    cases ran
    exact ⟨(List.append_nil _).symm, .none t⟩
  | cons i rest ih =>
    intro s ran
    obtain ⟨next, called, ran⟩ := Fallible.foldlM_cons_ok.mp ran
    obtain ⟨handed, later⟩ := ih ran
    have kept : (rest.filter fun a => (next.appenders a).base.m_level ≤ level) =
        rest.filter fun a => (s.appenders a).base.m_level ≤ level :=
      List.filter_congr fun a _ => by rw [((callAppender_logged called).appender a).1]
    rw [kept] at later
    refine ⟨?_, ?_⟩
    · rw [handed, callAppender_delivered called, List.append_assoc, List.singleton_append]
    · rw [callAppender_eq] at called
      split_ifs at called with passes
      · rw [List.filter_cons_of_pos (by simpa using passes)]
        exact .written passes called later
      · cases called
        rw [List.filter_cons_of_neg (by simpa using passes)]
        exact .refused passes later

end LogSystem

namespace Logger

open LogSystem

variable {s : LogSystem} {platform : Platform} {level : LogLevel} {event : LogEvent}

/-- A call at the root makes no nested call, and one at another logger makes at most one. -/
theorem logUnlocked_sender (wf : s.WellFormed) {this : LoggerPtr}
    (inside : this < s.loggerCount) {unlocked : Nat} (enough : 1 ≤ unlocked)
    (nested : this ≠ s.m_root → 2 ≤ unlocked) :
    logUnlocked platform level event unlocked s this =
      match s.sender this level with
      | some p => (s.loggers p).m_appenders.foldlM (callAppender platform level event) s
      | none => .ok s := by
  obtain ⟨rest, rfl⟩ := Nat.exists_eq_add_of_le' enough
  rw [logUnlocked, sender]
  split_ifs with passes empty falls
  · rfl
  · obtain ⟨apart, rootPasses⟩ := falls
    have two := nested apart
    obtain ⟨last, rfl⟩ : ∃ last, rest = last + 1 := ⟨rest - 1, by omega⟩
    rw [wf.child this inside apart]
    dsimp only
    rw [logUnlocked, if_pos rootPasses]
    split_ifs with none
    · rfl
    · rw [wf.root.2, not_ne_iff.mp none]
      rfl
  · by_cases root : this = s.m_root
    · rw [root, wf.root.2]
    · have two := nested root
      obtain ⟨last, rfl⟩ : ∃ last, rest = last + 1 := ⟨rest - 1, by omega⟩
      rw [wf.child this inside root]
      dsimp only
      rw [logUnlocked, if_neg fun rootPasses => falls ⟨root, rootPasses⟩]
  · rfl

theorem log_sender (wf : s.WellFormed) {this : LoggerPtr} (inside : this < s.loggerCount) :
    log s this platform level event =
      match s.sender this level with
      | some p => (s.loggers p).m_appenders.foldlM (callAppender platform level event) s
      | none => .ok s := by
  exact logUnlocked_sender wf inside (Nat.one_le_of_lt inside) (two_loggers wf inside)

end Logger

namespace Logging

/-- The actions other than a change of the configuration, with no formatter taken away. -/
def Action.Direct (action : Action) : Prop :=
  action.Proper ∧ ∀ val, action ≠ .setValue val

/-- What an action makes of the attachments in force at the logger `p`: `delAppender`
undoes the earliest one of its appender. -/
def attach (p : LoggerPtr) (list : List AppenderPtr) : Action → List AppenderPtr
  | .addAppender logger appender => if logger = p then list ++ [appender] else list
  | .delAppender logger appender => if logger = p then list.erase appender else list
  | .clearAppenders logger => if logger = p then [] else list
  | _ => list

/-- The attachments in force after the actions; the root is at address 0, as is the
appender that it is made with. -/
def attachments (actions : List Action) (p : LoggerPtr) : List AppenderPtr :=
  actions.foldl (attach p) (if p = 0 then [0] else [])

/-- What an action makes of the counter of the appender `a` at the logger `p`. -/
def tally (p : LoggerPtr) (a : AppenderPtr) (count : Nat) : Action → Nat
  | .addAppender logger appender => if logger = p ∧ appender = a then count + 1 else count
  | .delAppender logger appender => if logger = p ∧ appender = a then count - 1 else count
  | .clearAppenders logger => if logger = p then 0 else count
  | _ => count

def counter (actions : List Action) (p : LoggerPtr) (a : AppenderPtr) : Nat :=
  actions.foldl (tally p a) (if p = 0 ∧ a = 0 then 1 else 0)

theorem count_attach (p : LoggerPtr) (a : AppenderPtr) (list : List AppenderPtr)
    (action : Action) : (attach p list action).count a = tally p a (list.count a) action := by
  cases action with
  | addAppender logger appender =>
    unfold attach tally
    by_cases here : logger = p
    · simp [here, List.count_cons, List.count_append]
      split <;> rfl
    · simp [here]
  | delAppender logger appender =>
    unfold attach tally
    by_cases here : logger = p
    · simp [here, List.count_erase]
      split <;> rfl
    · simp [here]
  | clearAppenders logger =>
    simp only [attach, tally]
    split <;> rfl
  | _ => rfl

/-- The counter of an appender counts its attachments in force. -/
theorem count_attachments (actions : List Action) (p : LoggerPtr) (a : AppenderPtr) :
    (attachments actions p).count a = counter actions p a := by
  have fold : ∀ (list : List AppenderPtr), (actions.foldl (attach p) list).count a =
      actions.foldl (tally p a) (list.count a) := by
    induction actions with
    | nil => exact fun list => rfl
    | cons action rest ih =>
      intro list
      rw [List.foldl_cons, List.foldl_cons, ih, count_attach]
  rw [attachments, counter, fold]
  by_cases root : p = 0
  · by_cases first : a = 0
    · simp [root, first]
    · simp [root, first, Ne.symm first]
  · simp [root]

open LogSystem

/-- The attachments that a logger has, if it is there. -/
def attached (s : LogSystem) (p : LoggerPtr) : List AppenderPtr :=
  if p < s.loggerCount then (s.loggers p).m_appenders else []

variable {platform : Platform} {s t : LogSystem} {action : Action}

/-- A change of other members of the loggers. -/
theorem attached_congr (count : t.loggerCount = s.loggerCount)
    (same : ∀ p, (t.loggers p).m_appenders = (s.loggers p).m_appenders) :
    attached t = attached s := by
  funext p
  rw [attached, attached, count, same]

theorem attached_of_sameLoggers (same : s.SameLoggers t) : attached t = attached s :=
  attached_congr same.loggerCount fun p => by rw [same.loggers]

theorem attached_of_reformatted {logger : LoggerPtr} {val : Option LogFormatter}
    (reformatted : s.Reformatted t logger val) : attached t = attached s := by
  refine attached_congr reformatted.loggerCount fun p => ?_
  by_cases here : p = logger
  · rw [here, reformatted.self]
  · rw [reformatted.other p here]

theorem attached_setLogger {logger : LoggerPtr} (inside : logger < s.loggerCount)
    (changed : Logger) (p : LoggerPtr) :
    attached (s.setLogger logger changed) p =
      if logger = p then changed.m_appenders else attached s p := by
  have count : (s.setLogger logger changed).loggerCount = s.loggerCount := rfl
  rw [attached, attached, count]
  split_ifs with there here here
  · rw [← here, setLogger_self]
  · rw [setLogger_other s _ (Ne.symm here)]
  · exact absurd (here ▸ inside) there
  · rfl

/-- A direct action changes the attachments as it should, and not the root. -/
theorem act_attached (wf : s.WellFormed) (direct : action.Direct) (valid : action.Valid s)
    (acted : act platform s action = .ok t) :
    t.m_root = s.m_root ∧ ∀ p, attached t p = attach p (attached s p) action := by
  cases action with
  | getLogger name =>
    cases acted
    have got := LoggerManager.getLogger_got wf name
    have root : (LoggerManager.getLogger s name).1.m_root = s.m_root := by
      unfold LoggerManager.getLogger
      split <;> rfl
    refine ⟨root, fun p => ?_⟩
    show attached _ p = attached s p
    unfold attached
    by_cases before : p < s.loggerCount
    · rw [if_pos before, if_pos (before.trans_le got.grown), got.loggers p before]
    · rw [if_neg before]
      split_ifs with inside
      · rw [got.fresh p inside (Nat.not_lt.mp before)]
      · rfl
  | setLevel logger val =>
    cases acted
    refine ⟨rfl, fun p => (attached_setLogger valid _ p).trans ?_⟩
    split_ifs with here
    · have inside : logger < s.loggerCount := valid
      simp only [attach, attached, ← here, if_pos inside]
    · rfl
  | setFormatter logger val =>
    cases acted
    have reformatted := Logger.setFormatter_reformatted s logger val
    exact ⟨reformatted.m_root, fun p => congrFun (attached_of_reformatted reformatted) p⟩
  | setFormatterString logger val =>
    cases acted
    obtain ⟨formatter, reformatted, -⟩ := Logger.setFormatterString_reformatted s logger val
    exact ⟨reformatted.m_root, fun p => congrFun (attached_of_reformatted reformatted) p⟩
  | addAppender logger appender =>
    cases acted
    obtain ⟨changed, -⟩ := Logger.addAppender_changed s logger wf.held valid.1 valid.2
    refine ⟨changed.m_root, fun p => ?_⟩
    rw [attach, attached, attached, changed.loggerCount, Logger.addAppender_loggers]
    by_cases here : p = logger
    · subst here
      rw [if_pos valid.1, if_pos rfl, if_pos rfl, if_pos valid.1]
    · rw [if_neg here, if_neg (Ne.symm here)]
  | delAppender logger appender =>
    cases acted
    refine ⟨rfl, fun p => (attached_setLogger valid _ p).trans ?_⟩
    rw [attach]
    split_ifs with here
    · have inside : logger < s.loggerCount := valid
      rw [attached, ← here, if_pos inside]
    · rfl
  | clearAppenders logger =>
    cases acted
    exact ⟨rfl, fun p => attached_setLogger valid _ p⟩
  | newFileLogAppender filename => cases acted; exact ⟨rfl, fun _ => rfl⟩
  | newStdOutLogAppender => cases acted; exact ⟨rfl, fun _ => rfl⟩
  | setAppenderFormatter appender val => cases acted; exact ⟨rfl, fun _ => rfl⟩
  | setAppenderLevel appender level => cases acted; exact ⟨rfl, fun _ => rfl⟩
  | log logger level event =>
    have logged := Logger.log_logged acted
    exact ⟨logged.loggers.m_root, fun p => congrFun (attached_of_sameLoggers logged.loggers) p⟩
  | setValue val => exact absurd rfl (direct.2 val)

variable {host : Host} {answers : Nat → Environment}

/-- What a run leaves of the registry, and the attachments that the history of the run
says. -/
structure Attaches (past : List Action) (state : Logging) : Prop where
  wellFormed : state.log.WellFormed
  formatted : state.log.Formatted
  root : state.log.m_root = 0
  attached : ∀ p, attached state.log p = attachments past p

theorem start_attaches (host : Host) (answers : Nat → Environment) :
    Attaches [] (start host answers) := by
  refine ⟨LoggerManager.new_wellFormed host answers, LoggerManager.new_formatted host answers,
    rfl, fun p => ?_⟩
  by_cases root : p = 0
  · rw [root]
    rfl
  · have outside : ¬ p < (start host answers).log.loggerCount :=
      fun inside => root (LoggerManager.new_loggers host answers p inside).1
    rw [Logging.attached, if_neg outside, attachments, List.foldl_nil, if_neg root]

theorem Attaches.step {past : List Action} {state next : Logging} (held : Attaches past state)
    (direct : action.Direct) (stepped : step platform state action = some next) :
    Attaches (past ++ [action]) next := by
  obtain ⟨kept, formats⟩ := step_keeps platform held.wellFormed stepped
  obtain ⟨valid, acted, -⟩ := step_act platform direct.2 stepped
  obtain ⟨root, lists⟩ := act_attached held.wellFormed direct valid acted
  refine ⟨kept, formats direct.1 held.formatted, root.trans held.root, fun p => ?_⟩
  rw [lists, held.attached, attachments, attachments, List.foldl_concat]

theorem run_attaches {actions : List Action} {state : Logging}
    (direct : ∀ action ∈ actions, action.Direct)
    (ran : Transition.run (Logging.step platform) (start host answers) actions = some state) :
    Attaches actions state :=
  Transition.run_history (fun _ _ _ _ held direct stepped => held.step direct stepped) direct
    (start_attaches host answers) ran

/-- The event has been written by the appenders attached to its sender, once for each
attachment in force, in the order of the attachments, and by no other appender. -/
structure Delivered (platform : Platform) (actions : List Action) (level : LogLevel)
    (event : LogEvent) (s : LogSystem) (logger : LoggerPtr) (t : LogSystem) : Prop where
  writes : s.Writes platform level event (s.written level t) t
  order : s.written level t =
    match s.sender logger level with
    | some p => (attachments actions p).filter fun a => (s.appenders a).base.m_level ≤ level
    | none => []
  count : ∀ a, (s.written level t).count a =
    match s.sender logger level with
    | some p => if (s.appenders a).base.m_level ≤ level then counter actions p a else 0
    | none => 0

theorem sender_inside (wf : s.WellFormed) {logger p : LoggerPtr} {level : LogLevel}
    (inside : logger < s.loggerCount) (found : s.sender logger level = some p) :
    p < s.loggerCount := by
  unfold sender at found
  split_ifs at found
  · cases found
    exact inside
  · cases found
    exact wf.root.1

theorem Attaches.delivered {actions : List Action} {state : Logging}
    (held : Attaches actions state) {logger : LoggerPtr} (inside : logger < state.log.loggerCount)
    {level : LogLevel} {event : LogEvent} {t : LogSystem}
    (logged : Logger.log state.log logger platform level event = .ok t) :
    Delivered platform actions level event state.log logger t := by
  obtain ⟨wf, -, -, lists⟩ := held
  rw [Logger.log_sender wf inside] at logged
  cases found : state.log.sender logger level with
  | none =>
    rw [found] at logged
    cases logged
    have nothing : state.log.written level state.log = [] :=
      written_of_delivered (List.append_nil _).symm
    refine ⟨?_, ?_, fun a => ?_⟩
    · rw [nothing]
      exact .none _
    · rw [nothing, found]
    · rw [nothing, found]
      rfl
  | some p =>
    rw [found] at logged
    obtain ⟨handed, writes⟩ := foldlM_writes _ logged
    have wrote := @written_of_delivered _ t level _ handed
    have inForce : (state.log.loggers p).m_appenders = attachments actions p := by
      have listed := lists p
      rwa [Logging.attached, if_pos (sender_inside wf inside found)] at listed
    refine ⟨?_, ?_, fun a => ?_⟩
    · rw [wrote]
      exact writes
    · rw [wrote, found, inForce]
    · rw [wrote, found, inForce]
      dsimp only
      rw [← count_attachments]
      split_ifs with passes
      · exact List.count_filter (by simpa using passes)
      · rw [List.count_eq_zero]
        intro member
        exact passes (by simpa using List.of_mem_filter member)

/-- An event at any logger of the manager, after any run, comes to its appenders as often
as they are attached, and with one nested call at most. -/
theorem log_delivered {actions : List Action} {state : Logging}
    (direct : ∀ action ∈ actions, action.Direct)
    (ran : Transition.run (Logging.step platform) (start host answers) actions = some state)
    {logger : LoggerPtr} (inside : logger < state.log.loggerCount) (level : LogLevel)
    (event : LogEvent) :
    ∃ t, Logger.log state.log logger platform level event = .ok t ∧
      Delivered platform actions level event state.log logger t ∧
      Logger.logUnlocked platform level event 2 state.log logger = .ok t ∧
      state.log.m_root = 0 ∧ (state.log.loggers 0).m_root = none ∧
      ∀ p < state.log.loggerCount, p ≠ 0 → (state.log.loggers p).m_root = some 0 := by
  have held := run_attaches direct ran
  have wf := held.wellFormed
  obtain ⟨t, logged⟩ : ∃ t, Logger.log state.log logger platform level event = .ok t :=
    Logger.log_returns wf held.formatted inside
  refine ⟨t, logged, held.delivered inside logged, ?_, held.root, held.root ▸ wf.root.2,
    held.root ▸ wf.child⟩
  rw [Logger.logUnlocked_sender wf inside (Nat.le_succ 1) fun _ => Nat.le_refl 2,
    ← Logger.log_sender wf inside]
  exact logged

/-- An appender that is attached twice and detached once writes an event once. -/
theorem log_delivered_once : ∃ (state : Logging) (t : LogSystem) (event : LogEvent),
    Transition.run (Logging.step default) (start default default)
        [.getLogger "a", .addAppender 1 0, .addAppender 1 0, .delAppender 1 0] = some state ∧
      Logger.log state.log 1 default .ERROR event = .ok t ∧
      (state.log.written .ERROR t).count 0 = 1 := by
  have ends : (Transition.run (Logging.step default) (start default default)
      [.getLogger "a", .addAppender 1 0, .addAppender 1 0, .delAppender 1 0]).map
        (fun state => (state.log.loggerCount, state.log.sender 1 .ERROR,
          (state.log.appenders 0).base.m_level)) = some (2, some 1, .DEBUG) := by decide
  obtain ⟨state, ran, same⟩ := Option.map_eq_some_iff.mp ends
  simp only [Prod.mk.injEq] at same
  obtain ⟨count, sender, level⟩ := same
  let event : LogEvent :=
    { m_file := "", m_line := 1, m_elapsed := 0, m_threadId := 0, m_fiberId := 0, m_time := 0,
      m_ss := "text", m_logger := "a", m_level := .ERROR }
  have inside : 1 < state.log.loggerCount := by
    rw [count]
    exact Nat.one_lt_two
  obtain ⟨t, logged, delivered, -⟩ :=
    log_delivered (by simp [Action.Direct, Action.Proper]) ran inside .ERROR event
  refine ⟨state, t, event, ran, logged, ?_⟩
  rw [delivered.count, sender]
  dsimp only
  rw [level]
  decide

end Logging

end Chord
