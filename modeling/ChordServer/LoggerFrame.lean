import ChordServer.Fallible
import ChordServer.LoggerInvariant

set_option autoImplicit false

namespace Chord

/-- Logging an event opens and closes the stream of an appender, and changes neither its
members in the base class nor its file name. -/
theorem FileLogAppender.log_keeps {platform : Platform} {appender next : FileLogAppender}
    {level : LogLevel} {event : LogEvent} {env : Environment} {host after : Host}
    (logged : appender.log platform level event env host = some (next, after)) :
    next.toLogAppender = appender.toLogAppender ∧ next.m_filename = appender.m_filename := by
  have reopened : (appender.reopenAt env host).1.toLogAppender = appender.toLogAppender ∧
      (appender.reopenAt env host).1.m_filename = appender.m_filename := by
    unfold reopenAt
    split <;> exact ⟨rfl, rfl⟩
  unfold FileLogAppender.log at logged
  split at logged
  · obtain ⟨formatter, -, written⟩ := Option.map_eq_some_iff.mp logged
    obtain rfl : _ = next := congrArg Prod.fst written
    exact reopened
  · cases logged
    exact ⟨rfl, rfl⟩

theorem Appender.log_keeps {platform : Platform} {appender next : Appender} {level : LogLevel}
    {event : LogEvent} {env : Environment} {host after : Host}
    (logged : appender.log platform level event env host = some (next, after)) :
    next.base = appender.base ∧ next.filename = appender.filename := by
  cases appender with
  | file appender =>
    obtain ⟨result, kept, same⟩ := Option.map_eq_some_iff.mp logged
    obtain rfl : _ = next := congrArg Prod.fst same
    obtain ⟨base, name⟩ := FileLogAppender.log_keeps kept
    exact ⟨base, congrArg some name⟩
  | stdout appender =>
    obtain ⟨result, -, same⟩ := Option.map_eq_some_iff.mp logged
    obtain rfl : _ = next := congrArg Prod.fst same
    exact ⟨rfl, rfl⟩

/-- An appender with a formatter takes every event. -/
theorem Appender.log_returns (platform : Platform) {appender : Appender}
    (formatted : appender.base.m_formatter.isSome) (level : LogLevel) (event : LogEvent)
    (env : Environment) (host : Host) :
    ∃ next after, appender.log platform level event env host = some (next, after) := by
  cases appender with
  | file appender =>
    have same : (appender.reopenAt env host).1.m_formatter = appender.m_formatter := by
      unfold FileLogAppender.reopenAt
      split <;> rfl
    obtain ⟨formatter, found⟩ := Option.isSome_iff_exists.mp formatted
    have found : appender.m_formatter = some formatter := found
    simp only [Appender.log, FileLogAppender.log, same, found, Option.map_some]
    split
    · exact ⟨_, _, rfl⟩
    · exact ⟨_, _, rfl⟩
  | stdout appender =>
    obtain ⟨formatter, found⟩ := Option.isSome_iff_exists.mp formatted
    have found : appender.m_formatter = some formatter := found
    simp only [Appender.log, StdOutLogAppender.log, found, Option.map_some]
    split
    · exact ⟨_, _, rfl⟩
    · exact ⟨_, _, rfl⟩

namespace LogSystem

/-- The second system is the first after some events: the loggers and what the appenders
are set to are the same. -/
structure Logged (s t : LogSystem) : Prop where
  loggers : s.SameLoggers t
  appenderCount : t.appenderCount = s.appenderCount
  appender : ∀ a, (t.appenders a).base = (s.appenders a).base ∧
    (t.appenders a).filename = (s.appenders a).filename

variable {s t u : LogSystem} {platform : Platform} {level : LogLevel} {event : LogEvent}

theorem Logged.refl (s : LogSystem) : s.Logged s := ⟨.refl s, rfl, fun _ => ⟨rfl, rfl⟩⟩

theorem Logged.trans (first : s.Logged t) (second : t.Logged u) : s.Logged u :=
  ⟨first.loggers.trans second.loggers, second.appenderCount.trans first.appenderCount,
    fun a => ⟨(second.appender a).1.trans (first.appender a).1,
      (second.appender a).2.trans (first.appender a).2⟩⟩

theorem Logged.formatted (logged : s.Logged t) (formatted : s.Formatted) : t.Formatted := by
  constructor
  · rw [logged.loggers.loggers, logged.loggers.loggerCount]
    exact formatted.logger
  · rw [logged.loggers.loggers, logged.loggers.loggerCount]
    intro p inside a held
    rw [(logged.appender a).1]
    exact formatted.appender p inside a held

theorem callAppender_logged {a : AppenderPtr}
    (called : callAppender platform level event s a = .ok t) : s.Logged t := by
  unfold callAppender at called
  split at called
  · cases called
  · rename_i next after logged
    cases called
    obtain ⟨base, name⟩ := Appender.log_keeps logged
    refine ⟨⟨rfl, rfl, rfl, rfl, Nat.le_refl _⟩, rfl, fun b => ?_⟩
    dsimp only
    by_cases same : b = a
    · subst same
      rw [setAppender_self]
      exact ⟨base, name⟩
    · rw [setAppender_other s next same]
      exact ⟨rfl, rfl⟩

theorem callAppender_returns (platform : Platform) (level : LogLevel) (event : LogEvent)
    {a : AppenderPtr} (formatted : (s.appenders a).base.m_formatter.isSome) :
    ∃ t, callAppender platform level event s a = .ok t := by
  obtain ⟨next, after, logged⟩ := Appender.log_returns platform formatted level event
    (s.answers s.asked) s.host
  exact ⟨_, by rw [callAppender, logged]⟩

end LogSystem

namespace Logger

open LogSystem

variable {s t : LogSystem} {platform : Platform} {level : LogLevel} {event : LogEvent}

theorem logUnlocked_logged (unlocked : Nat) :
    ∀ {s : LogSystem} {this : LoggerPtr},
      logUnlocked platform level event unlocked s this = .ok t → s.Logged t := by
  induction unlocked with
  | zero => exact fun blocked => nomatch blocked
  | succ unlocked ih =>
    intro s this ran
    rw [logUnlocked] at ran
    split at ran
    · split at ran
      · have kept : ∀ a ∈ (s.loggers this).m_appenders, ∀ before after, s.Logged before →
            callAppender platform level event before a = .ok after → s.Logged after :=
          fun a _ before after logged called => logged.trans (callAppender_logged called)
        exact Fallible.foldlM_invariant kept (.refl s) ran
      · split at ran
        · exact ih ran
        · cases ran
          exact .refl t
    · cases ran
      exact .refl t

theorem log_logged {this : LoggerPtr} (ran : log s this platform level event = .ok t) :
    s.Logged t := logUnlocked_logged s.loggerCount ran

/-- A logger whose level is above an event's drops it. -/
theorem log_silent {this : LoggerPtr} (inside : this < s.loggerCount)
    (above : ¬ (s.loggers this).m_level ≤ level) :
    log s this platform level event = .ok s := by
  obtain ⟨count, shape⟩ := Nat.exists_eq_succ_of_ne_zero (Nat.ne_zero_of_lt inside)
  rw [log, shape, logUnlocked, if_neg above]

/-- The appenders of one logger take an event. -/
theorem appenders_return (formatted : s.Formatted) {this : LoggerPtr}
    (inside : this < s.loggerCount) :
    ∃ t, (s.loggers this).m_appenders.foldlM (callAppender platform level event) s = .ok t := by
  have returns : ∀ a ∈ (s.loggers this).m_appenders, ∀ before, s.Logged before →
      ∃ after, callAppender platform level event before a = .ok after ∧ s.Logged after := by
    intro a held before logged
    have ready : (before.appenders a).base.m_formatter.isSome := by
      rw [(logged.appender a).1]
      exact formatted.appender this inside a held
    obtain ⟨after, called⟩ := callAppender_returns platform level event ready
    exact ⟨after, called, logged.trans (callAppender_logged called)⟩
  obtain ⟨t, ran, -⟩ := Fallible.foldlM_returns returns (.refl s)
  exact ⟨t, ran⟩

theorem logUnlocked_root (wf : s.WellFormed) (formatted : s.Formatted) (unlocked : Nat) :
    ∃ t, logUnlocked platform level event (unlocked + 1) s s.m_root = .ok t := by
  rw [logUnlocked, wf.root.2]
  split
  · split
    · exact appenders_return formatted wf.root.1
    · exact ⟨s, rfl⟩
  · exact ⟨s, rfl⟩

theorem two_loggers (wf : s.WellFormed) {this : LoggerPtr} (inside : this < s.loggerCount)
    (apart : this ≠ s.m_root) : 2 ≤ s.loggerCount := by
  rcases Nat.lt_or_gt_of_ne apart with less | less
  · exact lt_of_le_of_lt (Nat.zero_lt_of_lt less) wf.root.1
  · exact lt_of_le_of_lt (Nat.zero_lt_of_lt less) inside

/-- An event at any logger comes to an end: the fallback goes to the root and no further. -/
theorem log_returns (wf : s.WellFormed) (formatted : s.Formatted) {this : LoggerPtr}
    (inside : this < s.loggerCount) : ∃ t, log s this platform level event = .ok t := by
  by_cases root : this = s.m_root
  · obtain ⟨count, shape⟩ := Nat.exists_eq_succ_of_ne_zero (Nat.ne_zero_of_lt inside)
    rw [log, shape, root]
    exact logUnlocked_root wf formatted count
  · have two := two_loggers wf inside root
    obtain ⟨count, shape⟩ : ∃ count, s.loggerCount = count + 1 + 1 :=
      ⟨s.loggerCount - 2, (Nat.sub_add_cancel two).symm⟩
    rw [log, shape, logUnlocked, wf.child this inside root]
    split
    · split
      · exact appenders_return formatted inside
      · exact logUnlocked_root wf formatted count
    · exact ⟨s, rfl⟩

end Logger

/-- The logger at `p` has got a formatter, and the appenders it holds may have too. -/
structure LogSystem.Reformatted (s t : LogSystem) (p : LoggerPtr) (val : Option LogFormatter) :
    Prop where
  m_logger : t.m_logger = s.m_logger
  m_root : t.m_root = s.m_root
  loggerCount : t.loggerCount = s.loggerCount
  appenderCount : t.appenderCount = s.appenderCount
  other : ∀ q, q ≠ p → t.loggers q = s.loggers q
  self : t.loggers p = { s.loggers p with m_formatter := val }
  old : ∀ b, b ∉ (s.loggers p).m_appenders → t.appenders b = s.appenders b
  formatted : val.isSome → ∀ b, (s.appenders b).base.m_formatter.isSome →
    (t.appenders b).base.m_formatter.isSome

namespace Logger

open LogSystem

theorem followFormatter_loop (val : Option LogFormatter) (list : List AppenderPtr) :
    ∀ s : LogSystem, s.SameLoggers (list.foldl (followFormatter val) s) ∧
      (list.foldl (followFormatter val) s).appenderCount = s.appenderCount ∧
      (∀ b, b ∉ list → (list.foldl (followFormatter val) s).appenders b = s.appenders b) ∧
      (val.isSome → ∀ b, (s.appenders b).base.m_formatter.isSome →
        ((list.foldl (followFormatter val) s).appenders b).base.m_formatter.isSome) := by
  induction list with
  | nil => exact fun s => ⟨.refl s, rfl, fun _ _ => rfl, fun _ _ formatted => formatted⟩
  | cons i rest ih =>
    intro s
    rw [List.foldl_cons]
    obtain ⟨same, count, untouched, formatted⟩ := ih (followFormatter val s i)
    unfold followFormatter at same count untouched formatted ⊢
    split at same
    · rename_i own
      rw [if_pos own] at count untouched formatted ⊢
      exact ⟨same, count, fun b absent => untouched b fun member => absent (.tail i member),
        formatted⟩
    · rename_i own
      rw [if_neg own] at count untouched formatted ⊢
      have first : s.SameLoggers
          (s.updateAppender i fun base => { base with m_formatter := val }) :=
        ⟨rfl, rfl, rfl, rfl, Nat.le_refl _⟩
      refine ⟨first.trans same, count, fun b absent => ?_, fun isSome b ready => ?_⟩
      · rw [untouched b fun member => absent (.tail i member)]
        exact setAppender_other s _ fun here => absent (here ▸ .head rest)
      · refine formatted isSome b ?_
        by_cases here : b = i
        · rw [here, updateAppender, setAppender_self, Appender.base_update]
          exact isSome
        · rw [updateAppender, setAppender_other s _ here]
          exact ready

theorem setFormatter_reformatted (s : LogSystem) (p : LoggerPtr) (val : Option LogFormatter) :
    s.Reformatted (setFormatter s p val) p val := by
  obtain ⟨same, count, untouched, formatted⟩ := followFormatter_loop val
    (s.loggers p).m_appenders (s.setLogger p { s.loggers p with m_formatter := val })
  have shape : setFormatter s p val = (s.loggers p).m_appenders.foldl (followFormatter val)
      (s.setLogger p { s.loggers p with m_formatter := val }) := by
    rw [setFormatter, setLogger_self]
  rw [← shape] at same count untouched formatted
  refine ⟨same.m_logger, same.m_root, same.loggerCount, count, fun q apart => ?_, ?_, untouched,
    formatted⟩
  · rw [same.loggers, setLogger_other s _ apart]
  · rw [same.loggers, setLogger_self]

theorem setFormatterString_reformatted (s : LogSystem) (p : LoggerPtr) (val : String) :
    ∃ formatter, s.Reformatted (setFormatterString s p val) p formatter ∧
      formatter = if (LogFormatter.mk val).isError then (s.loggers p).m_formatter
        else some ⟨val⟩ := by
  unfold setFormatterString
  dsimp only
  split
  · exact ⟨_, ⟨rfl, rfl, rfl, rfl, fun _ _ => rfl, rfl, fun _ _ => rfl, fun _ _ ready => ready⟩,
      rfl⟩
  · exact ⟨_, setFormatter_reformatted s p _, rfl⟩

variable (s : LogSystem) (p : LoggerPtr)

theorem addAppender_loggers (a : AppenderPtr) (q : LoggerPtr) :
    (addAppender s p a).loggers q =
      if q = p then { s.loggers p with m_appenders := (s.loggers p).m_appenders ++ [a] }
      else s.loggers q := by
  unfold addAppender
  by_cases here : q = p
  · subst here
    rw [if_pos rfl]
    dsimp only
    split <;> exact setLogger_self _ _ _
  · rw [if_neg here]
    dsimp only
    split <;> exact setLogger_other _ _ here

theorem addAppender_loggerCount (a : AppenderPtr) :
    (addAppender s p a).loggerCount = s.loggerCount := by
  unfold addAppender
  dsimp only
  split <;> rfl

end Logger

/-- The macro sends its event to the logger or drops it. -/
theorem CHORD_LOG_LEVEL_logged {platform : Platform} {s t : LogSystem} {logger : LoggerPtr}
    {level : LogLevel} {file text : String} {line : Int}
    (ran : CHORD_LOG_LEVEL platform s logger level file line text = .ok t) : s.Logged t := by
  unfold CHORD_LOG_LEVEL at ran
  split at ran
  · have asked : s.Logged { s with asked := s.asked + 1 } :=
      ⟨⟨rfl, rfl, rfl, rfl, Nat.le_refl _⟩, rfl, fun _ => ⟨rfl, rfl⟩⟩
    exact asked.trans (Logger.log_logged ran)
  · cases ran
    exact .refl s

theorem CHORD_LOG_LEVEL_returns (platform : Platform) {s : LogSystem} (wf : s.WellFormed)
    (formatted : s.Formatted) {logger : LoggerPtr} (inside : logger < s.loggerCount)
    (level : LogLevel) (file : String) (line : Int) (text : String) :
    ∃ t, CHORD_LOG_LEVEL platform s logger level file line text = .ok t := by
  unfold CHORD_LOG_LEVEL
  split
  · exact @Logger.log_returns { s with asked := s.asked + 1 } platform level _
      ⟨wf.registered, wf.named, wf.root, wf.child, wf.held⟩
      ⟨formatted.logger, formatted.appender⟩ logger inside
  · exact ⟨s, rfl⟩

end Chord
