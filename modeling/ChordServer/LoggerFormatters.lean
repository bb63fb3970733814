import ChordServer.LoggingInvariant

set_option autoImplicit false

namespace Chord

open LogSystem

/-- `Logger::ptr(new Logger(name))`: a logger that the manager does not know. -/
def LogSystem.newLogger (s : LogSystem) (name : String) : LogSystem × LoggerPtr :=
  ({ s.setLogger s.loggerCount { m_name := name } with loggerCount := s.loggerCount + 1 },
    s.loggerCount)

/-- `log` of the logger at `this`, with as many loggers left as are not locked by an outer call,
comes in the state `u` to a call of the appender `a`. -/
inductive Logger.Reaches (platform : Platform) (level : LogLevel) (event : LogEvent) :
    Nat → LogSystem → LoggerPtr → LogSystem → AppenderPtr → Prop
  | own {unlocked : Nat} {s u : LogSystem} {this : LoggerPtr} {a : AppenderPtr}
      {before after : List AppenderPtr} (passes : (s.loggers this).m_level ≤ level)
      (list : (s.loggers this).m_appenders = before ++ a :: after)
      (ran : before.foldlM (callAppender platform level event) s = .ok u) :
      Reaches platform level event (unlocked + 1) s this u a
  | root {unlocked : Nat} {s u : LogSystem} {this m_root : LoggerPtr} {a : AppenderPtr}
      (passes : (s.loggers this).m_level ≤ level) (empty : (s.loggers this).m_appenders = [])
      (fallback : (s.loggers this).m_root = some m_root)
      (later : Reaches platform level event unlocked s m_root u a) :
      Reaches platform level event (unlocked + 1) s this u a

/-- Whatever logger is given an event, the appenders that the event comes to have a formatter. -/
def LogSystem.NeverNull (platform : Platform) (s : LogSystem) : Prop :=
  ∀ p < s.loggerCount, ∀ level event,
    (∀ u a, Logger.Reaches platform level event s.loggerCount s p u a →
      (u.appenders a).base.m_formatter.isSome) ∧
    Logger.log s p platform level event ≠ .error .nullFormatter

/-- The loggers and the appenders that the members point to exist, and no formatter that an
event may come to is null. -/
structure LogSystem.Ready (s : LogSystem) : Prop where
  root : s.m_root < s.loggerCount
  registered : ∀ entry ∈ s.m_logger, entry.2 < s.loggerCount
  fallback : ∀ p < s.loggerCount, ∀ q, (s.loggers p).m_root = some q → q < s.loggerCount
  held : ∀ p < s.loggerCount, ∀ a ∈ (s.loggers p).m_appenders, a < s.appenderCount
  formatted : s.Formatted

namespace LogSystem.Ready

variable {s t : LogSystem} {p : LoggerPtr} {platform : Platform}

theorem of_changed (ready : s.Ready) (changed : s.Changed t p) (formatted : t.Formatted) :
    t.Ready := by
  have other : ∀ q, q ≠ p → t.loggers q = s.loggers q := changed.other
  refine ⟨?_, ?_, fun q inside r fallback => ?_, fun q inside a held => ?_, formatted⟩
  · rw [changed.m_root, changed.loggerCount]
    exact ready.root
  · rw [changed.m_logger, changed.loggerCount]
    exact ready.registered
  · have same : (t.loggers q).m_root = (s.loggers q).m_root := by
      by_cases here : q = p
      · rw [here, changed.root]
      · rw [other q here]
    rw [changed.loggerCount] at inside ⊢
    exact ready.fallback q inside r (same.symm.trans fallback)
  · by_cases here : q = p
    · exact changed.held a (here ▸ held)
    · rw [other q here] at held
      rw [changed.loggerCount] at inside
      exact (ready.held q inside a held).trans_le changed.appenderCount

theorem of_same (ready : s.Ready) (same : s.SameLoggers t) (formatted : t.Formatted) :
    t.Ready := by
  obtain ⟨m_logger, m_root, loggers, loggerCount, grown⟩ := same
  refine ⟨?_, ?_, ?_, fun q inside a held => ?_, formatted⟩
  · rw [m_root, loggerCount]
    exact ready.root
  · rw [m_logger, loggerCount]
    exact ready.registered
  · rw [loggers, loggerCount]
    exact ready.fallback
  · rw [loggerCount] at inside
    rw [loggers] at held
    exact (ready.held q inside a held).trans_le grown

/-- A change of nothing but the appenders that takes no formatter away. -/
theorem of_appenders (ready : s.Ready) (same : s.SameLoggers t)
    (kept : ∀ a < s.appenderCount, (s.appenders a).base.m_formatter.isSome →
      (t.appenders a).base.m_formatter.isSome) : t.Ready := by
  refine ready.of_same same ⟨?_, ?_⟩
  · rw [same.loggers, same.loggerCount]
    exact ready.formatted.logger
  · rw [same.loggers, same.loggerCount]
    exact fun q inside a held =>
      kept a (ready.held q inside a held) (ready.formatted.appender q inside a held)

/-- A logger that keeps its formatter and its root and gets no new appender. -/
theorem setLogger (ready : s.Ready) (inside : p < s.loggerCount) (logger : Logger)
    (name : logger.m_name = (s.loggers p).m_name) (root : logger.m_root = (s.loggers p).m_root)
    (formatter : logger.m_formatter = (s.loggers p).m_formatter)
    (fewer : ∀ a ∈ logger.m_appenders, a ∈ (s.loggers p).m_appenders) :
    (s.setLogger p logger).Ready := by
  have changed : s.Changed (s.setLogger p logger) p :=
    changed_setLogger name root fun a held => ready.held p inside a (fewer a held)
  refine ready.of_changed changed
    (changed.formatted_of (fun _ _ some => some) ready.held ?_ ?_ ready.formatted)
  · rw [setLogger_self, formatter]
    exact ready.formatted.logger p inside
  · rw [setLogger_self]
    exact fun a held => ready.formatted.appender p inside a (fewer a held)

theorem updateAppender (ready : s.Ready) (a : AppenderPtr) {f : LogAppender → LogAppender}
    (keeps : ∀ base : LogAppender, base.m_formatter.isSome → (f base).m_formatter.isSome) :
    (s.updateAppender a f).Ready := by
  refine ready.of_appenders ⟨rfl, rfl, rfl, rfl, Nat.le_refl _⟩ fun b _ some => ?_
  by_cases here : b = a
  · rw [here, LogSystem.updateAppender, setAppender_self, Appender.base_update]
    exact keeps _ (here ▸ some)
  · rw [LogSystem.updateAppender, setAppender_other s _ here]
    exact some

/-- One more logger, with a formatter and without appenders, at the next address. -/
theorem of_made (ready : s.Ready) (loggerCount : t.loggerCount = s.loggerCount + 1)
    (m_root : t.m_root = s.m_root) (old : ∀ q < s.loggerCount, t.loggers q = s.loggers q)
    (formatter : (t.loggers s.loggerCount).m_formatter.isSome)
    (appenders : (t.loggers s.loggerCount).m_appenders = [])
    (fallback : ∀ q, (t.loggers s.loggerCount).m_root = some q → q < s.loggerCount)
    (registered : ∀ entry ∈ t.m_logger, entry ∈ s.m_logger ∨ entry.2 = s.loggerCount)
    (same : t.appenders = s.appenders) (count : t.appenderCount = s.appenderCount) :
    t.Ready := by
  have which : ∀ q < t.loggerCount, q < s.loggerCount ∨ q = s.loggerCount := by
    rw [loggerCount]
    exact fun q inside => Nat.lt_succ_iff_lt_or_eq.mp inside
  have none : ∀ a, a ∉ (t.loggers s.loggerCount).m_appenders := by
    rw [appenders]
    exact fun a => List.not_mem_nil
  refine ⟨?_, fun entry member => ?_, fun q inside r falls => ?_, fun q inside a held => ?_,
    fun q inside => ?_, fun q inside a held => ?_⟩
  · rw [m_root, loggerCount]
    exact Nat.lt_succ_of_lt ready.root
  · rw [loggerCount]
    rcases registered entry member with before | new
    · exact Nat.lt_succ_of_lt (ready.registered entry before)
    · exact new ▸ Nat.lt_succ_self _
  · rw [loggerCount]
    rcases which q inside with before | rfl
    · rw [old q before] at falls
      exact Nat.lt_succ_of_lt (ready.fallback q before r falls)
    · exact Nat.lt_succ_of_lt (fallback r falls)
  · rw [count]
    rcases which q inside with before | rfl
    · exact ready.held q before a (old q before ▸ held)
    · exact absurd held (none a)
  · rcases which q inside with before | rfl
    · rw [old q before]
      exact ready.formatted.logger q before
    · exact formatter
  · rw [same]
    rcases which q inside with before | rfl
    · exact ready.formatted.appender q before a (old q before ▸ held)
    · exact absurd held (none a)

theorem newLogger (ready : s.Ready) (name : String) : (s.newLogger name).1.Ready := by
  have made : (s.newLogger name).1.loggers s.loggerCount = { m_name := name } :=
    Function.update_self _ _ _
  refine ready.of_made rfl rfl
    (fun q before => setLogger_other s _ (Nat.ne_of_lt before)) ?_ ?_ ?_
    (fun entry member => .inl member) rfl rfl
  · rw [made]
    rfl
  · rw [made]
  · rw [made]
    exact nofun

theorem getLogger (ready : s.Ready) (name : String) :
    (LoggerManager.getLogger s name).1.Ready ∧
      (LoggerManager.getLogger s name).2 < (LoggerManager.getLogger s name).1.loggerCount := by
  unfold LoggerManager.getLogger
  split
  · rename_i it found
    exact ⟨ready, ready.registered it (KeyedSet.find_eq_some_iff.mp found).1⟩
  · let logger : Logger := { m_name := name, m_root := some s.m_root }
    have made : Function.update s.loggers s.loggerCount logger s.loggerCount = logger :=
      Function.update_self _ _ _
    refine ⟨ready.of_made rfl rfl
      (fun q before => setLogger_other s _ (Nat.ne_of_lt before)) ?_ ?_ ?_ ?_ rfl rfl,
      Nat.lt_succ_self _⟩
    · exact (congrArg (fun logger => logger.m_formatter.isSome) made).trans rfl
    · exact congrArg Logger.m_appenders made
    · intro q falls
      obtain rfl := Option.some.inj ((congrArg Logger.m_root made).symm.trans falls)
      exact ready.root
    · intro entry member
      rcases KeyedSet.mem_insert.mp member with before | ⟨rfl, -⟩
      · exact .inl before
      · exact .inr rfl

theorem act {action : Logging.Action} (ready : s.Ready) (valid : action.Valid s)
    (proper : action.Proper) (acted : Logging.act platform s action = .ok t) : t.Ready := by
  cases action with
  | getLogger name =>
    cases acted
    exact (ready.getLogger name).1
  | setLevel logger val =>
    cases acted
    exact ready.setLogger valid _ rfl rfl rfl fun _ held => held
  | setFormatter logger val =>
    cases acted
    have reformatted := Logger.setFormatter_reformatted s logger val
    exact ready.of_changed (reformatted.changed (ready.held logger valid))
      (reformatted.keeps ready.held valid proper ready.formatted)
  | setFormatterString logger val =>
    cases acted
    obtain ⟨formatter, reformatted, which⟩ := Logger.setFormatterString_reformatted s logger val
    refine ready.of_changed (reformatted.changed (ready.held logger valid))
      (reformatted.keeps ready.held valid ?_ ready.formatted)
    rw [which]
    split
    · exact ready.formatted.logger logger valid
    · rfl
  | addAppender logger appender =>
    cases acted
    obtain ⟨changed, keeps⟩ := Logger.addAppender_changed s logger ready.held valid.1 valid.2
    exact ready.of_changed changed (keeps ready.formatted)
  | delAppender logger appender =>
    cases acted
    exact ready.setLogger valid _ rfl rfl rfl fun _ held => List.mem_of_mem_erase held
  | clearAppenders logger =>
    cases acted
    exact ready.setLogger valid _ rfl rfl rfl fun _ held => absurd held List.not_mem_nil
  | newFileLogAppender filename =>
    cases acted
    refine ready.of_appenders ⟨rfl, rfl, rfl, rfl, Nat.le_succ _⟩ fun a bound some => ?_
    have old : (s.newFileLogAppender filename).1.appenders a = s.appenders a :=
      setAppender_other s _ (Nat.ne_of_lt bound)
    rwa [old]
  | newStdOutLogAppender =>
    cases acted
    refine ready.of_appenders ⟨rfl, rfl, rfl, rfl, Nat.le_succ _⟩ fun a bound some => ?_
    have old : s.newStdOutLogAppender.1.appenders a = s.appenders a :=
      setAppender_other s _ (Nat.ne_of_lt bound)
    rwa [old]
  | setAppenderFormatter appender val =>
    cases acted
    exact ready.updateAppender appender fun _ _ => proper
  | setAppenderLevel appender level =>
    cases acted
    exact ready.updateAppender appender fun _ some => some
  | log logger level event =>
    have logged := Logger.log_logged acted
    exact ready.of_same logged.loggers (logged.formatted ready.formatted)
  | setValue val =>
    cases acted
    exact ready

variable {old_value new_value : LogDefines} {d : LogDefine}

theorem apply (ready : s.Ready) (applied : LogIniter.apply old_value s d = .ok t) : t.Ready := by
  obtain ⟨changed, typed⟩ := (LogIniter.apply_returns_iff old_value s d).mp ⟨t, applied⟩
  obtain ⟨got, inside⟩ := ready.getLogger d.name
  obtain ⟨u, ran, configured⟩ := LogIniter.configure_configured
    (LoggerManager.getLogger s d.name).1 (LoggerManager.getLogger s d.name).2 typed
  simp only [LogIniter.apply, LogIniter.findLogger_of_changed changed, ran] at applied
  cases applied
  exact got.of_changed configured.changed (configured.formats got.held inside got.formatted)

theorem remove (ready : s.Ready) : (LogIniter.remove new_value s d).Ready := by
  unfold LogIniter.remove
  split
  · exact ready
  · obtain ⟨got, inside⟩ := ready.getLogger d.name
    have leveled := got.setLogger inside
      { (LoggerManager.getLogger s d.name).1.loggers (LoggerManager.getLogger s d.name).2 with
        m_level := LogIniter.tooHigh } rfl rfl rfl fun _ held => held
    exact leveled.setLogger inside _ rfl rfl rfl fun _ held => absurd held List.not_mem_nil

theorem onChange (ready : s.Ready)
    (ran : LogIniter.onChange platform old_value new_value s = .ok t) : t.Ready := by
  obtain ⟨u, logged, middle, applied, rfl⟩ := LogIniter.onChange_ok ran
  have before : u.Ready := ready.of_same logged.loggers (logged.formatted ready.formatted)
  have configured : middle.Ready := Fallible.foldlM_invariant
    (fun d _ state next held applied => LogSystem.Ready.apply held applied) before applied
  have removed : ∀ (items : List LogDefine) {state : LogSystem}, state.Ready →
      (items.foldl (LogIniter.remove new_value) state).Ready := by
    intro items
    induction items with
    | nil => exact fun held => held
    | cons d rest ih => exact fun held => ih held.remove
  exact removed old_value.toList configured

/-- An event comes to appenders with formatters only. -/
theorem reaches {level : LogLevel} {event : LogEvent} {unlocked : Nat} {this : LoggerPtr}
    {u : LogSystem} {a : AppenderPtr}
    (comes : Logger.Reaches platform level event unlocked s this u a) :
    s.Ready → this < s.loggerCount → (u.appenders a).base.m_formatter.isSome := by
  induction comes with
  | @own unlocked s u this a before after passes list ran =>
    intro ready inside
    have logged : s.Logged u := Fallible.foldlM_invariant
      (fun i _ state next earlier called => earlier.trans (callAppender_logged called))
      (Logged.refl s) ran
    rw [(logged.appender a).1]
    exact ready.formatted.appender this inside a (by rw [list]; simp)
  | root passes empty falls later ih =>
    exact fun ready inside => ih ready (ready.fallback _ inside _ falls)

theorem logUnlocked_ne (ready : s.Ready) (level : LogLevel) (event : LogEvent) (unlocked : Nat) :
    ∀ this < s.loggerCount,
      Logger.logUnlocked platform level event unlocked s this ≠ .error .nullFormatter := by
  induction unlocked with
  | zero =>
    intro this _ failed
    cases failed
  | succ unlocked ih =>
    intro this inside failed
    rw [Logger.logUnlocked] at failed
    split at failed
    · split at failed
      · obtain ⟨t, ran⟩ := @Logger.appenders_return _ platform level event ready.formatted _ inside
        rw [ran] at failed
        cases failed
      · split at failed
        · rename_i falls
          exact ih _ (ready.fallback this inside _ falls) failed
        · cases failed
    · cases failed

theorem neverNull (ready : s.Ready) : s.NeverNull platform := by
  intro p inside level event
  exact ⟨fun u a comes => reaches comes ready inside, ready.logUnlocked_ne level event _ p inside⟩

end LogSystem.Ready

namespace Logging

/-- What may be done with any loggers and any appenders: a logger is made, a listener of
`g_log_defines` is run, or one of the other functions is called. -/
inductive Call
  | newLogger (name : String)
  | onChange (old_value new_value : LogDefines)
  | act (action : Action)

instance (action : Action) : Decidable action.Proper :=
  match action with
  | .setFormatter _ val => inferInstanceAs (Decidable (val.isSome = true))
  | .setAppenderFormatter _ val => inferInstanceAs (Decidable (val.isSome = true))
  | .getLogger _ | .setLevel _ _ | .setFormatterString _ _ | .addAppender _ _
  | .delAppender _ _ | .clearAppenders _ | .newFileLogAppender _ | .newStdOutLogAppender
  | .setAppenderLevel _ _ | .log _ _ _ | .setValue _ => .isTrue trivial

/-- `none` if the call is given an object that there is not or a null formatter, or does not
return. -/
def callStep (platform : Platform) (s : LogSystem) : Call → Option LogSystem
  | .newLogger name => some (s.newLogger name).1
  | .onChange old_value new_value => (LogIniter.onChange platform old_value new_value s).toOption
  | .act action =>
      if action.Valid s ∧ action.Proper then (act platform s action).toOption else none

theorem toOption_some {t : LogSystem} {result : Except Fault LogSystem}
    (returned : result.toOption = some t) : result = .ok t := by
  cases result with
  | error fault => cases returned
  | ok u => exact congrArg Except.ok (Option.some.inj returned)

theorem callStep_ready {platform : Platform} {s t : LogSystem} {call : Call} (ready : s.Ready)
    (stepped : callStep platform s call = some t) : t.Ready := by
  cases call with
  | newLogger name =>
    cases stepped
    exact ready.newLogger name
  | onChange old_value new_value => exact ready.onChange (toOption_some stepped)
  | act action =>
    simp only [callStep] at stepped
    split at stepped
    · rename_i given
      exact ready.act given.1 given.2 (toOption_some stepped)
    · cases stepped

theorem new_ready (host : Host) (answers : Nat → Environment) :
    (LoggerManager.new host answers).Ready := by
  have wf := LoggerManager.new_wellFormed host answers
  refine ⟨wf.root.1, fun entry member => (wf.named entry member).1, fun p inside q falls => ?_,
    wf.held, LoggerManager.new_formatted host answers⟩
  obtain ⟨rfl, same⟩ := LoggerManager.new_loggers host answers p inside
  rw [same] at falls
  cases falls

/-- Along every run of these calls an event that any logger is given comes to no appender whose
formatter is null. -/
theorem log_neverNull (platform : Platform) (host : Host) (answers : Nat → Environment)
    (calls : List Call) :
    Transition.EveryState (callStep platform) (NeverNull platform)
      (LoggerManager.new host answers) calls :=
  Transition.everyState_of_invariant (fun _ ready => LogSystem.Ready.neverNull ready)
    (fun _ _ _ ready stepped => callStep_ready ready stepped) (new_ready host answers)

end Logging

end Chord
