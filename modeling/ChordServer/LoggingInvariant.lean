import ChordServer.LogIniterOnChange
import ChordServer.Transition

set_option autoImplicit false

namespace Chord

open LogSystem

variable {s t : LogSystem} {p : LoggerPtr}

theorem LogSystem.Reformatted.changed {val : Option LogFormatter}
    (made : ∀ a ∈ (s.loggers p).m_appenders, a < s.appenderCount)
    (reformatted : s.Reformatted t p val) : s.Changed t p := by
  refine ⟨reformatted.m_logger, reformatted.m_root, reformatted.loggerCount,
    reformatted.appenderCount.ge, reformatted.other, by rw [reformatted.self],
    by rw [reformatted.self], ?_⟩
  rw [reformatted.self, reformatted.appenderCount]
  exact made

/-- A logger that gets a formatter, and not a null one, leaves none without. -/
theorem LogSystem.Reformatted.keeps {val : Option LogFormatter}
    (made : ∀ q < s.loggerCount, ∀ a ∈ (s.loggers q).m_appenders, a < s.appenderCount)
    (inside : p < s.loggerCount) (given : val.isSome) (reformatted : s.Reformatted t p val)
    (formatted : s.Formatted) : t.Formatted := by
  refine (reformatted.changed (made p inside)).formatted_of
    (fun a _ ready => reformatted.formatted given a ready) made ?_ ?_ formatted
  · rw [reformatted.self]
    exact given
  · rw [reformatted.self]
    exact fun a held => reformatted.formatted given a (formatted.appender p inside a held)

/-- Nothing but appenders has changed, and none of them has lost its formatter. -/
theorem LogSystem.SameLoggers.formatted (same : s.SameLoggers t) (wf : s.WellFormed)
    (appenders : ∀ a < s.appenderCount, (s.appenders a).base.m_formatter.isSome →
      (t.appenders a).base.m_formatter.isSome)
    (formatted : s.Formatted) : t.Formatted := by
  constructor
  · rw [same.loggers, same.loggerCount]
    exact formatted.logger
  · rw [same.loggers, same.loggerCount]
    exact fun q bound a held =>
      appenders a (wf.held q bound a held) (formatted.appender q bound a held)

namespace LogSystem

/-- A logger that keeps its formatter and gets no new appender. -/
theorem setLogger_keeps (wf : s.WellFormed) (inside : p < s.loggerCount) (logger : Logger)
    (name : logger.m_name = (s.loggers p).m_name) (root : logger.m_root = (s.loggers p).m_root)
    (formatter : logger.m_formatter = (s.loggers p).m_formatter)
    (fewer : ∀ a ∈ logger.m_appenders, a ∈ (s.loggers p).m_appenders) :
    (s.setLogger p logger).WellFormed ∧ (s.Formatted → (s.setLogger p logger).Formatted) := by
  have changed : s.Changed (s.setLogger p logger) p :=
    changed_setLogger name root fun a held => wf.held p inside a (fewer a held)
  refine ⟨changed.wellFormed wf, fun formatted => ?_⟩
  refine changed.formatted_of (fun _ _ ready => ready) wf.held ?_ ?_ formatted
  · rw [setLogger_self, formatter]
    exact formatted.logger p inside
  · rw [setLogger_self]
    exact fun a held => formatted.appender p inside a (fewer a held)

/-- A new appender is none of those that there are. -/
theorem SameLoggers.of_new (same : s.SameLoggers t) (wf : s.WellFormed)
    (old : ∀ a < s.appenderCount, t.appenders a = s.appenders a) :
    t.WellFormed ∧ (s.Formatted → t.Formatted) := by
  refine ⟨same.wellFormed wf, same.formatted wf fun a bound ready => ?_⟩
  rwa [old a bound]

/-- A member function of the base class, called on one appender. -/
theorem updateAppender_keeps (wf : s.WellFormed) (a : AppenderPtr)
    (f : LogAppender → LogAppender) :
    (s.updateAppender a f).WellFormed ∧
      ((∀ base : LogAppender, base.m_formatter.isSome → (f base).m_formatter.isSome) →
        s.Formatted → (s.updateAppender a f).Formatted) := by
  have same : s.SameLoggers (s.updateAppender a f) := ⟨rfl, rfl, rfl, rfl, Nat.le_refl _⟩
  refine ⟨same.wellFormed wf, fun keeps => same.formatted wf fun b _ ready => ?_⟩
  by_cases here : b = a
  · rw [here, updateAppender, setAppender_self, Appender.base_update]
    exact keeps _ (here ▸ ready)
  · rw [updateAppender, setAppender_other s _ here]
    exact ready

end LogSystem

namespace LoggerManager

variable (host : Host) (answers : Nat → Environment)

theorem new_loggers (q : LoggerPtr) (bound : q < (new host answers).loggerCount) :
    q = 0 ∧ (new host answers).loggers q = { m_appenders := [0] } := by
  obtain rfl : q = 0 := Nat.lt_one_iff.mp bound
  exact ⟨rfl, rfl⟩

theorem new_wellFormed : (new host answers).WellFormed := by
  refine ⟨fun q bound => ?_, fun entry member => ?_, ⟨Nat.zero_lt_one, rfl⟩,
    fun q bound apart => ?_, fun q bound a held => ?_⟩
  · obtain ⟨rfl, same⟩ := new_loggers host answers q bound
    rw [same]
    rfl
  · obtain rfl : entry = ("root", 0) := List.mem_singleton.mp member
    exact ⟨Nat.zero_lt_one, rfl⟩
  · exact absurd (new_loggers host answers q bound).1 apart
  · rw [(new_loggers host answers q bound).2] at held
    obtain rfl := List.mem_singleton.mp held
    exact Nat.zero_lt_one

theorem new_formatted : (new host answers).Formatted := by
  refine ⟨fun q bound => ?_, fun q bound a held => ?_⟩
  · rw [(new_loggers host answers q bound).2]
    rfl
  · rw [(new_loggers host answers q bound).2] at held
    obtain rfl := List.mem_singleton.mp held
    rfl

theorem new_separate : (new host answers).Separate := by
  intro q first r second apart
  exact absurd ((new_loggers host answers q first).1.trans
    (new_loggers host answers r second).1.symm) apart

end LoggerManager

namespace Logger

variable (s p)

theorem addAppender_changed
    (older : ∀ q < s.loggerCount, ∀ a ∈ (s.loggers q).m_appenders, a < s.appenderCount)
    (inside : p < s.loggerCount) {a : AppenderPtr} (made : a < s.appenderCount) :
    s.Changed (addAppender s p a) p ∧
      (s.Formatted → (addAppender s p a).Formatted) := by
  have lent : ∃ u : LogSystem, s.SameLoggers u ∧ u.appenderCount = s.appenderCount ∧
      (∀ b, (s.appenders b).base.m_formatter.isSome → (u.appenders b).base.m_formatter.isSome) ∧
      ((s.loggers p).m_formatter.isSome → (u.appenders a).base.m_formatter.isSome) ∧
      addAppender s p a = u.setLogger p
        { u.loggers p with m_appenders := (u.loggers p).m_appenders ++ [a] } := by
    unfold addAppender LogAppender.getFormatter
    cases bare : (s.appenders a).base.m_formatter with
    | none =>
      refine ⟨s.updateAppender a fun base => { base with m_formatter := (s.loggers p).m_formatter },
        ⟨rfl, rfl, rfl, rfl, Nat.le_refl _⟩, rfl, fun b ready => ?_, fun ready => ?_, rfl⟩
      · have apart : b ≠ a := by
          rintro rfl
          rw [bare] at ready
          cases ready
        rw [updateAppender, setAppender_other s _ apart]
        exact ready
      · rw [updateAppender, setAppender_self, Appender.base_update]
        exact ready
    | some formatter =>
      exact ⟨s, .refl s, rfl, fun _ ready => ready, fun _ => by rw [bare]; rfl, rfl⟩
  obtain ⟨u, same, count, kept, lends, shape⟩ := lent
  have grown : ∀ b ∈ (u.loggers p).m_appenders ++ [a], b < u.appenderCount := by
    intro b held
    rw [count]
    rcases List.mem_append.mp held with held | held
    · exact older p inside b (same.loggers ▸ held)
    · rw [List.mem_singleton.mp held]
      exact made
  have added : s.Changed (addAppender s p a) p := by
    rw [shape]
    refine ⟨same.m_logger, same.m_root, same.loggerCount, count.ge, fun q apart => ?_, ?_, ?_, ?_⟩
    · rw [setLogger_other u _ apart, same.loggers]
    · rw [setLogger_self, same.loggers]
    · rw [setLogger_self, same.loggers]
    · rw [setLogger_self]
      exact grown
  refine ⟨added, fun formatted => added.formatted_of (fun b _ ready => ?_) older ?_ ?_ formatted⟩
  · rw [shape]
    exact kept b ready
  · rw [shape, setLogger_self, same.loggers]
    exact formatted.logger p inside
  · rw [shape, setLogger_self, same.loggers]
    intro b held
    rcases List.mem_append.mp held with held | held
    · exact kept b (formatted.appender p inside b held)
    · rw [List.mem_singleton.mp held]
      exact lends (formatted.logger p inside)

end Logger

namespace Logging

/-- No formatter is taken away: `setFormatter` is not called with a null pointer. -/
def Action.Proper : Action → Prop
  | .setFormatter _ val => val.isSome
  | .setAppenderFormatter _ val => val.isSome
  | _ => True

/-- An action other than a change of the configuration keeps the loggers well formed, and
if it takes no formatter away it keeps them all. -/
theorem act_keeps {platform : Platform} {action : Action} (wf : s.WellFormed)
    (valid : action.Valid s) (acted : act platform s action = .ok t) :
    t.WellFormed ∧ (action.Proper → s.Formatted → t.Formatted) := by
  cases action with
  | getLogger name =>
    cases acted
    have got := LoggerManager.getLogger_got wf name
    exact ⟨got.wellFormed, fun _ => got.formatted⟩
  | setLevel logger val =>
    cases acted
    obtain ⟨kept, formats⟩ := setLogger_keeps wf valid
      { s.loggers logger with m_level := val } rfl rfl rfl fun _ held => held
    exact ⟨kept, fun _ => formats⟩
  | setFormatter logger val =>
    cases acted
    have reformatted := Logger.setFormatter_reformatted s logger val
    have changed := reformatted.changed (wf.held logger valid)
    exact ⟨changed.wellFormed wf, fun proper => reformatted.keeps wf.held valid proper⟩
  | setFormatterString logger val =>
    cases acted
    obtain ⟨formatter, reformatted, which⟩ := Logger.setFormatterString_reformatted s logger val
    have changed := reformatted.changed (wf.held logger valid)
    refine ⟨changed.wellFormed wf, fun _ formatted => reformatted.keeps wf.held valid ?_ formatted⟩
    rw [which]
    split
    · exact formatted.logger logger valid
    · rfl
  | addAppender logger appender =>
    cases acted
    obtain ⟨changed, keeps⟩ := Logger.addAppender_changed s logger wf.held valid.1 valid.2
    exact ⟨changed.wellFormed wf, fun _ => keeps⟩
  | delAppender logger appender =>
    cases acted
    obtain ⟨kept, formats⟩ := setLogger_keeps wf valid
      { s.loggers logger with m_appenders := (s.loggers logger).m_appenders.erase appender }
      rfl rfl rfl fun _ held => List.mem_of_mem_erase held
    exact ⟨kept, fun _ => formats⟩
  | clearAppenders logger =>
    cases acted
    obtain ⟨kept, formats⟩ := setLogger_keeps wf valid
      { s.loggers logger with m_appenders := [] } rfl rfl rfl fun _ held => nomatch held
    exact ⟨kept, fun _ => formats⟩
  | newFileLogAppender filename =>
    cases acted
    have same : s.SameLoggers (s.newFileLogAppender filename).1 :=
      ⟨rfl, rfl, rfl, rfl, Nat.le_succ _⟩
    obtain ⟨kept, formats⟩ := same.of_new wf fun a bound =>
      setAppender_other s _ (Nat.ne_of_lt bound)
    exact ⟨kept, fun _ => formats⟩
  | newStdOutLogAppender =>
    cases acted
    have same : s.SameLoggers s.newStdOutLogAppender.1 := ⟨rfl, rfl, rfl, rfl, Nat.le_succ _⟩
    obtain ⟨kept, formats⟩ := same.of_new wf fun a bound =>
      setAppender_other s _ (Nat.ne_of_lt bound)
    exact ⟨kept, fun _ => formats⟩
  | setAppenderFormatter appender val =>
    cases acted
    obtain ⟨kept, formats⟩ := updateAppender_keeps wf appender fun base => base.setFormatter val
    exact ⟨kept, fun proper => formats fun _ _ => proper⟩
  | setAppenderLevel appender level =>
    cases acted
    obtain ⟨kept, formats⟩ := updateAppender_keeps wf appender fun base => base.setLevel level
    exact ⟨kept, fun _ => formats fun _ ready => ready⟩
  | log logger level event =>
    have logged := Logger.log_logged acted
    exact ⟨logged.loggers.wellFormed wf, fun _ => logged.formatted⟩
  | setValue val =>
    cases acted
    exact ⟨wf, fun _ formatted => formatted⟩

variable (platform : Platform) (host : Host) (answers : Nat → Environment)

/-- A new value is stored if the listener returns; a value equal to the stored one is
not looked at. -/
theorem step_setValue (state : Logging) (val : LogDefines) :
    step platform state (.setValue val) =
      if val = state.m_val then some state
      else match LogIniter.onChange platform state.m_val val state.log with
        | .ok log => some { log := log, m_val := val }
        | .error _ => none := by
  unfold step ConfigVar.setValue
  by_cases same : val = state.m_val
  · have equal : (val == (g_log_defines platform state.m_val).m_val) = true := by
      rw [beq_iff_eq]
      exact same
    rw [if_pos same]
    simp only [equal, if_true]
    rfl
  · have differ : (val == (g_log_defines platform state.m_val).m_val) = false := by
      rw [beq_eq_false_iff_ne]
      exact same
    have listeners : (g_log_defines platform state.m_val).m_cbs.toList =
        [(1, LogIniter.listener platform)] := rfl
    have current : (g_log_defines platform state.m_val).m_val = state.m_val := rfl
    rw [if_neg same]
    simp only [differ, Bool.false_eq_true, if_false, listeners, ConfigVar.notify,
      LogIniter.listener]
    rw [current]
    cases LogIniter.onChange platform state.m_val val state.log <;> rfl

/-- A change of the configuration that returns either had nothing to change or has run
the listener. -/
theorem step_setValue_some {state next : Logging} {val : LogDefines}
    (stepped : step platform state (.setValue val) = some next) :
    (val = state.m_val ∧ next = state) ∨
      (val ≠ state.m_val ∧ next.m_val = val ∧
        LogIniter.onChange platform state.m_val val state.log = .ok next.log) := by
  rw [step_setValue] at stepped
  split at stepped
  · rename_i same
    cases stepped
    exact .inl ⟨same, rfl⟩
  · rename_i differ
    split at stepped
    · rename_i log ran
      cases stepped
      exact .inr ⟨differ, rfl, ran⟩
    · cases stepped

theorem step_setValue_m_val {state next : Logging} {val : LogDefines}
    (stepped : step platform state (.setValue val) = some next) : next.m_val = val := by
  rcases step_setValue_some platform stepped with ⟨same, rfl⟩ | ⟨-, stored, -⟩
  · exact same.symm
  · exact stored

/-- The last of a sequence of values is the one that stays. -/
theorem run_setValues_m_val (values : List LogDefines) :
    ∀ {state final : Logging},
      Transition.run (step platform) state (values.map .setValue) = some final →
      final.m_val = values.getLastD state.m_val := by
  induction values with
  | nil =>
    intro state final ran
    cases ran
    rfl
  | cons val rest ih =>
    intro state final ran
    rw [List.map_cons, Transition.run_cons, Option.bind_eq_some_iff] at ran
    obtain ⟨next, stepped, ran⟩ := ran
    rw [List.getLastD_cons, ih ran, step_setValue_m_val platform stepped]

/-- The other actions leave the configuration alone. -/
theorem step_act {state next : Logging} {action : Action} (other : ∀ val, action ≠ .setValue val)
    (stepped : step platform state action = some next) :
    action.Valid state.log ∧ act platform state.log action = .ok next.log ∧
      next.m_val = state.m_val := by
  have shape : step platform state action = if action.Valid state.log then
      match act platform state.log action with
      | .ok log => some { state with log := log }
      | .error _ => none
      else none := by
    cases action with
    | setValue val => exact absurd rfl (other val)
    | _ => rfl
  rw [shape] at stepped
  split at stepped
  · rename_i valid
    split at stepped
    · rename_i log acted
      cases stepped
      exact ⟨valid, acted, rfl⟩
    · cases stepped
  · cases stepped

/-- One step of a run keeps the loggers well formed, and one that takes no formatter away
keeps them all. -/
theorem step_keeps {state next : Logging} {action : Action} (wf : state.log.WellFormed)
    (stepped : step platform state action = some next) :
    next.log.WellFormed ∧ (action.Proper → state.log.Formatted → next.log.Formatted) := by
  by_cases configures : ∃ val, action = .setValue val
  · obtain ⟨val, rfl⟩ := configures
    rcases step_setValue_some platform stepped with ⟨-, rfl⟩ | ⟨-, -, ran⟩
    · exact ⟨wf, fun _ formatted => formatted⟩
    · obtain ⟨updated, -⟩ := LogIniter.onChange_updated wf ran
      exact ⟨updated.wellFormed, fun _ => updated.formatted⟩
  · obtain ⟨valid, acted, -⟩ := step_act platform (fun val same => configures ⟨val, same⟩) stepped
    exact act_keeps wf valid acted

variable {platform host answers} {actions : List Action} {state : Logging}

theorem run_wellFormed
    (ran : Transition.run (step platform) (start host answers) actions = some state) :
    state.log.WellFormed :=
  Transition.run_invariant
    (fun _ _ _ wf stepped => (step_keeps platform wf stepped).1)
    (LoggerManager.new_wellFormed host answers) ran

theorem run_formatted (proper : ∀ action ∈ actions, action.Proper)
    (ran : Transition.run (step platform) (start host answers) actions = some state) :
    state.log.Formatted := by
  have keeps : ∀ (before : Logging) (action : Action) (after : Logging),
      before.log.WellFormed ∧ before.log.Formatted → action.Proper →
      step platform before action = some after → after.log.WellFormed ∧ after.log.Formatted := by
    rintro before action after ⟨wf, formatted⟩ proper stepped
    obtain ⟨kept, formats⟩ := step_keeps platform wf stepped
    exact ⟨kept, formats proper formatted⟩
  exact (Transition.run_invariant_of_stepsMeet keeps
    ⟨LoggerManager.new_wellFormed host answers, LoggerManager.new_formatted host answers⟩
    (Transition.stepsMeet_of_forall proper _) ran).2

end Logging

end Chord
