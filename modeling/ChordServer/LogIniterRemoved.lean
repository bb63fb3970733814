import ChordServer.LogIniterReturns

set_option autoImplicit false

namespace Chord.Logging

open LogSystem LogIniter

/-- A set that an action configures has a definition of the name. -/
def Action.Mentions (name : String) : Action → Prop
  | .setValue val => (val.find name).isSome
  | _ => False

/-- The actions that change loggers through the configuration only. -/
def Action.Reconfigures : Action → Prop
  | .getLogger _ => True
  | .log _ _ _ => True
  | .setValue _ => True
  | _ => False

/-- A definition of the name is in the first configuration or one of the later ones. -/
def Mentioned (initial : Logging) (actions : List Action) (name : String) : Prop :=
  (initial.m_val.find name).isSome ∨ ∃ action ∈ actions, action.Mentions name

variable {platform : Platform} {initial state next : Logging} {past actions : List Action}

theorem mentioned_concat {action : Action} {name : String} :
    Mentioned initial (past ++ [action]) name ↔
      Mentioned initial past name ∨ action.Mentions name := by
  simp only [Mentioned, List.mem_append, List.mem_singleton, or_and_right, exists_or,
    exists_eq_left, or_assoc]

/-- What the configurations so far say about the loggers. -/
structure Tracked (initial : Logging) (past : List Action) (state : Logging) : Prop where
  wellFormed : state.log.WellFormed
  extension : initial.log.Extends state.log
  current : ∀ name, (state.m_val.find name).isSome → Mentioned initial past name
  silent : ∀ name, Mentioned initial past name → state.m_val.find name = none →
    Silent (state.log.named name)
  untouched : ∀ name, ¬ Mentioned initial past name →
    state.log.named name = initial.log.named name

theorem Tracked.refl (wf : initial.log.WellFormed) : Tracked initial [] initial := by
  have only : ∀ name, Mentioned initial [] name ↔ (initial.m_val.find name).isSome := by
    simp [Mentioned]
  refine ⟨wf, .refl initial.log, fun name => (only name).mpr, fun name mentioned gone => ?_,
    fun _ _ => rfl⟩
  rw [only, gone] at mentioned
  cases mentioned

/-- An action that leaves the configuration and every logger as they are. -/
theorem Tracked.keep (tracked : Tracked initial past state) {action : Action}
    (silent : ∀ name, ¬ action.Mentions name) (wf : next.log.WellFormed)
    (extension : state.log.Extends next.log) (m_val : next.m_val = state.m_val)
    (named : next.log.named = state.log.named) : Tracked initial (past ++ [action]) next := by
  have same : ∀ name, Mentioned initial (past ++ [action]) name ↔ Mentioned initial past name := by
    intro name
    rw [mentioned_concat, or_iff_left (silent name)]
  refine ⟨wf, tracked.extension.trans extension, ?_, ?_, ?_⟩
  · simp only [same, m_val]
    exact tracked.current
  · simp only [same, m_val, named]
    exact tracked.silent
  · simp only [same, named]
    exact tracked.untouched

theorem Tracked.setValue (tracked : Tracked initial past state) {val : LogDefines}
    (ran : onChange platform state.m_val val state.log = .ok next.log)
    (stored : next.m_val = val) : Tracked initial (past ++ [.setValue val]) next := by
  obtain ⟨updated, silenced⟩ := onChange_updated tracked.wellFormed ran
  have same : ∀ name, Mentioned initial (past ++ [.setValue val]) name ↔
      Mentioned initial past name ∨ (val.find name).isSome := fun _ => mentioned_concat
  have other : ∀ name, val.find name = none → state.m_val.find name = none →
      next.log.named name = state.log.named name := by
    intro name new old
    refine updated.other name ?_
    simp [new, old]
  refine ⟨updated.wellFormed, tracked.extension.trans updated.extension, ?_, ?_, ?_⟩
  · intro name held
    rw [stored] at held
    exact (same name).mpr (.inr held)
  · intro name mentioned gone
    rw [stored] at gone
    rw [same, gone, or_iff_left (by simp)] at mentioned
    cases before : state.m_val.find name with
    | none =>
      rw [other name gone before]
      exact tracked.silent name mentioned before
    | some d => exact silenced name gone (by rw [before]; rfl)
  · intro name unmentioned
    rw [same, not_or] at unmentioned
    obtain ⟨never, absent⟩ := unmentioned
    have before : state.m_val.find name = none :=
      Option.not_isSome_iff_eq_none.mp fun held => never (tracked.current name held)
    rw [other name (Option.not_isSome_iff_eq_none.mp absent) before]
    exact tracked.untouched name never

theorem Tracked.step (tracked : Tracked initial past state) {action : Action}
    (kind : action.Reconfigures) (stepped : step platform state action = some next) :
    Tracked initial (past ++ [action]) next := by
  cases action with
  | getLogger name =>
    cases stepped
    have got := LoggerManager.getLogger_got tracked.wellFormed name
    exact tracked.keep (fun _ => id) got.wellFormed got.extension rfl got.named
  | log logger level event =>
    have other : ∀ val, Action.log logger level event ≠ .setValue val := fun _ => nofun
    obtain ⟨-, acted, m_val⟩ := step_act platform other stepped
    have same := (Logger.log_logged acted).loggers
    exact tracked.keep (fun _ => id) (same.wellFormed tracked.wellFormed) same.extension m_val
      same.named
  | setValue val =>
    rcases step_setValue_some platform stepped with ⟨rfl, rfl⟩ | ⟨-, stored, ran⟩
    · have same : ∀ name, Mentioned initial (past ++ [.setValue next.m_val]) name ↔
          Mentioned initial past name := by
        intro name
        rw [mentioned_concat]
        exact or_iff_left_of_imp (tracked.current name)
      refine ⟨tracked.wellFormed, tracked.extension, ?_, ?_, ?_⟩
      · simp only [same]
        exact tracked.current
      · simp only [same]
        exact tracked.silent
      · simp only [same]
        exact tracked.untouched
    · exact tracked.setValue ran stored
  | _ => exact kind.elim

theorem run_tracked (wf : initial.log.WellFormed)
    (kind : ∀ action ∈ actions, action.Reconfigures)
    (ran : Transition.run (Logging.step platform) initial actions = some state) :
    Tracked initial actions state :=
  Transition.run_history (fun _ _ _ _ tracked kind stepped => tracked.step kind stepped) kind
    (Tracked.refl wf) ran

/-- A silent logger drops every event. -/
theorem log_of_silent {s : LogSystem} {p : LoggerPtr} (inside : p < s.loggerCount)
    (silent : Silent (s.loggers p)) {level : LogLevel} (isEvent : level.IsEvent)
    (event : LogEvent) : Logger.log s p platform level event = .ok s := by
  refine Logger.log_silent inside ?_
  rw [silent.1, LogLevel.le_def]
  exact fun high => absurd (high.trans isEvent.2) (by decide)

/-- In every state that a run of changes of the configuration, events and `getLogger`
reaches: an event to a logger that had a definition and has none does nothing at all, and a
logger that has had no definition is as it was at the start of the run, or as `getLogger`
has made it since. -/
theorem removed_silent_unmentioned_untouched {host : Host} {answers : Nat → Environment}
    {setup : List Action}
    (reached : Transition.run (Logging.step platform) (start host answers) setup = some initial)
    (kind : ∀ action ∈ actions, action.Reconfigures)
    (ran : Transition.run (Logging.step platform) initial actions = some state)
    {p : LoggerPtr} (inside : p < state.log.loggerCount) :
    (Mentioned initial actions (state.log.loggers p).m_name →
      state.m_val.find (state.log.loggers p).m_name = none →
      ∀ level : LogLevel, level.IsEvent → ∀ event,
        Logger.log state.log p platform level event = .ok state.log) ∧
    (¬ Mentioned initial actions (state.log.loggers p).m_name →
      state.log.loggers p =
        if p < initial.log.loggerCount then initial.log.loggers p
        else { m_name := (state.log.loggers p).m_name, m_root := some initial.log.m_root }) := by
  have wf := run_wellFormed reached
  have tracked := run_tracked wf kind ran
  have here := tracked.wellFormed.named_name inside
  refine ⟨fun mentioned gone level isEvent event => ?_, fun unmentioned => ?_⟩
  · have silent := tracked.silent _ mentioned gone
    rw [here] at silent
    exact log_of_silent inside silent isEvent event
  · have same := tracked.untouched _ unmentioned
    rw [here] at same
    split_ifs with old
    · rw [tracked.extension.name p old, wf.named_name old] at same
      exact same
    · rw [LogSystem.named] at same
      cases found : initial.log.m_logger.find (state.log.loggers p).m_name with
      | none =>
        rw [found] at same
        exact same
      | some it =>
        obtain ⟨bound, called⟩ := wf.find found
        have later := tracked.extension.name it.2 bound
        have twice := tracked.wellFormed.name_inj
          (bound.trans_le tracked.extension.loggerCount) inside (later.trans called)
        exact absurd (twice ▸ bound) old

/-- Once the definition of `root` has come and gone, `root` drops every event. -/
theorem root_silent_without_its_definition :
    let configured : LogDefines := ⟨[{ name := "root", level := .INFO }], by simp⟩
    let event : LogEvent :=
      { m_file := "", m_line := 0, m_elapsed := 0, m_threadId := 0, m_fiberId := 0, m_time := 0,
        m_ss := "a", m_logger := "root", m_level := .FATAL }
    ∃ state, Transition.run (Logging.step default) (start default default)
        [.setValue configured, .setValue ∅] = some state ∧
      Logger.log state.log 0 default .FATAL event = .ok state.log := by
  intro configured event
  obtain ⟨state, ran⟩ := (@setValues_return_iff default [configured, ∅] (start default default)
    (LoggerManager.new_wellFormed default default)
    (LoggerManager.new_formatted default default)).mpr (by decide)
  have kind : ∀ action ∈ [Action.setValue configured, .setValue ∅], action.Reconfigures := by
    simp [Action.Reconfigures]
  have extension := (run_tracked (LoggerManager.new_wellFormed default default) kind ran).extension
  have name : (state.log.loggers 0).m_name = "root" := extension.name 0 Nat.zero_lt_one
  have stored : state.m_val = ∅ := run_setValues_m_val default [configured, ∅] ran
  refine ⟨state, ran, (@removed_silent_unmentioned_untouched default (start default default) state
    _ default default [] rfl kind ran 0 (Nat.zero_lt_one.trans_le extension.loggerCount)).1
    ?_ ?_ .FATAL (by decide) event⟩
  · rw [name]
    exact .inr ⟨.setValue configured, by simp, rfl⟩
  · rw [name, stored]
    rfl

end Chord.Logging
