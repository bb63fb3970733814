import ChordServer.LoggingInvariant

set_option autoImplicit false

namespace Chord

namespace LogDefines

/-- Every appender of the set is a file or the standard output. -/
def KnownTypes (s : LogDefines) : Prop :=
  ∀ d ∈ s, ∀ a ∈ d.appenders, a.type = 1 ∨ a.type = 2

/-- No definition of the new set is equal to the one that the old set has of its name. -/
def NoneUnchanged (old_value new_value : LogDefines) : Prop :=
  ∀ d ∈ new_value, old_value.find d.name ≠ some d

instance (s : LogDefines) : Decidable s.KnownTypes :=
  inferInstanceAs (Decidable (∀ d ∈ s.toList, ∀ a ∈ d.appenders, a.type = 1 ∨ a.type = 2))

instance (old_value new_value : LogDefines) : Decidable (NoneUnchanged old_value new_value) :=
  inferInstanceAs (Decidable (∀ d ∈ new_value.toList, old_value.find d.name ≠ some d))

end LogDefines

open LogDefines

namespace LogIniter

variable {s : LogSystem} {platform : Platform} {old_value new_value : LogDefines}

theorem onChange_returns_iff_settable (platform : Platform) (old_value new_value : LogDefines)
    (wf : s.WellFormed) (formatted : s.Formatted) :
    (∃ t, onChange platform old_value new_value s = .ok t) ↔
      new_value.KnownTypes ∧ NoneUnchanged old_value new_value := by
  rw [onChange_returns_iff platform old_value new_value wf formatted]
  exact ⟨fun every => ⟨fun d member => (every d member).2, fun d member => (every d member).1⟩,
    fun ⟨known, changed⟩ d member => ⟨changed d member, known d member⟩⟩

/-- With known types only, the loop over the new set gets through or ends at a logger that
has been left null. -/
theorem apply_loop_faults (items : List LogDefine)
    (known : ∀ d ∈ items, ∀ a ∈ d.appenders, a.type = 1 ∨ a.type = 2) :
    ∀ {s : LogSystem} {fault : Fault},
      items.foldlM (apply old_value) s = .error fault → fault = .nullLogger := by
  induction items with
  | nil => exact fun failed => nomatch failed
  | cons d rest ih =>
    intro s fault failed
    obtain ⟨first, later⟩ := List.forall_mem_cons.mp known
    rw [List.foldlM_cons] at failed
    by_cases same : old_value.find d.name = some d
    · simp only [apply, findLogger_of_same same] at failed
      cases failed
      rfl
    · obtain ⟨t, applied⟩ := (apply_returns_iff old_value s d).mpr ⟨same, first⟩
      rw [applied] at failed
      exact ih later failed

/-- Where the listener does not return, the pointer `logger` is null. -/
theorem listener_crashes (wf : s.WellFormed) (formatted : s.Formatted)
    (known : new_value.KnownTypes) (unchanged : ¬ NoneUnchanged old_value new_value) :
    listener platform old_value new_value s = .crashed .nullLogger := by
  have stuck : ∀ t, onChange platform old_value new_value s ≠ .ok t := fun t ran =>
    unchanged
      ((onChange_returns_iff_settable platform old_value new_value wf formatted).mp ⟨t, ran⟩).2
  obtain ⟨t, logged⟩ := CHORD_LOG_LEVEL_returns platform wf formatted wf.root.1 .INFO
    "logger.cpp" 820 "on_logger_conf_changed"
  have shape : onChange platform old_value new_value s =
      (new_value.toList.foldlM (apply old_value) t).map
        (old_value.toList.foldl (remove new_value)) := by
    unfold onChange
    rw [LoggerManager.getRoot, logged]
    cases applied : new_value.toList.foldlM (apply old_value) t <;>
      simp only [bind, Except.bind, applied, Except.map, pure, Except.pure]
  unfold listener
  rw [shape] at stuck ⊢
  cases applied : new_value.toList.foldlM (apply old_value) t with
  | ok middle =>
    rw [applied] at stuck
    exact absurd rfl (stuck _)
  | error fault =>
    rw [apply_loop_faults new_value.toList known applied]
    rfl

theorem listener_returns_iff (wf : s.WellFormed) (formatted : s.Formatted)
    (known : new_value.KnownTypes) :
    (∃ t, listener platform old_value new_value s = .returned t) ↔
      NoneUnchanged old_value new_value := by
  have returns := onChange_returns_iff_settable platform old_value new_value wf formatted
  rw [and_iff_right known] at returns
  rw [← returns]
  unfold listener
  cases onChange platform old_value new_value s <;> simp

end LogIniter

namespace Logging

variable {platform : Platform} {host : Host} {answers : Nat → Environment}

/-- The value that is set is equal to the current one, or its types are known and none of
its definitions is unchanged. -/
def Settable (m_val val : LogDefines) : Prop :=
  val = m_val ∨ val.KnownTypes ∧ NoneUnchanged m_val val

instance (m_val val : LogDefines) : Decidable (Settable m_val val) :=
  inferInstanceAs (Decidable (_ ∨ _))

theorem setValue_returns_iff (platform : Platform) {state : Logging} (wf : state.log.WellFormed)
    (formatted : state.log.Formatted) (val : LogDefines) :
    (∃ next, step platform state (.setValue val) = some next) ↔ Settable state.m_val val := by
  have returns := LogIniter.onChange_returns_iff_settable platform state.m_val val wf formatted
  rw [step_setValue, Settable, ← returns]
  split_ifs with same
  · simp [same]
  · cases LogIniter.onChange platform state.m_val val state.log <;> simp [same]

/-- A sequence of changes of the configuration completes exactly if each of its values is
settable after the one before it. -/
theorem setValues_return_iff (values : List LogDefines) :
    ∀ {state : Logging}, state.log.WellFormed → state.log.Formatted →
      ((∃ final, Transition.run (step platform) state (values.map .setValue) = some final) ↔
        (state.m_val :: values).IsChain Settable) := by
  induction values with
  | nil =>
    intro state _ _
    simp
  | cons val rest ih =>
    intro state wf formatted
    rw [List.isChain_cons_cons, ← setValue_returns_iff platform wf formatted val,
      List.map_cons, Transition.run_cons]
    cases stepped : step platform state (.setValue val) with
    | none => simp
    | some next =>
      obtain ⟨kept, formats⟩ := step_keeps platform wf stepped
      rw [Option.bind_some, ih kept (formats trivial formatted),
        step_setValue_m_val platform stepped]
      simp

/-- In every state that the program can reach, the listener completes exactly if the new
set has no unchanged definition, and a sequence of changes of the configuration exactly if
each is equal to the one before it or leaves no definition as it is. -/
theorem reconfiguration_returns_iff {actions : List Action} {state : Logging}
    (proper : ∀ action ∈ actions, action.Proper)
    (ran : Transition.run (step platform) (start host answers) actions = some state) :
    (∀ old_value new_value : LogDefines, new_value.KnownTypes →
      ((∃ t, LogIniter.listener platform old_value new_value state.log = .returned t) ↔
        NoneUnchanged old_value new_value)) ∧
    (∀ values : List LogDefines,
      (∃ final, Transition.run (step platform) state (values.map .setValue) = some final) ↔
        (state.m_val :: values).IsChain Settable) :=
  ⟨fun _ _ known =>
    LogIniter.listener_returns_iff (run_wellFormed ran) (run_formatted proper ran) known,
    fun values => setValues_return_iff values (run_wellFormed ran) (run_formatted proper ran)⟩

/-- After a first configuration the listener completes for a second one that changes `root`, drops
`system` and adds `worker`. -/
theorem second_configuration_returns :
    let old_value : LogDefines :=
      ⟨[{ name := "root", level := .INFO, appenders := [{ type := 2 }] },
        { name := "system", appenders := [{ type := 1, file := "system.txt" }] }], by decide⟩
    let new_value : LogDefines :=
      ⟨[{ name := "root", level := .WARN, appenders := [{ type := 1, file := "root.txt" }] },
        { name := "worker", formatter := "%m", appenders := [{ type := 2 }] }], by decide⟩
    ∃ state, Transition.run (step default) (start default default) [.setValue old_value] =
        some state ∧
      ∃ t, LogIniter.listener default old_value new_value state.log = .returned t := by
  intro old_value new_value
  obtain ⟨state, ran⟩ := (@setValues_return_iff default [old_value] (start default default)
    (LoggerManager.new_wellFormed default default)
    (LoggerManager.new_formatted default default)).mpr (by decide)
  refine ⟨state, ran, ?_⟩
  exact ((reconfiguration_returns_iff
    (fun action member => by rw [List.mem_singleton.mp member]; trivial) ran).1
      old_value new_value (by decide)).mpr (by decide)

/-- Once `root` has been configured, a set that adds the definition of another logger and
leaves that of `root` as it is ends the process. -/
theorem added_definition_crashes :
    let old_value : LogDefines := ⟨[{ name := "root", level := .INFO }], by simp⟩
    let new_value : LogDefines :=
      ⟨[{ name := "root", level := .INFO }, { name := "system", level := .INFO }], by decide⟩
    old_value.KnownTypes ∧ new_value.KnownTypes ∧ ∃ state,
      Transition.run (step default) (start default default) [.setValue old_value] = some state ∧
      LogIniter.listener default old_value new_value state.log = .crashed .nullLogger := by
  intro old_value new_value
  obtain ⟨state, ran⟩ := (@setValues_return_iff default [old_value] (start default default)
    (LoggerManager.new_wellFormed default default)
    (LoggerManager.new_formatted default default)).mpr (by decide)
  refine ⟨by decide, by decide, state, ran, ?_⟩
  exact LogIniter.listener_crashes (run_wellFormed ran)
    (run_formatted (fun action member => by rw [List.mem_singleton.mp member]; trivial) ran)
    (by decide) (by decide)

end Logging

end Chord
