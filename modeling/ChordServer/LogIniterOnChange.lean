import ChordServer.LogIniterConfigure

set_option autoImplicit false

namespace Chord.LogIniter

open LogSystem

/-- The loggers with touched names have been changed as `change` says, and no other ones. -/
structure Updated (s t : LogSystem) (touched : String → Prop)
    (change : String → LoggerView → LoggerView) : Prop where
  wellFormed : t.WellFormed
  extension : s.Extends t
  formatted : s.Formatted → t.Formatted
  separate : s.Separate → t.Separate
  other : ∀ n, ¬ touched n → t.named n = s.named n
  view : s.Separate → ∀ n, t.view n = change n (s.view n)

/-- The change of one logger. -/
def only (name : String) (change : LoggerView → LoggerView) (n : String) (view : LoggerView) :
    LoggerView := if n = name then change view else view

variable {s t u : LogSystem} {p : LoggerPtr} {d : LogDefine}

theorem Updated.trans {first second : String → Prop}
    {change next : String → LoggerView → LoggerView} (before : Updated s t first change)
    (after : Updated t u second next) :
    Updated s u (fun n => first n ∨ second n) (fun n view => next n (change n view)) := by
  refine ⟨after.wellFormed, before.extension.trans after.extension,
    fun ready => after.formatted (before.formatted ready),
    fun apart => after.separate (before.separate apart), fun n untouched => ?_, fun apart n => ?_⟩
  · obtain ⟨early, late⟩ := not_or.mp untouched
    rw [after.other n late, before.other n early]
  · rw [after.view (before.separate apart), before.view apart]

theorem Updated.refl (wf : s.WellFormed) {touched : String → Prop} :
    Updated s s touched fun _ view => view :=
  ⟨wf, .refl s, id, id, fun _ _ => rfl, fun _ _ => rfl⟩

section
variable (configured : Configured s t p d)
include configured

theorem Configured.changed : s.Changed t p := by
  refine ⟨configured.m_logger, configured.m_root, configured.loggerCount,
    by rw [configured.appenderCount]; exact Nat.le_add_right _ _, configured.other,
    by rw [configured.self], by rw [configured.self], ?_⟩
  rw [configured.self, configured.appenderCount]
  exact fun a member => (List.mem_range'_1.mp member).2

theorem Configured.fresh {a : AppenderPtr} (held : a ∈ (t.loggers p).m_appenders) :
    s.appenderCount ≤ a := by
  rw [configured.self] at held
  exact (List.mem_range'_1.mp held).1

theorem Configured.separate (wf : s.WellFormed) (separate : s.Separate) : t.Separate := by
  unfold Separate
  rw [configured.loggerCount]
  intro q first r second apart a held
  by_cases here : q = p
  · have old : t.loggers r = s.loggers r :=
      configured.other r fun same => apart (here.trans same.symm)
    rw [old]
    intro other
    exact absurd (wf.held r second a other) (Nat.not_lt.mpr (configured.fresh (here ▸ held)))
  · rw [configured.other q here] at held
    by_cases there : r = p
    · intro other
      exact absurd (wf.held q first a held)
        (Nat.not_lt.mpr (configured.fresh (there ▸ other)))
    · rw [configured.other r there]
      exact separate q first r second apart a held

theorem Configured.formats
    (made : ∀ q < s.loggerCount, ∀ a ∈ (s.loggers q).m_appenders, a < s.appenderCount)
    (inside : p < s.loggerCount)
    (formatted : s.Formatted) : t.Formatted := by
  have before := formatted.logger p inside
  refine configured.changed.formatted_of (configured.formatted before) made ?_ ?_ formatted
  · rw [configured.self]
    dsimp only
    split
    · rfl
    · exact before
  · intro a held
    rw [configured.self] at held
    have shown := List.mem_map_of_mem (f := fun b => (t.appenders b).view) held
    rw [configured.new, List.mem_map] at shown
    obtain ⟨define, -, same⟩ := shown
    have pattern : (d.pattern (patternAt s p)).isSome := by
      unfold LogDefine.pattern
      split
      · rfl
      · rwa [patternAt, Option.isSome_map]
    have effective : (t.appenders a).view.effective.isSome := by
      rw [← same, AppenderView.ofDefine, Option.isSome_or, pattern, Bool.or_true]
    rwa [Appender.view, Option.isSome_map] at effective

theorem Configured.named (wf : s.WellFormed) (inside : p < s.loggerCount)
    (name : (s.loggers p).m_name = d.name) (n : String) :
    t.named n = if n = d.name then t.loggers p else s.named n := by
  rw [configured.changed.named wf inside, name]

theorem Configured.view (wf : s.WellFormed) (inside : p < s.loggerCount)
    (name : (s.loggers p).m_name = d.name) (separate : s.Separate) (n : String) :
    t.view n = if n = d.name then (s.view n).configured d else s.view n := by
  by_cases here : n = d.name
  · have old : s.named n = s.loggers p := by
      rw [here, ← name]
      exact wf.named_name inside
    have new : t.named n = t.loggers p := by
      rw [configured.named wf inside name, if_pos here]
    rw [if_pos here, LogSystem.view, LogSystem.view, new, old, configured.self]
    simp only [Logger.view, LoggerView.configured]
    refine LoggerView.mk.injEq .. |>.mpr ⟨rfl, ?_, ?_⟩
    · unfold LogDefine.pattern
      split <;> rfl
    · exact configured.new
  · rw [if_neg here]
    have same : t.named n = s.named n := by
      rw [configured.named wf inside name, if_neg here]
    refine view_congr same fun a held => congrArg Appender.view ?_
    obtain ⟨q, bound, called, found⟩ := wf.registered_of_held held
    have apart : q ≠ p := by
      rintro rfl
      exact here (called.symm.trans name)
    rw [found] at held
    exact configured.old a (wf.held q bound a held) (separate q bound p inside apart a held)

end

/-- Getting a logger and changing it is an update of the logger of that name. -/
theorem updated_of_got {name : String} {change : LoggerView → LoggerView}
    (got : LoggerManager.Got s name t p) (changed : t.Changed u p)
    (formatted : t.Formatted → u.Formatted) (separate : t.Separate → u.Separate)
    (view : t.Separate → ∀ n, u.view n = if n = name then change (t.view n) else t.view n) :
    Updated s u (· = name) (only name change) := by
  have separated : s.Separate → t.Separate := by
    intro separate q first r second apart a held other
    have old : ∀ q < t.loggerCount, a ∈ (t.loggers q).m_appenders →
        q < s.loggerCount ∧ a ∈ (s.loggers q).m_appenders := by
      intro q bound held
      rcases Nat.lt_or_ge q s.loggerCount with before | after
      · exact ⟨before, got.loggers q before ▸ held⟩
      · rw [got.fresh q bound after] at held
        cases held
    obtain ⟨first, held⟩ := old q first held
    obtain ⟨second, other⟩ := old r second other
    exact separate q first r second apart a held other
  have same : t.view = s.view := by
    funext n
    rw [LogSystem.view, LogSystem.view, got.named, got.appenders]
  refine ⟨changed.wellFormed got.wellFormed, got.extension.trans changed.extension,
    fun ready => formatted (got.formatted ready),
    fun ready => separate (separated ready), fun n apart => ?_, fun ready n => ?_⟩
  · rw [changed.named got.wellFormed got.inside, got.called, if_neg apart, got.named]
  · rw [view (separated ready), same]
    rfl

theorem findLogger_of_same {old_value : LogDefines} (same : old_value.find d.name = some d) :
    findLogger old_value s d = (s, none) := by
  rw [findLogger, same]
  exact if_neg (not_not.mpr rfl)

theorem findLogger_of_changed {old_value : LogDefines} (changed : old_value.find d.name ≠ some d) :
    findLogger old_value s d = ((LoggerManager.getLogger s d.name).1,
      some (LoggerManager.getLogger s d.name).2) := by
  unfold findLogger
  split
  · rfl
  · rename_i it found
    rw [found] at changed
    exact if_pos fun same => changed (congrArg some same.symm)

/-- A round of the loop over the new set returns exactly for a definition that the old
set does not have, with appenders of known types. -/
theorem apply_returns_iff (old_value : LogDefines) (s : LogSystem) (d : LogDefine) :
    (∃ t, apply old_value s d = .ok t) ↔
      old_value.find d.name ≠ some d ∧ ∀ a ∈ d.appenders, a.type = 1 ∨ a.type = 2 := by
  unfold apply
  dsimp only
  by_cases same : old_value.find d.name = some d
  · rw [findLogger_of_same same]
    constructor
    · rintro ⟨t, failed⟩
      cases failed
    · exact fun condition => absurd same condition.1
  · rw [findLogger_of_changed same]
    constructor
    · rintro ⟨t, ran⟩
      exact ⟨same, configure_typed ran⟩
    · rintro ⟨-, typed⟩
      obtain ⟨t, ran, -⟩ := configure_configured _ _ typed
      exact ⟨t, ran⟩

theorem apply_updated (wf : s.WellFormed) {old_value : LogDefines}
    (applied : apply old_value s d = .ok u) :
    Updated s u (· = d.name) (only d.name fun view => view.configured d) := by
  obtain ⟨changed, typed⟩ := (apply_returns_iff old_value s d).mp ⟨u, applied⟩
  have got := LoggerManager.getLogger_got wf d.name
  obtain ⟨t, ran, configured⟩ := configure_configured (LoggerManager.getLogger s d.name).1
    (LoggerManager.getLogger s d.name).2 typed
  simp only [apply, findLogger_of_changed changed, ran] at applied
  cases applied
  exact updated_of_got got configured.changed (configured.formats got.wellFormed.held got.inside)
    (configured.separate got.wellFormed)
    (fun separate => configured.view got.wellFormed got.inside got.called separate)

/-- The loop over the new set gets through exactly if each of its rounds returns. -/
theorem apply_loop_returns_iff (old_value : LogDefines) (items : List LogDefine) :
    ∀ s, (∃ t, items.foldlM (apply old_value) s = .ok t) ↔
      ∀ d ∈ items, old_value.find d.name ≠ some d ∧
        ∀ a ∈ d.appenders, a.type = 1 ∨ a.type = 2 := by
  induction items with
  | nil =>
    intro s
    simp only [List.not_mem_nil, false_implies, implies_true, iff_true]
    exact ⟨s, rfl⟩
  | cons d rest ih =>
    intro s
    rw [List.forall_mem_cons, ← apply_returns_iff old_value s d]
    constructor
    · rintro ⟨t, ran⟩
      obtain ⟨middle, applied, ran⟩ := Fallible.foldlM_cons_ok.mp ran
      exact ⟨⟨middle, applied⟩, (ih middle).mp ⟨t, ran⟩⟩
    · rintro ⟨⟨middle, applied⟩, later⟩
      obtain ⟨t, ran⟩ := (ih middle).mpr later
      exact ⟨t, Fallible.foldlM_cons_ok.mpr ⟨middle, applied, ran⟩⟩

/-- The logger takes no event: its level is too high and it holds no appender. -/
def Silent (logger : Logger) : Prop := logger.m_level = tooHigh ∧ logger.m_appenders = []

/-- What one round over the old set does when the new one lacks the name. -/
theorem remove_updated (wf : s.WellFormed) {new_value : LogDefines}
    (gone : new_value.find d.name = none) :
    Updated s (remove new_value s d) (· = d.name) (only d.name LoggerView.removed) ∧
      Silent ((remove new_value s d).named d.name) := by
  have got := LoggerManager.getLogger_got wf d.name
  unfold remove
  rw [gone]
  dsimp only
  generalize (LoggerManager.getLogger s d.name).1 = t at got ⊢
  generalize (LoggerManager.getLogger s d.name).2 = p at got ⊢
  have leveled : (Logger.setLevel t p tooHigh).loggers p =
      { t.loggers p with m_level := tooHigh } := setLogger_self t p _
  have cleared : (Logger.clearAppenders (Logger.setLevel t p tooHigh) p).loggers p =
      { t.loggers p with m_level := tooHigh, m_appenders := [] } := by
    rw [Logger.clearAppenders, setLogger_self, leveled]
  have changed : t.Changed (Logger.clearAppenders (Logger.setLevel t p tooHigh) p) p := by
    refine ⟨rfl, rfl, rfl, Nat.le_refl _, fun q apart => ?_, by rw [cleared], by rw [cleared],
      by rw [cleared]; exact fun a held => absurd held List.not_mem_nil⟩
    rw [Logger.clearAppenders, setLogger_other _ _ apart, Logger.setLevel,
      setLogger_other _ _ apart]
  have named := changed.named got.wellFormed got.inside
  rw [got.called] at named
  have fewer : ∀ a, a ∈ ((Logger.clearAppenders (Logger.setLevel t p tooHigh) p).loggers
      p).m_appenders → a ∈ (t.loggers p).m_appenders := by
    rw [cleared]
    exact fun a held => absurd held List.not_mem_nil
  refine ⟨updated_of_got got changed ?_ (changed.separate fewer) ?_, ?_⟩
  · intro ready
    refine changed.formatted_of (fun _ _ same => same) got.wellFormed.held ?_ ?_ ready
    · rw [cleared]
      exact ready.logger p got.inside
    · rw [cleared]
      exact fun a held => absurd held List.not_mem_nil
  · intro separate n
    by_cases here : n = d.name
    · have old : t.named n = t.loggers p := by
        rw [here, ← got.called]
        exact got.wellFormed.named_name got.inside
      rw [if_pos here, LogSystem.view, named, if_pos here, cleared, LogSystem.view, old]
      rfl
    · rw [if_neg here]
      exact view_congr (by rw [named, if_neg here]) fun a _ => rfl
  · rw [named, if_pos rfl, cleared]
    exact ⟨rfl, rfl⟩

/-- The loop over the new set changes the loggers that it names one after the other. -/
theorem apply_loop_updated {old_value : LogDefines} (items : List LogDefine) :
    ∀ {s}, s.WellFormed → items.foldlM (apply old_value) s = .ok t →
      Updated s t (fun n => ∃ d ∈ items, d.name = n) fun n view =>
        items.foldl (fun view d => only d.name (·.configured d) n view) view := by
  induction items with
  | nil =>
    intro s wf ran
    cases ran
    exact .refl wf
  | cons d rest ih =>
    intro s wf ran
    obtain ⟨middle, applied, ran⟩ := Fallible.foldlM_cons_ok.mp ran
    have first := apply_updated wf applied
    have all := first.trans (ih first.wellFormed ran)
    refine ⟨all.wellFormed, all.extension, all.formatted, all.separate, fun n untouched => ?_,
      all.view⟩
    refine all.other n fun touched => untouched ?_
    rcases touched with rfl | ⟨other, member, named⟩
    · exact ⟨d, by simp, rfl⟩
    · exact ⟨other, by simp [member], named⟩

/-- A set has at most one definition to change a logger with. -/
theorem apply_loop_change (new_value : LogDefines) (n : String) (view : LoggerView) :
    new_value.toList.foldl (fun view d => only d.name (·.configured d) n view) view =
      match new_value.find n with
      | some d => view.configured d
      | none => view := by
  have others : ∀ (items : List LogDefine) (view : LoggerView), (∀ d ∈ items, d.name ≠ n) →
      items.foldl (fun view d => only d.name (·.configured d) n view) view = view := by
    intro items
    induction items with
    | nil => exact fun _ _ => rfl
    | cons d rest ih =>
      intro view apart
      obtain ⟨first, later⟩ := List.forall_mem_cons.mp apart
      rw [List.foldl_cons, only, if_neg (Ne.symm first), ih view later]
  cases found : new_value.find n with
  | none => exact others _ view (KeyedSet.find_eq_none_iff.mp found)
  | some d =>
    obtain ⟨member, rfl⟩ := KeyedSet.find_eq_some_iff.mp found
    obtain ⟨before, after, shape⟩ := List.append_of_mem member
    have sorted := new_value.sorted
    rw [shape, List.pairwise_append, List.pairwise_cons] at sorted
    obtain ⟨-, ⟨above, -⟩, below⟩ := sorted
    rw [shape, List.foldl_append, List.foldl_cons,
      others before view fun other inside => (below other inside d (by simp)).ne, only,
      if_pos rfl, others after _ fun other inside => (above other inside).ne']

/-- The name is one of those in a list that the new set lacks. -/
def Dropped (new_value : LogDefines) (items : List LogDefine) (n : String) : Prop :=
  new_value.find n = none ∧ ∃ d ∈ items, d.name = n

instance (new_value : LogDefines) (items : List LogDefine) (n : String) :
    Decidable (Dropped new_value items n) := inferInstanceAs (Decidable (_ ∧ _))

/-- The loop over the old set silences the loggers that the new one lacks. -/
theorem remove_loop_updated (new_value : LogDefines) (items : List LogDefine) :
    ∀ {s : LogSystem}, s.WellFormed →
      Updated s (items.foldl (remove new_value) s) (Dropped new_value items)
        (fun n view => if Dropped new_value items n then view.removed else view) ∧
      ∀ n, Silent (s.named n) ∨ Dropped new_value items n →
        Silent ((items.foldl (remove new_value) s).named n) := by
  induction items with
  | nil =>
    intro s wf
    have none : ∀ n, ¬ Dropped new_value [] n := by simp [Dropped]
    simp only [none, if_false, or_false]
    exact ⟨.refl wf, fun n silent => silent⟩
  | cons d rest ih =>
    intro s wf
    rw [List.foldl_cons]
    cases found : new_value.find d.name with
    | some kept =>
      have same : ∀ n, Dropped new_value (d :: rest) n ↔ Dropped new_value rest n := by
        intro n
        refine and_congr_right fun gone => ?_
        have other : d.name ≠ n := by
          rintro rfl
          rw [found] at gone
          cases gone
        simp [other]
      have unchanged : remove new_value s d = s := by rw [remove, found]
      simp only [same, unchanged]
      obtain ⟨updated, silenced⟩ := ih wf
      exact ⟨⟨updated.wellFormed, updated.extension, updated.formatted, updated.separate,
        fun n untouched => updated.other n fun touched => untouched ((same n).mpr touched),
        updated.view⟩, silenced⟩
    | none =>
      obtain ⟨first, silent⟩ := remove_updated (d := d) wf found
      obtain ⟨later, silenced⟩ := ih first.wellFormed
      have split : ∀ n, Dropped new_value (d :: rest) n ↔
          n = d.name ∨ Dropped new_value rest n := by
        intro n
        constructor
        · rintro ⟨gone, other, member, named⟩
          rcases List.mem_cons.mp member with rfl | member
          · exact .inl named.symm
          · exact .inr ⟨gone, other, member, named⟩
        · rintro (rfl | ⟨gone, other, member, named⟩)
          · exact ⟨found, d, by simp, rfl⟩
          · exact ⟨gone, other, by simp [member], named⟩
      have all := first.trans later
      refine ⟨⟨all.wellFormed, all.extension, all.formatted, all.separate, fun n untouched => ?_,
        fun separate n => ?_⟩, fun n silentOrDropped => ?_⟩
      · exact all.other n fun touched => untouched ((split n).mpr touched)
      · rw [all.view separate]
        simp only [split, only]
        by_cases here : n = d.name
        · simp only [here, true_or, if_true]
          split <;> rfl
        · simp only [here, if_false, false_or]
      · by_cases here : n = d.name
        · exact silenced n (.inl (here ▸ silent))
        · refine silenced n ?_
          rw [split] at silentOrDropped
          rw [first.other n here]
          rcases silentOrDropped with before | now | after
          · exact .inl before
          · exact absurd now here
          · exact .inr after

/-- The change that a new set makes of a logger that may be in the old one. -/
def changed (old_value new_value : LogDefines) (n : String) (view : LoggerView) : LoggerView :=
  match new_value.find n with
  | some d => view.configured d
  | none => if (old_value.find n).isSome then view.removed else view

/-- The steps of the listener: it logs, goes through the new set, then the old one. -/
theorem onChange_ok {platform : Platform} {old_value new_value : LogDefines}
    (ran : onChange platform old_value new_value s = .ok u) :
    ∃ t, s.Logged t ∧ ∃ middle, new_value.toList.foldlM (apply old_value) t = .ok middle ∧
      u = old_value.toList.foldl (remove new_value) middle := by
  unfold onChange at ran
  cases first : CHORD_LOG_LEVEL platform s (LoggerManager.getRoot s) .INFO "logger.cpp" 820
    "on_logger_conf_changed" with
  | error fault => rw [first] at ran; cases ran
  | ok t =>
    rw [first] at ran
    cases second : new_value.toList.foldlM (apply old_value) t with
    | error fault => simp [second, bind, Except.bind] at ran
    | ok middle =>
      simp only [bind, Except.bind, second, pure, Except.pure, Except.ok.injEq] at ran
      exact ⟨t, CHORD_LOG_LEVEL_logged first, middle, second, ran.symm⟩

/-- The listener, where it returns, changes the loggers as the two sets say. -/
theorem onChange_updated {platform : Platform} {old_value new_value : LogDefines}
    (wf : s.WellFormed) (ran : onChange platform old_value new_value s = .ok u) :
    Updated s u (fun n => (new_value.find n).isSome ∨ (old_value.find n).isSome)
        (changed old_value new_value) ∧
      ∀ n, new_value.find n = none → (old_value.find n).isSome → Silent (u.named n) := by
  obtain ⟨t, logged, middle, applied, rfl⟩ := onChange_ok ran
  have ready := logged.loggers.wellFormed wf
  have first := apply_loop_updated new_value.toList ready applied
  obtain ⟨second, silenced⟩ := remove_loop_updated new_value old_value.toList first.wellFormed
  have both := first.trans second
  have dropped : ∀ n, Dropped new_value old_value.toList n ↔
      new_value.find n = none ∧ (old_value.find n).isSome := by
    intro n
    rw [KeyedSet.find_isSome_iff]
    rfl
  refine ⟨⟨both.wellFormed, logged.loggers.extension.trans both.extension,
    fun formatted => both.formatted (logged.formatted formatted),
    fun separate => both.separate (logged.separate separate), fun n untouched => ?_,
    fun separate n => ?_⟩, fun n gone held => silenced n (.inr ((dropped n).mpr ⟨gone, held⟩))⟩
  · rw [both.other n ?_, logged.loggers.named]
    rintro (named | gone)
    · exact untouched (.inl (KeyedSet.find_isSome_iff.mpr named))
    · exact untouched (.inr ((dropped n).mp gone).2)
  · rw [both.view (logged.separate separate), logged.view, apply_loop_change, changed]
    simp only [dropped]
    cases new_value.find n with
    | none => simp
    | some d => simp

/-- The listener returns exactly if every definition of the new set is new or differs
from the one it replaces, and has appenders of known types only. -/
theorem onChange_returns_iff (platform : Platform) (old_value new_value : LogDefines)
    (wf : s.WellFormed) (formatted : s.Formatted) :
    (∃ t, onChange platform old_value new_value s = .ok t) ↔
      ∀ d ∈ new_value, old_value.find d.name ≠ some d ∧
        ∀ a ∈ d.appenders, a.type = 1 ∨ a.type = 2 := by
  constructor
  · rintro ⟨u, ran⟩
    obtain ⟨t, -, middle, applied, -⟩ := onChange_ok ran
    exact (apply_loop_returns_iff old_value new_value.toList t).mp ⟨middle, applied⟩
  · intro every
    obtain ⟨t, logged⟩ := CHORD_LOG_LEVEL_returns platform wf formatted wf.root.1 .INFO
      "logger.cpp" 820 "on_logger_conf_changed"
    obtain ⟨middle, applied⟩ := (apply_loop_returns_iff old_value new_value.toList t).mpr every
    refine ⟨old_value.toList.foldl (remove new_value) middle, ?_⟩
    unfold onChange
    rw [LoggerManager.getRoot, logged]
    simp only [bind, Except.bind, applied, pure, Except.pure]

end Chord.LogIniter
