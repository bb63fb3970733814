import ChordServer.LogIniterReturns
import Mathlib.Data.List.Induction

set_option autoImplicit false

namespace Chord

open LogDefines

/-- A logger that a definition has been applied to, with the pattern that it formats with. -/
def LoggerView.ofDefine (d : LogDefine) (pattern : Option String) : LoggerView :=
  { level := d.level, formatter := pattern, appenders := d.appenders.map (.ofDefine pattern) }

theorem LogDefine.pattern_pattern (d : LogDefine) (inherited : Option String) :
    d.pattern (d.pattern inherited) = d.pattern inherited := by
  unfold LogDefine.pattern
  split <;> rfl

/-- The pattern that a set leaves the logger of a name with. -/
def LogDefines.pattern (name : String) (inherited : Option String) (val : LogDefines) :
    Option String :=
  match val.find name with
  | some d => d.pattern inherited
  | none => inherited

/-- The last usable pattern that one of the sets has for the name, or else the default. -/
def LogDefines.inherited (values : List LogDefines) (name : String) : Option String :=
  values.foldl (LogDefines.pattern name) (some defaultPattern)

theorem LogDefines.inherited_concat (values : List LogDefines) (val : LogDefines) (name : String) :
    inherited (values ++ [val]) name = val.pattern name (inherited values name) :=
  List.foldl_concat _ _ _ _

theorem LogDefines.pattern_of_mem {val : LogDefines} {d : LogDefine} (member : d ∈ val)
    (inherited : Option String) : val.pattern d.name inherited = d.pattern inherited := by
  rw [LogDefines.pattern, KeyedSet.find_key member]

theorem LogDefine.pattern_eq_iff (d : LogDefine) (first second : Option String) :
    d.pattern first = d.pattern second ↔ Usable d.formatter ∨ first = second := by
  unfold LogDefine.pattern
  split <;> simp [*]

theorem LoggerManager.new_pattern (host : Host) (answers : Nat → Environment) (name : String) :
    ((new host answers).view name).formatter = some defaultPattern := by
  have wf := new_wellFormed host answers
  rw [LogSystem.view, LogSystem.named]
  cases found : (new host answers).m_logger.find name with
  | none => rfl
  | some it =>
    obtain ⟨-, same⟩ := new_loggers host answers it.2 (wf.find found).1
    dsimp only
    rw [same]
    rfl

namespace Logging

open LogSystem LogIniter

variable {platform : Platform} {host : Host} {answers : Nat → Environment}

/-- What a sequence of values makes of the loggers. -/
structure Follows (values : List LogDefines) (state : Logging) : Prop where
  wellFormed : state.log.WellFormed
  separate : state.log.Separate
  pattern : ∀ name, (state.log.view name).formatter = inherited values name
  view : ∀ d ∈ state.m_val, state.log.view d.name = .ofDefine d (inherited values d.name)
  settled : ∀ d ∈ state.m_val, d.pattern (inherited values d.name) = inherited values d.name

theorem Follows.setValue {values : List LogDefines} {state next : Logging} {val : LogDefines}
    (follows : Follows values state)
    (stepped : step platform state (.setValue val) = some next) :
    Follows (values ++ [val]) next := by
  rcases step_setValue_some platform stepped with ⟨rfl, rfl⟩ | ⟨-, rfl, ran⟩
  · have same : ∀ name, inherited (values ++ [next.m_val]) name = inherited values name := by
      intro name
      rw [inherited_concat, LogDefines.pattern]
      cases found : next.m_val.find name with
      | none => rfl
      | some d =>
        obtain ⟨member, rfl⟩ := KeyedSet.find_eq_some_iff.mp found
        exact follows.settled d member
    refine ⟨follows.wellFormed, follows.separate, ?_, ?_, ?_⟩
    · simp only [same]
      exact follows.pattern
    · simp only [same]
      exact follows.view
    · simp only [same]
      exact follows.settled
  · obtain ⟨updated, -⟩ := onChange_updated follows.wellFormed ran
    have view := updated.view follows.separate
    refine ⟨updated.wellFormed, updated.separate follows.separate, fun name => ?_,
      fun d member => ?_, fun d member => ?_⟩
    · rw [view, inherited_concat, LogDefines.pattern, LogIniter.changed, ← follows.pattern name]
      cases next.m_val.find name with
      | none =>
        dsimp only
        split <;> rfl
      | some d => rfl
    · rw [view, inherited_concat, LogDefines.pattern_of_mem member, LogIniter.changed,
        KeyedSet.find_key member, ← follows.pattern d.name]
      rfl
    · rw [inherited_concat, LogDefines.pattern_of_mem member]
      exact d.pattern_pattern _

theorem run_follows (values : List LogDefines) :
    ∀ {state : Logging},
      Transition.run (step platform) (start host answers) (values.map .setValue) = some state →
      Follows values state := by
  induction values using List.reverseRecOn with
  | nil =>
    intro state ran
    cases ran
    exact ⟨LoggerManager.new_wellFormed host answers, LoggerManager.new_separate host answers,
      LoggerManager.new_pattern host answers,
      fun d member => absurd member (KeyedSet.not_mem_empty d),
      fun d member => absurd member (KeyedSet.not_mem_empty d)⟩
  | append_singleton values val ih =>
    intro state ran
    rw [List.map_append, List.map_singleton, Transition.run_concat,
      Option.bind_eq_some_iff] at ran
    obtain ⟨middle, ran, stepped⟩ := ran
    exact (ih ran).setValue stepped

/-- Values that are settable one after the other have known types. -/
theorem known_of_isChain (values : List LogDefines) :
    ∀ {m_val : LogDefines}, m_val.KnownTypes → (m_val :: values).IsChain Settable →
      ∀ val ∈ values, val.KnownTypes := by
  induction values with
  | nil => exact fun _ _ _ member => nomatch member
  | cons val rest ih =>
    intro m_val known chain
    obtain ⟨settable, chain⟩ := List.isChain_cons_cons.mp chain
    have first : val.KnownTypes := by
      rcases settable with rfl | ⟨first, -⟩
      · exact known
      · exact first
    exact List.forall_mem_cons.mpr ⟨first, ih first chain⟩

/-- A set of known types can be set first. -/
theorem run_first (platform : Platform) (host : Host) (answers : Nat → Environment)
    {val : LogDefines} (known : val.KnownTypes) :
    ∃ state, Transition.run (step platform) (start host answers) [.setValue val] = some state := by
  have fresh : NoneUnchanged ∅ val := fun d _ => (Option.some_ne_none d).symm
  exact (@setValues_return_iff platform [val] (start host answers)
    (LoggerManager.new_wellFormed host answers) (LoggerManager.new_formatted host answers)).mpr
    (List.isChain_cons_cons.mpr ⟨.inr ⟨known, fresh⟩, .singleton _⟩)

/-- Applying the sets in order and applying the last one alone both complete, and the
loggers that the last one defines are the same. -/
def OnlyLastCounts (platform : Platform) (host : Host) (answers : Nat → Environment)
    (host' : Host) (answers' : Nat → Environment) (earlier : List LogDefines)
    (last : LogDefines) : Prop :=
  ∃ final alone,
    Transition.run (step platform) (start host answers) ((earlier ++ [last]).map .setValue) =
      some final ∧
    Transition.run (step platform) (start host' answers') [.setValue last] = some alone ∧
    ∀ d ∈ last, final.log.view d.name = alone.log.view d.name

theorem onlyLastCounts_iff_inherited (host' : Host) (answers' : Nat → Environment)
    (earlier : List LogDefines) (last : LogDefines) :
    OnlyLastCounts platform host answers host' answers' earlier last ↔
      (∅ :: (earlier ++ [last])).IsChain Settable ∧
        ∀ d ∈ last, inherited (earlier ++ [last]) d.name = inherited [last] d.name := by
  have completes := @setValues_return_iff platform (earlier ++ [last]) (start host answers)
    (LoggerManager.new_wellFormed host answers) (LoggerManager.new_formatted host answers)
  have agree : ∀ {final alone : Logging},
      Transition.run (step platform) (start host answers) ((earlier ++ [last]).map .setValue) =
        some final →
      Transition.run (step platform) (start host' answers') [.setValue last] = some alone →
      ((∀ d ∈ last, final.log.view d.name = alone.log.view d.name) ↔
        ∀ d ∈ last, inherited (earlier ++ [last]) d.name = inherited [last] d.name) := by
    intro final alone ran single
    have history := run_follows (earlier ++ [last]) ran
    have fresh := run_follows [last] single
    have stored : final.m_val = last := by
      rw [run_setValues_m_val platform _ ran, List.getLastD_concat]
    have storedAlone : alone.m_val = last := run_setValues_m_val platform [last] single
    refine forall₂_congr fun d member => ?_
    rw [history.view d (stored ▸ member), fresh.view d (storedAlone ▸ member)]
    exact ⟨fun same => congrArg LoggerView.formatter same, fun same => by rw [same]⟩
  constructor
  · rintro ⟨final, alone, ran, single, same⟩
    exact ⟨completes.mp ⟨final, ran⟩, (agree ran single).mp same⟩
  · rintro ⟨chain, same⟩
    have none : KnownTypes ∅ := fun d member => absurd member (KeyedSet.not_mem_empty d)
    have known : last.KnownTypes := known_of_isChain _ none chain last (by simp)
    obtain ⟨final, ran⟩ := completes.mpr chain
    obtain ⟨alone, single⟩ := run_first platform host' answers' known
    exact ⟨final, alone, ran, single, (agree ran single).mpr same⟩

/-- The loggers depend on the last set only, exactly if every set can be set and each of
its definitions has a usable formatter of its own or comes to a logger with the default. -/
theorem onlyLastCounts_iff (host' : Host) (answers' : Nat → Environment)
    (earlier : List LogDefines) (last : LogDefines) :
    OnlyLastCounts platform host answers host' answers' earlier last ↔
      (∅ :: (earlier ++ [last])).IsChain Settable ∧
        ∀ d ∈ last, Usable d.formatter ∨ inherited earlier d.name = some defaultPattern := by
  rw [onlyLastCounts_iff_inherited]
  refine and_congr_right fun _ => forall₂_congr fun d member => ?_
  have single : inherited [last] d.name = d.pattern (some defaultPattern) :=
    LogDefines.pattern_of_mem member _
  rw [inherited_concat, LogDefines.pattern_of_mem member, single]
  exact d.pattern_eq_iff _ _

/-- A definition without a formatter leaves the logger with that of the earlier one. -/
theorem formatter_outlives_its_definition :
    ¬ OnlyLastCounts default default default default default
      [⟨[{ name := "root", level := .INFO, formatter := "%m%n" }], by simp⟩]
      ⟨[{ name := "root", level := .INFO }], by simp⟩ := by
  rw [onlyLastCounts_iff_inherited]
  rintro ⟨-, same⟩
  exact absurd (same _ (.head _)) (by decide +kernel)

end Logging

end Chord
