import ChordServer.Logger

set_option autoImplicit false

namespace Chord

/-- The manager's map and the loggers' own names agree, every logger but the root falls
back on the root, and the appenders that a logger holds exist. -/
structure LogSystem.WellFormed (s : LogSystem) : Prop where
  registered : ∀ p < s.loggerCount, s.m_logger.find (s.loggers p).m_name =
    some ((s.loggers p).m_name, p)
  named : ∀ entry ∈ s.m_logger, entry.2 < s.loggerCount ∧ (s.loggers entry.2).m_name = entry.1
  root : s.m_root < s.loggerCount ∧ (s.loggers s.m_root).m_root = none
  child : ∀ p < s.loggerCount, p ≠ s.m_root → (s.loggers p).m_root = some s.m_root
  held : ∀ p < s.loggerCount, ∀ a ∈ (s.loggers p).m_appenders, a < s.appenderCount

/-- The logger of a name: the registered one, or the one that `getLogger` would make. -/
def LogSystem.named (s : LogSystem) (name : String) : Logger :=
  match s.m_logger.find name with
  | some it => s.loggers it.2
  | none => { m_name := name, m_root := some s.m_root }

/-- The second system differs from the first in nothing but the appenders, and has all
that the first has. -/
structure LogSystem.SameLoggers (s t : LogSystem) : Prop where
  m_logger : t.m_logger = s.m_logger
  m_root : t.m_root = s.m_root
  loggers : t.loggers = s.loggers
  loggerCount : t.loggerCount = s.loggerCount
  appenderCount : s.appenderCount ≤ t.appenderCount

/-- The second system differs from the first in the logger at `p`, which has kept its name
and its root, and in the appenders. -/
structure LogSystem.Changed (s t : LogSystem) (p : LoggerPtr) : Prop where
  m_logger : t.m_logger = s.m_logger
  m_root : t.m_root = s.m_root
  loggerCount : t.loggerCount = s.loggerCount
  appenderCount : s.appenderCount ≤ t.appenderCount
  other : ∀ q, q ≠ p → t.loggers q = s.loggers q
  name : (t.loggers p).m_name = (s.loggers p).m_name
  root : (t.loggers p).m_root = (s.loggers p).m_root
  held : ∀ a ∈ (t.loggers p).m_appenders, a < t.appenderCount

/-- No formatter that an event may come to is null. -/
structure LogSystem.Formatted (s : LogSystem) : Prop where
  logger : ∀ p < s.loggerCount, (s.loggers p).m_formatter.isSome
  appender : ∀ p < s.loggerCount, ∀ a ∈ (s.loggers p).m_appenders,
    (s.appenders a).base.m_formatter.isSome

/-- The second system has the loggers of the first, and they have kept their names. -/
structure LogSystem.Extends (s t : LogSystem) : Prop where
  loggerCount : s.loggerCount ≤ t.loggerCount
  name : ∀ p < s.loggerCount, (t.loggers p).m_name = (s.loggers p).m_name

namespace LogSystem

variable {s t : LogSystem} {p q : LoggerPtr} {name : String}

theorem Extends.refl (s : LogSystem) : s.Extends s := ⟨Nat.le_refl _, fun _ _ => rfl⟩

theorem Extends.trans {u : LogSystem} (first : s.Extends t) (second : t.Extends u) : s.Extends u :=
  ⟨first.loggerCount.trans second.loggerCount, fun p inside =>
    (second.name p (inside.trans_le first.loggerCount)).trans (first.name p inside)⟩

theorem Changed.extension (changed : s.Changed t p) : s.Extends t := by
  refine ⟨changed.loggerCount.ge, fun q _ => ?_⟩
  by_cases same : q = p
  · rw [same, changed.name]
  · rw [changed.other q same]

theorem SameLoggers.extension (same : s.SameLoggers t) : s.Extends t :=
  ⟨same.loggerCount.ge, fun p _ => by rw [same.loggers]⟩

theorem WellFormed.find (wf : s.WellFormed) {it : String × LoggerPtr}
    (found : s.m_logger.find name = some it) :
    it.2 < s.loggerCount ∧ (s.loggers it.2).m_name = name := by
  obtain ⟨member, rfl⟩ := KeyedSet.find_eq_some_iff.mp found
  exact wf.named it member

/-- Different loggers have different names. -/
theorem WellFormed.name_inj (wf : s.WellFormed) (first : p < s.loggerCount)
    (second : q < s.loggerCount) (same : (s.loggers p).m_name = (s.loggers q).m_name) : p = q := by
  have found := wf.registered p first
  rw [same, wf.registered q second] at found
  exact (Prod.mk.inj (Option.some.inj found)).2.symm

theorem WellFormed.named_name (wf : s.WellFormed) (inside : p < s.loggerCount) :
    s.named (s.loggers p).m_name = s.loggers p := by
  rw [LogSystem.named, wf.registered p inside]

/-- A logger that holds appenders is one that there is. -/
theorem WellFormed.registered_of_held (wf : s.WellFormed) {a : AppenderPtr}
    (held : a ∈ (s.named name).m_appenders) :
    ∃ p < s.loggerCount, (s.loggers p).m_name = name ∧ s.named name = s.loggers p := by
  unfold LogSystem.named at held ⊢
  cases found : s.m_logger.find name with
  | none =>
    rw [found] at held
    cases held
  | some it =>
    obtain ⟨inside, same⟩ := wf.find found
    exact ⟨it.2, inside, same, rfl⟩

theorem SameLoggers.refl (s : LogSystem) : s.SameLoggers s := ⟨rfl, rfl, rfl, rfl, Nat.le_refl _⟩

theorem SameLoggers.trans {u : LogSystem} (first : s.SameLoggers t) (second : t.SameLoggers u) :
    s.SameLoggers u :=
  ⟨second.m_logger.trans first.m_logger, second.m_root.trans first.m_root,
    second.loggers.trans first.loggers, second.loggerCount.trans first.loggerCount,
    first.appenderCount.trans second.appenderCount⟩

theorem SameLoggers.named (same : s.SameLoggers t) : t.named = s.named := by
  funext name
  rw [LogSystem.named, LogSystem.named, same.m_logger, same.loggers, same.m_root]

theorem SameLoggers.wellFormed (same : s.SameLoggers t) (wf : s.WellFormed) : t.WellFormed := by
  obtain ⟨m_logger, m_root, loggers, loggerCount, grown⟩ := same
  constructor
  · rw [m_logger, loggers, loggerCount]
    exact wf.registered
  · rw [m_logger, loggers, loggerCount]
    exact wf.named
  · rw [m_root, loggers, loggerCount]
    exact wf.root
  · rw [m_root, loggers, loggerCount]
    exact wf.child
  · rw [loggers, loggerCount]
    exact fun p inside a held => (wf.held p inside a held).trans_le grown

theorem Changed.wellFormed (changed : s.Changed t p) (wf : s.WellFormed) : t.WellFormed := by
  have names : ∀ q, (t.loggers q).m_name = (s.loggers q).m_name := by
    intro q
    by_cases same : q = p
    · rw [same, changed.name]
    · rw [changed.other q same]
  have roots : ∀ q, (t.loggers q).m_root = (s.loggers q).m_root := by
    intro q
    by_cases same : q = p
    · rw [same, changed.root]
    · rw [changed.other q same]
  constructor
  · rw [changed.m_logger, changed.loggerCount]
    intro q inside
    rw [names]
    exact wf.registered q inside
  · rw [changed.m_logger, changed.loggerCount]
    intro entry member
    rw [names]
    exact wf.named entry member
  · rw [changed.m_root, changed.loggerCount, roots]
    exact wf.root
  · rw [changed.m_root, changed.loggerCount]
    intro q inside apart
    rw [roots]
    exact wf.child q inside apart
  · rw [changed.loggerCount]
    intro q inside a member
    by_cases same : q = p
    · exact changed.held a (same ▸ member)
    · rw [changed.other q same] at member
      exact (wf.held q inside a member).trans_le changed.appenderCount

theorem Changed.named (changed : s.Changed t p) (wf : s.WellFormed) (inside : p < s.loggerCount)
    (name : String) :
    t.named name = if name = (s.loggers p).m_name then t.loggers p else s.named name := by
  unfold LogSystem.named
  rw [changed.m_logger, changed.m_root]
  split_ifs with same
  · subst same
    rw [wf.registered p inside]
  · cases found : s.m_logger.find name with
    | none => rfl
    | some it =>
      have apart : it.2 ≠ p := by
        rintro rfl
        exact same (wf.find found).2.symm
      exact changed.other it.2 apart

/-- A change keeps the formatters if the changed logger has one and every appender it
holds has one. -/
theorem Changed.formatted_of (changed : s.Changed t p)
    (appenders : ∀ a < s.appenderCount, (s.appenders a).base.m_formatter.isSome →
      (t.appenders a).base.m_formatter.isSome)
    (made : ∀ q < s.loggerCount, ∀ a ∈ (s.loggers q).m_appenders, a < s.appenderCount)
    (logger : (t.loggers p).m_formatter.isSome)
    (held : ∀ a ∈ (t.loggers p).m_appenders, (t.appenders a).base.m_formatter.isSome)
    (formatted : s.Formatted) : t.Formatted := by
  constructor
  · rw [changed.loggerCount]
    intro q inside
    by_cases here : q = p
    · rwa [here]
    · rw [changed.other q here]
      exact formatted.logger q inside
  · rw [changed.loggerCount]
    intro q inside a member
    by_cases here : q = p
    · exact held a (here ▸ member)
    · rw [changed.other q here] at member
      exact appenders a (made q inside a member) (formatted.appender q inside a member)

/-- A change of one logger's members other than its name and its root. -/
theorem changed_setLogger {logger : Logger} (name : logger.m_name = (s.loggers p).m_name)
    (root : logger.m_root = (s.loggers p).m_root)
    (held : ∀ a ∈ logger.m_appenders, a < s.appenderCount) :
    s.Changed (s.setLogger p logger) p :=
  ⟨rfl, rfl, rfl, Nat.le_refl _, fun _ apart => setLogger_other s logger apart,
    by rw [setLogger_self, name], by rw [setLogger_self, root],
    by rw [setLogger_self]; exact held⟩

end LogSystem

namespace LoggerManager

open LogSystem

variable {s : LogSystem}

/-- `getLogger` returns the logger of the name and changes no logger that there is. -/
structure Got (s : LogSystem) (name : String) (t : LogSystem) (p : LoggerPtr) : Prop where
  wellFormed : t.WellFormed
  inside : p < t.loggerCount
  called : (t.loggers p).m_name = name
  named : t.named = s.named
  grown : s.loggerCount ≤ t.loggerCount
  loggers : ∀ q < s.loggerCount, t.loggers q = s.loggers q
  fresh : ∀ q < t.loggerCount, s.loggerCount ≤ q →
    t.loggers q = { m_name := name, m_root := some s.m_root }
  appenders : t.appenders = s.appenders
  appenderCount : t.appenderCount = s.appenderCount

theorem getLogger_got (wf : s.WellFormed) (name : String) :
    Got s name (getLogger s name).1 (getLogger s name).2 := by
  unfold getLogger
  split
  · rename_i it found
    obtain ⟨inside, same⟩ := wf.find found
    exact ⟨wf, inside, same, rfl, Nat.le_refl _, fun _ _ => rfl,
      fun q bound above => absurd bound (Nat.not_lt.mpr above), rfl, rfl⟩
  · rename_i missing
    let made : Logger := { m_name := name, m_root := some s.m_root }
    have old : ∀ q < s.loggerCount, Function.update s.loggers s.loggerCount made q = s.loggers q :=
      fun q bound => Function.update_of_ne (Nat.ne_of_lt bound) _ _
    have new : Function.update s.loggers s.loggerCount made s.loggerCount = made :=
      Function.update_self _ _ _
    have last : ∀ q < s.loggerCount + 1, s.loggerCount ≤ q → q = s.loggerCount :=
      fun q bound above => by omega
    have other : ∀ n, n ≠ name →
        (s.m_logger.insert (name, s.loggerCount)).find n = s.m_logger.find n := by
      intro n apart
      rw [KeyedSet.find_insert, if_neg (Ne.symm apart)]
    have self : (s.m_logger.insert (name, s.loggerCount)).find name =
        some (name, s.loggerCount) := by
      rw [KeyedSet.find_insert, if_pos rfl, missing, Option.getD_none]
    have unnamed : ∀ q < s.loggerCount, (s.loggers q).m_name ≠ name := by
      rintro q bound rfl
      rw [wf.registered q bound] at missing
      cases missing
    refine ⟨⟨?_, ?_, ?_, ?_, ?_⟩, Nat.lt_succ_self _, congrArg Logger.m_name new, ?_,
      Nat.le_succ _, old, ?_, rfl, rfl⟩
    · intro q bound
      dsimp only [setLogger]
      rcases Nat.lt_succ_iff_lt_or_eq.mp bound with before | rfl
      · rw [old q before, other _ (unnamed q before), wf.registered q before]
      · rw [new, self]
    · intro entry member
      dsimp only [setLogger]
      rcases KeyedSet.mem_insert.mp member with present | ⟨rfl, -⟩
      · obtain ⟨bound, same⟩ := wf.named entry present
        exact ⟨Nat.lt_succ_of_lt bound, by rw [old _ bound, same]⟩
      · exact ⟨Nat.lt_succ_self _, congrArg Logger.m_name new⟩
    · exact ⟨Nat.lt_succ_of_lt wf.root.1,
        (congrArg Logger.m_root (old _ wf.root.1)).trans wf.root.2⟩
    · intro q bound apart
      dsimp only [setLogger]
      rcases Nat.lt_succ_iff_lt_or_eq.mp bound with before | rfl
      · rw [old q before]
        exact wf.child q before apart
      · rw [new]
    · intro q bound a member
      dsimp only [setLogger] at member
      rcases Nat.lt_succ_iff_lt_or_eq.mp bound with before | rfl
      · rw [old q before] at member
        exact wf.held q before a member
      · rw [new] at member
        cases member
    · funext n
      unfold LogSystem.named
      by_cases same : n = name
      · subst same
        simp only [self, missing]
        exact new
      · dsimp only [setLogger]
        rw [other n same]
        cases found : s.m_logger.find n with
        | none => rfl
        | some it => exact old it.2 (wf.find found).1
    · intro q bound above
      obtain rfl := last q bound above
      exact new

theorem Got.extension {name : String} {t : LogSystem} {p : LoggerPtr} (got : Got s name t p) :
    s.Extends t := ⟨got.grown, fun q bound => by rw [got.loggers q bound]⟩

theorem Got.formatted {name : String} {t : LogSystem} {p : LoggerPtr} (got : Got s name t p)
    (formatted : s.Formatted) : t.Formatted := by
  constructor
  · intro q bound
    rcases Nat.lt_or_ge q s.loggerCount with before | after
    · rw [got.loggers q before]
      exact formatted.logger q before
    · rw [got.fresh q bound after]
      rfl
  · intro q bound a held
    rcases Nat.lt_or_ge q s.loggerCount with before | after
    · rw [got.loggers q before] at held
      rw [got.appenders]
      exact formatted.appender q before a held
    · rw [got.fresh q bound after] at held
      cases held

end LoggerManager

end Chord
