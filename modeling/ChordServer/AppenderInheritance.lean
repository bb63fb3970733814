import ChordServer.LoggingInvariant

set_option autoImplicit false

namespace Chord

open LogSystem

/-- Every appender without a formatter of its own has that of the logger that holds it. -/
def LogSystem.Inherits (s : LogSystem) : Prop :=
  ∀ p < s.loggerCount, ∀ a ∈ (s.loggers p).m_appenders,
    (s.appenders a).base.m_has_Formatter = false →
    (s.appenders a).base.m_formatter = (s.loggers p).m_formatter

namespace Logging

/-- The actions that make loggers and appenders, attach and detach appenders, and set
formatters. -/
def Action.attaches : Action → Bool
  | .getLogger _ => true
  | .newFileLogAppender _ => true
  | .newStdOutLogAppender => true
  | .setFormatter _ _ => true
  | .setFormatterString _ _ => true
  | .addAppender _ _ => true
  | .delAppender _ _ => true
  | .clearAppenders _ => true
  | .setAppenderFormatter _ _ => true
  | _ => false

/-- No appender is attached while another logger holds it. -/
def Action.Separates (s : LogSystem) : Action → Prop
  | .addAppender logger appender =>
      ∀ p < s.loggerCount, p ≠ logger → appender ∉ (s.loggers p).m_appenders
  | _ => True

instance (s : LogSystem) (action : Action) : Decidable (action.Separates s) :=
  match action with
  | .addAppender logger appender =>
      inferInstanceAs (Decidable (∀ p < s.loggerCount, p ≠ logger →
        appender ∉ (s.loggers p).m_appenders))
  | .getLogger _ | .setLevel _ _ | .setFormatter _ _ | .setFormatterString _ _
  | .delAppender _ _ | .clearAppenders _ | .newFileLogAppender _ | .newStdOutLogAppender
  | .setAppenderFormatter _ _ | .setAppenderLevel _ _ | .log _ _ _ | .setValue _ => .isTrue trivial

/-- The action may be taken in a run whose appenders belong to one logger at a time. -/
def Action.Possible (s : LogSystem) (action : Action) : Prop :=
  action.attaches = true ∧ action.Valid s ∧ action.Separates s

instance (s : LogSystem) (action : Action) : Decidable (action.Possible s) := by
  unfold Action.Possible
  infer_instance

def attachStep (platform : Platform) (s : LogSystem) (action : Action) : Option LogSystem :=
  if action.Possible s then (act platform s action).toOption else none

/-- An appender without a formatter of its own is attached with no formatter or with the
logger's, and it only loses its own under a logger that has none. -/
def Action.Inherits (s : LogSystem) : Action → Prop
  | .addAppender logger appender =>
      (s.appenders appender).base.m_has_Formatter = false →
      (s.appenders appender).base.m_formatter = none ∨
        (s.appenders appender).base.m_formatter = (s.loggers logger).m_formatter
  | .setAppenderFormatter appender none =>
      ∀ p < s.loggerCount, appender ∈ (s.loggers p).m_appenders → (s.loggers p).m_formatter = none
  | _ => True

end Logging

theorem LogSystem.updateAppender_base (s : LogSystem) (a : AppenderPtr)
    (f : LogAppender → LogAppender) (b : AppenderPtr) :
    ((s.updateAppender a f).appenders b).base =
      if b = a then f (s.appenders b).base else (s.appenders b).base := by
  unfold updateAppender
  split_ifs with here
  · rw [here, setAppender_self, Appender.base_update]
  · rw [setAppender_other s _ here]

namespace Logger

/-- An appender without a formatter of its own follows the logger. -/
def follow (val : Option LogFormatter) (base : LogAppender) : LogAppender :=
  if base.m_has_Formatter then base else { base with m_formatter := val }

theorem followFormatter_base (val : Option LogFormatter) (s : LogSystem) (i b : AppenderPtr) :
    ((followFormatter val s i).appenders b).base =
      if b = i then follow val (s.appenders b).base else (s.appenders b).base := by
  unfold followFormatter follow
  by_cases here : b = i
  · subst here
    rw [if_pos rfl]
    split
    · rfl
    · rw [updateAppender_base, if_pos rfl]
  · rw [if_neg here]
    split
    · rfl
    · rw [updateAppender_base, if_neg here]

theorem follow_follow (val : Option LogFormatter) (base : LogAppender) :
    follow val (follow val base) = follow val base := by
  unfold follow
  by_cases own : base.m_has_Formatter = true <;> simp [own]

/-- The loop of `setFormatter` makes the listed appenders follow. -/
theorem foldl_followFormatter_base (val : Option LogFormatter) (list : List AppenderPtr) :
    ∀ (s : LogSystem) (b : AppenderPtr),
      ((list.foldl (followFormatter val) s).appenders b).base =
        if b ∈ list then follow val (s.appenders b).base else (s.appenders b).base := by
  induction list with
  | nil => exact fun s b => rfl
  | cons i rest ih =>
    intro s b
    rw [List.foldl_cons, ih, followFormatter_base]
    by_cases here : b = i
    · simp [here, follow_follow]
    · simp [here]

variable (s : LogSystem) (p : LoggerPtr)

theorem setFormatter_base (val : Option LogFormatter) (b : AppenderPtr) :
    ((setFormatter s p val).appenders b).base =
      if b ∈ (s.loggers p).m_appenders then follow val (s.appenders b).base
      else (s.appenders b).base := by
  rw [setFormatter, setLogger_self, foldl_followFormatter_base]
  rfl

theorem addAppender_base (a b : AppenderPtr) :
    ((addAppender s p a).appenders b).base =
      if b = a ∧ (s.appenders a).base.m_formatter = none then
        { (s.appenders a).base with m_formatter := (s.loggers p).m_formatter }
      else (s.appenders b).base := by
  unfold addAppender LogAppender.getFormatter
  by_cases bare : (s.appenders a).base.m_formatter = none
  · simp only [bare, Option.isNone_none, if_true, setLogger_appenders, updateAppender_base,
      and_true]
    split_ifs with here
    · rw [here]
    · rfl
  · have kept : ¬ ((s.appenders a).base.m_formatter.isNone = true) := by simpa using bare
    simp only [if_neg kept, setLogger_appenders]
    rw [if_neg fun both => bare both.2]

/-- A pattern with an error changes no logger and no appender. -/
theorem setFormatterString_error {val : String} (error : (LogFormatter.mk val).isError = true) :
    (setFormatterString s p val).loggers = s.loggers ∧
      (setFormatterString s p val).appenders = s.appenders := by
  unfold setFormatterString
  dsimp only
  rw [if_pos error]
  exact ⟨rfl, rfl⟩

end Logger

namespace LogSystem

variable {s t : LogSystem}

/-- A change that attaches no appender and sets no formatter of one that is attached. -/
theorem Inherits.of_fewer (inherits : s.Inherits) (separate : s.Separate)
    (loggers : ∀ p < t.loggerCount, (t.loggers p).m_appenders = [] ∨
      p < s.loggerCount ∧ (t.loggers p).m_formatter = (s.loggers p).m_formatter ∧
        ∀ a ∈ (t.loggers p).m_appenders, a ∈ (s.loggers p).m_appenders)
    (appenders : ∀ p < s.loggerCount, ∀ a ∈ (s.loggers p).m_appenders,
      (t.appenders a).base = (s.appenders a).base) :
    t.Separate ∧ t.Inherits := by
  have old : ∀ p < t.loggerCount, ∀ a ∈ (t.loggers p).m_appenders,
      p < s.loggerCount ∧ (t.loggers p).m_formatter = (s.loggers p).m_formatter ∧
        a ∈ (s.loggers p).m_appenders := by
    intro p inside a held
    rcases loggers p inside with empty | ⟨was, formatter, fewer⟩
    · rw [empty] at held
      cases held
    · exact ⟨was, formatter, fewer a held⟩
  constructor
  · intro p first q second apart a held other
    obtain ⟨wasFirst, -, held⟩ := old p first a held
    obtain ⟨wasSecond, -, other⟩ := old q second a other
    exact separate p wasFirst q wasSecond apart a held other
  · intro p inside a held own
    obtain ⟨was, formatter, held⟩ := old p inside a held
    rw [appenders p was a held] at own ⊢
    rw [formatter]
    exact inherits p was a held own

theorem Inherits.setFormatter {p : LoggerPtr} (inside : p < s.loggerCount)
    (val : Option LogFormatter) (separate : s.Separate) (inherits : s.Inherits) :
    (Logger.setFormatter s p val).Separate ∧ (Logger.setFormatter s p val).Inherits := by
  have reformatted := Logger.setFormatter_reformatted s p val
  have lists : ∀ q, ((Logger.setFormatter s p val).loggers q).m_appenders =
      (s.loggers q).m_appenders := by
    intro q
    by_cases here : q = p
    · rw [here, reformatted.self]
    · rw [reformatted.other q here]
  constructor
  · unfold Separate
    simp only [reformatted.loggerCount, lists]
    exact separate
  · unfold Inherits
    simp only [reformatted.loggerCount, lists, Logger.setFormatter_base]
    intro q bound a held own
    by_cases here : q = p
    · subst here
      rw [if_pos held] at own ⊢
      rw [reformatted.self]
      unfold Logger.follow at own ⊢
      split at own
      · rename_i has
        rw [has] at own
        cases own
      · rename_i has
        rw [if_neg has]
    · rw [if_neg (separate q bound p inside here a held)] at own ⊢
      rw [reformatted.other q here]
      exact inherits q bound a held own

theorem Separate.addAppender {p : LoggerPtr} {a : AppenderPtr} (separate : s.Separate)
    (free : ∀ q < s.loggerCount, q ≠ p → a ∉ (s.loggers q).m_appenders) :
    (Logger.addAppender s p a).Separate := by
  have lists : ∀ q b, b ∈ ((Logger.addAppender s p a).loggers q).m_appenders →
      b ∈ (s.loggers q).m_appenders ∨ q = p ∧ b = a := by
    intro q b held
    rw [Logger.addAppender_loggers] at held
    split_ifs at held with here
    · rcases List.mem_append.mp held with held | held
      · exact .inl (here ▸ held)
      · exact .inr ⟨here, List.mem_singleton.mp held⟩
    · exact .inl held
  unfold Separate
  rw [Logger.addAppender_loggerCount]
  intro q first r second apart b held other
  rcases lists q b held with was | ⟨here, added⟩
  · rcases lists r b other with also | ⟨there, added⟩
    · exact separate q first r second apart b was also
    · exact free q first (there ▸ apart) (added ▸ was)
  · rcases lists r b other with also | ⟨there, -⟩
    · exact free r second (here ▸ apart.symm) (added ▸ also)
    · exact apart (here.trans there.symm)

theorem Inherits.addAppender {p : LoggerPtr} {a : AppenderPtr} (inherits : s.Inherits)
    (agrees : (s.appenders a).base.m_has_Formatter = false →
      (s.appenders a).base.m_formatter = none ∨
        (s.appenders a).base.m_formatter = (s.loggers p).m_formatter)
    (free : ∀ q < s.loggerCount, q ≠ p → a ∉ (s.loggers q).m_appenders)
    (inside : p < s.loggerCount) : (Logger.addAppender s p a).Inherits := by
  unfold Inherits
  rw [Logger.addAppender_loggerCount]
  intro q bound b held own
  have kept : b ∈ (s.loggers q).m_appenders → b ≠ a →
      ((Logger.addAppender s p a).appenders b).base.m_formatter = (s.loggers q).m_formatter := by
    intro was other
    rw [Logger.addAppender_base, if_neg fun both => other both.1] at own ⊢
    exact inherits q bound b was own
  rw [Logger.addAppender_loggers] at held ⊢
  split_ifs at held ⊢ with here
  · subst here
    by_cases same : b = a
    · subst same
      rw [Logger.addAppender_base] at own ⊢
      split_ifs at own ⊢ with bare
      · rfl
      · exact (agrees own).resolve_left fun none => bare ⟨rfl, none⟩
    · rcases List.mem_append.mp held with was | added
      · exact kept was same
      · exact absurd (List.mem_singleton.mp added) same
  · exact kept held fun same => free q bound here (same ▸ held)

/-- An appender that loses its own formatter is held by no logger that has one. -/
theorem Inherits.setAppenderFormatter {a : AppenderPtr} {val : Option LogFormatter}
    (inherits : s.Inherits)
    (bare : val = none → ∀ p < s.loggerCount, a ∈ (s.loggers p).m_appenders →
      (s.loggers p).m_formatter = none) :
    (s.updateAppender a fun base => base.setFormatter val).Inherits := by
  intro p inside b held own
  rw [updateAppender_base] at own ⊢
  split_ifs at own ⊢ with here
  · subst here
    have lost : val = none :=
      Option.isNone_iff_eq_none.mp (by simpa [LogAppender.setFormatter] using own)
    exact lost.trans (bare lost p inside held).symm
  · exact inherits p inside b held own

end LogSystem

namespace Logging

variable {platform : Platform} {s t : LogSystem} {action : Action}

theorem attachStep_some (stepped : attachStep platform s action = some t) :
    action.Possible s ∧ act platform s action = .ok t := by
  unfold attachStep at stepped
  split at stepped
  · rename_i possible
    refine ⟨possible, ?_⟩
    cases acted : act platform s action with
    | error fault => rw [acted] at stepped; cases stepped
    | ok u =>
      rw [acted] at stepped
      exact congrArg Except.ok (Option.some.inj stepped)
  · cases stepped

/-- Nothing but a check that fails stops these actions. -/
theorem not_possible_of_blocked (blocked : attachStep platform s action = none) :
    ¬ action.Possible s := by
  intro possible
  have acts : ∃ t, act platform s action = .ok t := by
    cases action with
    | setLevel => cases possible.1
    | setAppenderLevel => cases possible.1
    | log => cases possible.1
    | setValue => cases possible.1
    | _ => exact ⟨_, rfl⟩
  obtain ⟨t, acted⟩ := acts
  rw [attachStep, if_pos possible, acted] at blocked
  cases blocked

/-- What holds along the runs in which the two tests for a formatter agree. -/
structure Attached (s : LogSystem) : Prop where
  wellFormed : s.WellFormed
  separate : s.Separate
  inherits : s.Inherits

theorem attached_new (host : Host) (answers : Nat → Environment) :
    Attached (LoggerManager.new host answers) := by
  refine ⟨LoggerManager.new_wellFormed host answers, LoggerManager.new_separate host answers, ?_⟩
  intro p inside a held own
  rw [(LoggerManager.new_loggers host answers p inside).2] at held ⊢
  obtain rfl := List.mem_singleton.mp held
  rfl

theorem Attached.step (attached : Attached s) (stepped : attachStep platform s action = some t)
    (sound : action.Inherits s) : Attached t := by
  obtain ⟨⟨attaches, valid, separates⟩, acted⟩ := attachStep_some stepped
  obtain ⟨wf, separate, inherits⟩ := attached
  suffices kept : t.Separate ∧ t.Inherits from
    ⟨(act_keeps wf valid acted).1, kept.1, kept.2⟩
  cases action with
  | getLogger name =>
    cases acted
    have got := LoggerManager.getLogger_got wf name
    refine inherits.of_fewer separate (fun p inside => ?_) fun p _ a _ => by rw [got.appenders]
    rcases Nat.lt_or_ge p s.loggerCount with before | after
    · rw [got.loggers p before]
      exact .inr ⟨before, rfl, fun _ held => held⟩
    · rw [got.fresh p inside after]
      exact .inl rfl
  | newFileLogAppender filename =>
    cases acted
    refine inherits.of_fewer separate (fun p inside => .inr ⟨inside, rfl, fun _ held => held⟩)
      fun p inside a held => ?_
    exact congrArg _ (setAppender_other s _ (Nat.ne_of_lt (wf.held p inside a held)))
  | newStdOutLogAppender =>
    cases acted
    refine inherits.of_fewer separate (fun p inside => .inr ⟨inside, rfl, fun _ held => held⟩)
      fun p inside a held => ?_
    exact congrArg _ (setAppender_other s _ (Nat.ne_of_lt (wf.held p inside a held)))
  | setFormatter logger val =>
    cases acted
    exact Inherits.setFormatter valid val separate inherits
  | setFormatterString logger val =>
    cases acted
    unfold Logger.setFormatterString
    dsimp only
    split
    · exact ⟨separate, inherits⟩
    · exact Inherits.setFormatter valid _ separate inherits
  | addAppender logger appender =>
    cases acted
    exact ⟨separate.addAppender separates, inherits.addAppender sound separates valid.1⟩
  | delAppender logger appender =>
    cases acted
    refine inherits.of_fewer separate (fun p inside => .inr ⟨inside, ?_⟩) fun _ _ _ _ => rfl
    unfold Logger.delAppender
    by_cases here : p = logger
    · rw [here, setLogger_self]
      exact ⟨rfl, fun _ held => List.mem_of_mem_erase held⟩
    · rw [setLogger_other s _ here]
      exact ⟨rfl, fun _ held => held⟩
  | clearAppenders logger =>
    cases acted
    refine inherits.of_fewer separate (fun p inside => ?_) fun _ _ _ _ => rfl
    unfold Logger.clearAppenders
    by_cases here : p = logger
    · rw [here, setLogger_self]
      exact .inl rfl
    · rw [setLogger_other s _ here]
      exact .inr ⟨inside, rfl, fun _ held => held⟩
  | setAppenderFormatter appender val =>
    cases acted
    refine ⟨separate, inherits.setAppenderFormatter fun lost => ?_⟩
    rw [lost] at sound
    exact sound
  | _ => cases attaches

/-- A step after which every appender still inherits has met the condition. -/
theorem inherits_of_step (stepped : attachStep platform s action = some t)
    (inherits : t.Inherits) : action.Inherits s := by
  obtain ⟨⟨attaches, valid, separates⟩, acted⟩ := attachStep_some stepped
  cases action with
  | addAppender logger appender =>
    cases acted
    intro own
    by_cases bare : (s.appenders appender).base.m_formatter = none
    · exact .inl bare
    · have same := inherits logger
        (by rw [Logger.addAppender_loggerCount]; exact valid.1) appender
      rw [Logger.addAppender_loggers, if_pos rfl, Logger.addAppender_base,
        if_neg fun both => bare both.2] at same
      exact .inr (same (List.mem_append_right _ List.mem_cons_self) own)
  | setAppenderFormatter appender val =>
    cases acted
    cases val with
    | some formatter => trivial
    | none =>
      intro p inside held
      have same := inherits p inside appender held
      rw [updateAppender_base, if_pos rfl] at same
      exact (same rfl).symm
  | _ => trivial

/-- Along a run whose appenders belong to one logger at a time, those without a formatter
of their own have their logger's exactly if none is attached with another one or loses its
own under a logger that has one. A pattern with an error changes nothing in any state. -/
theorem inherits_iff (platform : Platform) (host : Host) (answers : Nat → Environment)
    (actions : List Action) :
    (∀ (s : LogSystem) (logger : LoggerPtr) (val : String), (LogFormatter.mk val).isError = true →
      (Logger.setFormatterString s logger val).loggers = s.loggers ∧
        (Logger.setFormatterString s logger val).appenders = s.appenders) ∧
    (Transition.EveryState (attachStep platform) Inherits (LoggerManager.new host answers)
        actions ↔
      Transition.StepsMeet (attachStep platform)
        (fun s action => action.Possible s → action.Inherits s) (LoggerManager.new host answers)
        actions) := by
  refine ⟨fun s logger val => Logger.setFormatterString_error s logger, ?_⟩
  refine Transition.everyState_iff_stepsMeet (fun _ attached => Attached.inherits attached)
    ?_ ?_ ?_ (attached_new host answers)
  · exact fun s action t attached stepped sound =>
      attached.step stepped (sound (attachStep_some stepped).1)
  · exact fun s action t attached stepped inherits _ => inherits_of_step stepped inherits
  · exact fun s action attached blocked possible =>
      absurd possible (not_possible_of_blocked blocked)

/-- An appender that moves from the root to another logger keeps the root's formatter. -/
theorem moved_appender_keeps_formatter :
    ¬ Transition.EveryState (attachStep default) Inherits (LoggerManager.new default default)
      [.getLogger "a", .setFormatter 1 (some ⟨"%m"⟩), .delAppender 0 0, .addAppender 1 0] := by
  intro every
  have ends : (Transition.run (attachStep default) (LoggerManager.new default default)
      [.getLogger "a", .setFormatter 1 (some ⟨"%m"⟩), .delAppender 0 0, .addAppender 1 0]).map
        (fun s => (s.loggerCount, (s.loggers 1).m_appenders, (s.loggers 1).m_formatter,
          (s.appenders 0).base)) =
      some (2, [0], some ⟨"%m"⟩, { m_formatter := some ⟨defaultPattern⟩ }) := by decide
  obtain ⟨final, ran, same⟩ := Option.map_eq_some_iff.mp ends
  simp only [Prod.mk.injEq] at same
  obtain ⟨count, held, formatter, base⟩ := same
  have inherits := every _ [] final (by simp) ran 1 (by rw [count]; decide) 0
    (by rw [held]; exact List.mem_cons_self) (by rw [base])
  rw [base, formatter] at inherits
  exact absurd inherits (by decide)

end Logging

end Chord
