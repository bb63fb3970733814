import ChordServer.AppenderInheritance
import ChordServer.RWMutex

set_option autoImplicit false

namespace Chord

/-- Where a thread is in `Logger::addAppender` or `Logger::setFormatter`. It holds the lock of
the logger everywhere but `outside`. At `lend`, `getFormatter()` has returned null; `follow` has
the appenders that the loop has still to come to. -/
inductive FormatterPoint (F : Type)
  | outside
  | check (logger : LoggerPtr) (appender : AppenderPtr)
  | lend (logger : LoggerPtr) (appender : AppenderPtr)
  | push (logger : LoggerPtr) (appender : AppenderPtr)
  | assign (logger : LoggerPtr) (val : Option F)
  | follow (logger : LoggerPtr) (rest : List AppenderPtr)
  | unlock (logger : LoggerPtr)
  deriving DecidableEq, Repr

/-- What a logger and an appender know of formatters, whose addresses are `F`. -/
structure LoggerFormatter (F : Type) where
  m_formatter : Option F
  m_appenders : List AppenderPtr := []
  deriving DecidableEq, Repr

structure AppenderFormatter (F : Type) where
  m_formatter : Option F := none
  m_has_Formatter : Bool := false
  deriving DecidableEq, Repr

/-- Loggers and appenders that the threads `ι` share. `passed` is the formatter most recently
passed to an appender's `setFormatter`; no code reads it. -/
structure FormatterThreads (ι F : Type) where
  loggers : LoggerPtr → LoggerFormatter F
  appenders : AppenderPtr → AppenderFormatter F
  m_mutex : LoggerPtr → RWMutex ι := fun _ => {}
  points : ι → FormatterPoint F := fun _ => .outside
  passed : AppenderPtr → Option F

namespace FormatterThreads

variable {ι F : Type} [DecidableEq ι]

/-- A thread calls a function, and the logger's functions take the logger's lock, or it goes on
to the next section of the function that it is in. -/
inductive Action (ι F : Type)
  | addAppender (thread : ι) (logger : LoggerPtr) (appender : AppenderPtr)
  | setFormatter (thread : ι) (logger : LoggerPtr) (val : Option F)
  | setAppenderFormatter (thread : ι) (appender : AppenderPtr) (val : F)
  | next (thread : ι)

def goto (s : FormatterThreads ι F) (thread : ι) (point : FormatterPoint F) :
    FormatterThreads ι F :=
  { s with points := Function.update s.points thread point }

def setLogger (s : FormatterThreads ι F) (p : LoggerPtr) (logger : LoggerFormatter F) :
    FormatterThreads ι F :=
  { s with loggers := Function.update s.loggers p logger }

def setAppender (s : FormatterThreads ι F) (a : AppenderPtr) (appender : AppenderFormatter F) :
    FormatterThreads ι F :=
  { s with appenders := Function.update s.appenders a appender }

/-- `MutexType::Lock lock(m_mutex)` of a logger. -/
def lock (s : FormatterThreads ι F) (thread : ι) (p : LoggerPtr) (point : FormatterPoint F) :
    Option (FormatterThreads ι F) :=
  ((s.m_mutex p).wrlock thread).map fun mutex =>
    { s.goto thread point with m_mutex := Function.update s.m_mutex p mutex }

def unlock (s : FormatterThreads ι F) (thread : ι) (p : LoggerPtr) : FormatterThreads ι F :=
  { s.goto thread .outside with
    m_mutex := Function.update s.m_mutex p ((s.m_mutex p).unlock thread) }

/-- `LogAppender::setFormatter(val)`, in the section of the appender's lock. -/
def setAppenderFormatter (s : FormatterThreads ι F) (a : AppenderPtr) (val : F) :
    FormatterThreads ι F :=
  { s.setAppender a { m_formatter := some val, m_has_Formatter := true } with
    passed := Function.update s.passed a (some val) }

/-- `appender->m_formatter = m_formatter` in `addAppender`, in the section of the appender's
lock. -/
def lend (s : FormatterThreads ι F) (p : LoggerPtr) (a : AppenderPtr) : FormatterThreads ι F :=
  s.setAppender a { s.appenders a with m_formatter := (s.loggers p).m_formatter }

/-- One round of the loop in `Logger::setFormatter`, in the section of the appender's lock. -/
def follow (s : FormatterThreads ι F) (p : LoggerPtr) (a : AppenderPtr) : FormatterThreads ι F :=
  if (s.appenders a).m_has_Formatter then s else s.lend p a

/-- The next section of the function that a thread is in. -/
def advance (s : FormatterThreads ι F) (thread : ι) : Option (FormatterThreads ι F) :=
  match s.points thread with
  | .outside => none
  | .check logger appender =>
      if (s.appenders appender).m_formatter.isNone then some (s.goto thread (.lend logger appender))
      else some (s.goto thread (.push logger appender))
  | .lend logger appender => some ((s.lend logger appender).goto thread (.push logger appender))
  | .push logger appender =>
      some ((s.setLogger logger { s.loggers logger with
        m_appenders := (s.loggers logger).m_appenders ++ [appender] }).goto thread (.unlock logger))
  | .assign logger val =>
      some ((s.setLogger logger { s.loggers logger with m_formatter := val }).goto thread
        (.follow logger (s.loggers logger).m_appenders))
  | .follow logger (appender :: rest) =>
      some ((s.follow logger appender).goto thread (.follow logger rest))
  | .follow logger [] => some (s.goto thread (.unlock logger))
  | .unlock logger => some (s.unlock thread logger)

def step (s : FormatterThreads ι F) : Action ι F → Option (FormatterThreads ι F)
  | .addAppender thread logger appender =>
      match s.points thread with
      | .outside => s.lock thread logger (.check logger appender)
      | _ => none
  | .setFormatter thread logger val =>
      match s.points thread with
      | .outside => s.lock thread logger (.assign logger val)
      | _ => none
  | .setAppenderFormatter thread appender val =>
      match s.points thread with
      | .outside => some (s.setAppenderFormatter appender val)
      | _ => none
  | .next thread => s.advance thread

/-- Loggers and appenders that no thread is using. -/
def start (loggers : LoggerPtr → LoggerFormatter F)
    (appenders : AppenderPtr → AppenderFormatter F) : FormatterThreads ι F where
  loggers := loggers
  appenders := appenders
  passed a := if (appenders a).m_has_Formatter then (appenders a).m_formatter else none

/-- An appender with a formatter of its own has the one that it was given last. -/
def Kept (s : FormatterThreads ι F) : Prop :=
  ∀ a, (s.appenders a).m_has_Formatter = true → (s.appenders a).m_formatter = s.passed a

/-- An appender that has been given a formatter of its own since `getFormatter()` returned null
is lent no other one. -/
def Action.LendsNoOther (s : FormatterThreads ι F) : Action ι F → Prop
  | .next thread =>
      match s.points thread with
      | .lend logger appender =>
          (s.appenders appender).m_has_Formatter = true →
            (s.loggers logger).m_formatter = (s.appenders appender).m_formatter
      | _ => True
  | _ => True

/-- No appender is given a formatter of its own while a thread is about to lend it one. -/
def Action.WaitsForLending (s : FormatterThreads ι F) : Action ι F → Prop
  | .setAppenderFormatter _ appender _ => ∀ thread logger, s.points thread ≠ .lend logger appender
  | _ => True

section
variable {s next : FormatterThreads ι F} {thread : ι} {p : LoggerPtr} {a : AppenderPtr}

@[simp] theorem goto_appenders (s : FormatterThreads ι F) (thread : ι) (point : FormatterPoint F) :
    (s.goto thread point).appenders = s.appenders := rfl

@[simp] theorem goto_passed (s : FormatterThreads ι F) (thread : ι) (point : FormatterPoint F) :
    (s.goto thread point).passed = s.passed := rfl

omit [DecidableEq ι] in
theorem lend_self (s : FormatterThreads ι F) (p : LoggerPtr) (a : AppenderPtr) :
    (s.lend p a).appenders a = { s.appenders a with m_formatter := (s.loggers p).m_formatter } :=
  Function.update_self _ _ _

omit [DecidableEq ι] in
theorem lend_other {b : AppenderPtr} (apart : b ≠ a) : (s.lend p a).appenders b = s.appenders b :=
  Function.update_of_ne apart _ _

omit [DecidableEq ι] in
theorem lend_has (s : FormatterThreads ι F) (p : LoggerPtr) (a b : AppenderPtr) :
    ((s.lend p a).appenders b).m_has_Formatter = (s.appenders b).m_has_Formatter := by
  by_cases here : b = a
  · rw [here, lend_self]
  · rw [lend_other here]

omit [DecidableEq ι] in
theorem setAppenderFormatter_self (s : FormatterThreads ι F) (a : AppenderPtr) (val : F) :
    (s.setAppenderFormatter a val).appenders a =
        { m_formatter := some val, m_has_Formatter := true } ∧
      (s.setAppenderFormatter a val).passed a = some val :=
  ⟨Function.update_self _ _ _, Function.update_self _ _ _⟩

omit [DecidableEq ι] in
theorem setAppenderFormatter_other {b : AppenderPtr} (apart : b ≠ a) (val : F) :
    (s.setAppenderFormatter a val).appenders b = s.appenders b ∧
      (s.setAppenderFormatter a val).passed b = s.passed b :=
  ⟨Function.update_of_ne apart _ _, Function.update_of_ne apart _ _⟩

omit [DecidableEq ι] in
/-- A round of the loop lends to an appender without a formatter of its own, or nothing. -/
theorem follow_appenders (s : FormatterThreads ι F) (p : LoggerPtr) (a b : AppenderPtr) :
    ((s.follow p a).appenders b).m_has_Formatter = (s.appenders b).m_has_Formatter ∧
      ((s.appenders b).m_has_Formatter = true → (s.follow p a).appenders b = s.appenders b) := by
  unfold follow
  split
  · exact ⟨rfl, fun _ => rfl⟩
  · rename_i bare
    refine ⟨lend_has s p a b, fun own => lend_other ?_⟩
    rintro rfl
    exact bare own

omit [DecidableEq ι] in
theorem follow_passed (s : FormatterThreads ι F) (p : LoggerPtr) (a : AppenderPtr) :
    (s.follow p a).passed = s.passed := by
  unfold follow
  split <;> rfl

end

/-- What a step can do to the appenders, with the point that its thread comes to. -/
inductive Stepped (s : FormatterThreads ι F) : Action ι F → FormatterThreads ι F → Prop
  | given {thread : ι} {a : AppenderPtr} {val : F} :
      Stepped s (.setAppenderFormatter thread a val) (s.setAppenderFormatter a val)
  | checked {thread : ι} {p : LoggerPtr} {a : AppenderPtr} (point : s.points thread = .check p a)
      (bare : (s.appenders a).m_formatter = none) :
      Stepped s (.next thread) (s.goto thread (.lend p a))
  | lent {thread : ι} {p : LoggerPtr} {a : AppenderPtr} (point : s.points thread = .lend p a) :
      Stepped s (.next thread) ((s.lend p a).goto thread (.push p a))
  | followed {thread : ι} {p : LoggerPtr} {a : AppenderPtr} {rest : List AppenderPtr}
      (point : s.points thread = .follow p (a :: rest)) :
      Stepped s (.next thread) ((s.follow p a).goto thread (.follow p rest))
  | other {action : Action ι F} {next : FormatterThreads ι F} {thread : ι}
      {point : FormatterPoint F} (before : ∀ p a, s.points thread ≠ .lend p a)
      (which : ∀ i, action = .next i → i = thread)
      (appenders : next.appenders = s.appenders) (passed : next.passed = s.passed)
      (points : next.points = Function.update s.points thread point)
      (after : ∀ p a, point ≠ .lend p a) : Stepped s action next

variable {s next : FormatterThreads ι F} {action : Action ι F}

theorem stepped_of_lock {thread : ι} {p : LoggerPtr} {point : FormatterPoint F}
    (outside : s.points thread = .outside) (which : ∀ i, action = .next i → i = thread)
    (after : ∀ p a, point ≠ .lend p a) (locked : s.lock thread p point = some next) :
    Stepped s action next := by
  obtain ⟨mutex, -, rfl⟩ := Option.map_eq_some_iff.mp locked
  exact .other (fun p a => outside.trans_ne nofun) which rfl rfl rfl after

theorem stepped_of_step (stepped : s.step action = some next) : Stepped s action next := by
  cases action with
  | addAppender thread p a =>
    simp only [step] at stepped
    split at stepped
    · rename_i outside
      refine stepped_of_lock outside nofun ?_ stepped
      exact nofun
    · cases stepped
  | setFormatter thread p val =>
    simp only [step] at stepped
    split at stepped
    · rename_i outside
      refine stepped_of_lock outside nofun ?_ stepped
      exact nofun
    · cases stepped
  | setAppenderFormatter thread a val =>
    simp only [step] at stepped
    split at stepped
    · cases stepped
      exact .given
    · cases stepped
  | next thread =>
    simp only [step, advance] at stepped
    have here : ∀ i, Action.next (F := F) thread = .next i → i = thread := by
      rintro i ⟨⟩
      rfl
    split at stepped
    · cases stepped
    · rename_i p a point
      split at stepped
      · rename_i bare
        cases stepped
        exact .checked point (Option.isNone_iff_eq_none.mp bare)
      · cases stepped
        exact .other (fun p a => point.trans_ne nofun) here rfl rfl rfl nofun
    · rename_i p a point
      cases stepped
      exact .lent point
    · rename_i p a point
      cases stepped
      exact .other (fun p a => point.trans_ne nofun) here rfl rfl rfl nofun
    · rename_i p val point
      cases stepped
      exact .other (fun p a => point.trans_ne nofun) here rfl rfl rfl nofun
    · rename_i p a rest point
      cases stepped
      exact .followed point
    · rename_i p point
      cases stepped
      exact .other (fun p a => point.trans_ne nofun) here rfl rfl rfl nofun
    · rename_i p point
      cases stepped
      exact .other (fun p a => point.trans_ne nofun) here rfl rfl rfl nofun

theorem Kept.step (kept : s.Kept) (stepped : FormatterThreads.step s action = some next)
    (lends : action.LendsNoOther s) : next.Kept := by
  cases stepped_of_step stepped with
  | @given thread a val =>
    intro b own
    by_cases here : b = a
    · obtain ⟨given, passed⟩ := setAppenderFormatter_self s a val
      rw [here, given, passed]
    · obtain ⟨same, passed⟩ := setAppenderFormatter_other (s := s) here val
      rw [same] at own ⊢
      rw [passed]
      exact kept b own
  | checked => exact kept
  | @lent thread p a point =>
    have agrees : (s.appenders a).m_has_Formatter = true →
        (s.loggers p).m_formatter = (s.appenders a).m_formatter := by
      simpa only [Action.LendsNoOther, point] using lends
    intro b own
    rw [goto_appenders] at own ⊢
    rw [lend_has] at own
    by_cases here : b = a
    · subst here
      rw [lend_self]
      exact (agrees own).trans (kept b own)
    · rw [lend_other here]
      exact kept b own
  | @followed thread p a rest point =>
    intro b own
    obtain ⟨has, same⟩ := follow_appenders s p a b
    rw [goto_appenders] at own ⊢
    rw [has] at own
    rw [same own, goto_passed, follow_passed]
    exact kept b own
  | other before which appenders passed points after =>
    unfold Kept
    rw [appenders, passed]
    exact kept

theorem lendsNoOther_of_kept (kept : s.Kept) (stepped : s.step action = some next)
    (after : next.Kept) : action.LendsNoOther s := by
  cases stepped_of_step stepped with
  | given => trivial
  | @lent thread p a point =>
    simp only [Action.LendsNoOther, point]
    intro own
    have later := after a
    rw [goto_appenders, lend_has, lend_self] at later
    exact (later own).trans (kept a own).symm
  | checked point bare => simp only [Action.LendsNoOther, point]
  | followed point => simp only [Action.LendsNoOther, point]
  | @other action next thread point before which appenders passed points after =>
    cases action with
    | next i =>
      obtain rfl := which i rfl
      unfold Action.LendsNoOther
      dsimp only
      split
      · rename_i here
        exact absurd here (before _ _)
      · trivial
    | _ => trivial

/-- The assignment in `addAppender` is always possible. -/
theorem lendsNoOther_of_blocked (blocked : s.step action = none) : action.LendsNoOther s := by
  cases action with
  | next thread =>
    unfold Action.LendsNoOther
    dsimp only
    split
    · rename_i point
      rw [step, advance, point] at blocked
      cases blocked
    · trivial
  | _ => trivial

/-- Along every run the appenders with formatters of their own keep them exactly if
`addAppender` lends no other one to an appender that has got its own since the check. -/
theorem kept_iff_lendsNoOther (loggers : LoggerPtr → LoggerFormatter F)
    (appenders : AppenderPtr → AppenderFormatter F) (actions : List (Action ι F)) :
    Transition.EveryState step Kept (start loggers appenders) actions ↔
      Transition.StepsMeet step (fun s action => action.LendsNoOther s) (start loggers appenders)
        actions := by
  have initial : (start (ι := ι) loggers appenders).Kept := fun a own => (if_pos own).symm
  exact Transition.everyState_iff_stepsMeet (fun _ kept => kept)
    (fun _ _ _ kept stepped lends => Kept.step kept stepped lends)
    (fun _ _ _ kept stepped after => lendsNoOther_of_kept kept stepped after)
    (fun _ _ _ blocked => lendsNoOther_of_blocked blocked) initial

/-- One thread finds an appender without a formatter, another gives it one of its own, and
the first lends it the logger's in its place. -/
theorem formatter_lost_by_lending :
    ¬ Transition.EveryState step Kept
      (start (ι := Bool) (fun _ => { m_formatter := some 0 }) fun _ => {})
      [.addAppender true 0 0, .next true, .setAppenderFormatter false 0 1, .next true] := by
  intro every
  have ends : (Transition.run step
      (start (ι := Bool) (fun _ => { m_formatter := some 0 }) fun _ => {})
      [.addAppender true 0 0, .next true, .setAppenderFormatter false 0 1, .next true]).map
        (fun s => (s.appenders 0, s.passed 0)) =
      some ({ m_formatter := some 0, m_has_Formatter := true }, some 1) := by decide
  obtain ⟨final, ran, same⟩ := Option.map_eq_some_iff.mp ends
  obtain ⟨appender, passed⟩ := Prod.mk.inj same
  have kept := every _ [] final (by simp) ran 0 (by rw [appender])
  rw [appender, passed] at kept
  exact absurd kept (by decide)

/-- A thread that is about to lend a formatter does so to an appender without one of its own. -/
structure Lending (s : FormatterThreads ι F) : Prop where
  formatter : ∀ a, (s.appenders a).m_has_Formatter = true → (s.appenders a).m_formatter ≠ none
  bare : ∀ thread p a, s.points thread = .lend p a → (s.appenders a).m_has_Formatter = false

omit [DecidableEq ι] in
theorem Lending.lendsNoOther (lending : s.Lending) : action.LendsNoOther s := by
  cases action with
  | next thread =>
    unfold Action.LendsNoOther
    dsimp only
    split
    · rename_i p a point
      intro own
      rw [lending.bare thread p a point] at own
      cases own
    · trivial
  | _ => trivial

/-- A change of one thread's point that leaves what the appenders own alone. -/
theorem Lending.of_points {thread : ι} {point : FormatterPoint F} (lending : s.Lending)
    (has : ∀ a, (next.appenders a).m_has_Formatter = (s.appenders a).m_has_Formatter)
    (own : ∀ a, (s.appenders a).m_has_Formatter = true → next.appenders a = s.appenders a)
    (points : next.points = Function.update s.points thread point)
    (bare : ∀ p a, point = .lend p a → (s.appenders a).m_has_Formatter = false) :
    next.Lending := by
  constructor
  · intro a owns
    rw [has] at owns
    rw [own a owns]
    exact lending.formatter a owns
  · intro i p a point
    rw [has]
    rw [points] at point
    by_cases here : i = thread
    · rw [here, Function.update_self] at point
      exact bare p a point
    · rw [Function.update_of_ne here] at point
      exact lending.bare i p a point

theorem Lending.step (lending : s.Lending) (stepped : FormatterThreads.step s action = some next)
    (waits : action.WaitsForLending s) : next.Lending := by
  cases stepped_of_step stepped with
  | @given thread a val =>
    constructor
    · intro b own
      by_cases here : b = a
      · rw [here, (setAppenderFormatter_self s a val).1]
        exact Option.some_ne_none val
      · rw [(setAppenderFormatter_other here val).1] at own ⊢
        exact lending.formatter b own
    · intro i p b point
      have apart : b ≠ a := by
        rintro rfl
        exact waits i p point
      rw [(setAppenderFormatter_other apart val).1]
      exact lending.bare i p b point
  | @checked thread p a point bare =>
    refine lending.of_points (fun _ => rfl) (fun _ _ => rfl) rfl fun q b lends => ?_
    obtain ⟨-, rfl⟩ : p = q ∧ a = b := by simpa using lends
    exact Bool.eq_false_iff.mpr fun own => lending.formatter a own bare
  | @lent thread p a point =>
    refine lending.of_points (fun b => lend_has s p a b) (fun b own => lend_other ?_) rfl nofun
    rintro rfl
    rw [lending.bare thread p b point] at own
    cases own
  | @followed thread p a rest point =>
    have points : ((s.follow p a).goto thread (.follow p rest)).points =
        Function.update s.points thread (.follow p rest) := by
      unfold follow
      split <;> rfl
    exact lending.of_points (fun b => (follow_appenders s p a b).1)
      (fun b => (follow_appenders s p a b).2) points nofun
  | other before which appenders passed points after =>
    exact lending.of_points (fun a => by rw [appenders]) (fun a _ => by rw [appenders]) points
      fun p a lends => absurd lends (after p a)

/-- In particular they keep them if no appender is given one between a check and the
assignment that follows it. -/
theorem kept_of_waitsForLending {loggers : LoggerPtr → LoggerFormatter F}
    {appenders : AppenderPtr → AppenderFormatter F} {actions : List (Action ι F)}
    (formed : ∀ a, (appenders a).m_has_Formatter = true → (appenders a).m_formatter ≠ none)
    (meets : Transition.StepsMeet step (fun s action => action.WaitsForLending s)
      (start loggers appenders) actions) :
    Transition.EveryState step Kept (start loggers appenders) actions := by
  have initial : (start (ι := ι) loggers appenders).Lending := ⟨formed, fun _ _ _ => nofun⟩
  have kept : (start (ι := ι) loggers appenders).Kept := fun a own => (if_pos own).symm
  refine Transition.everyState_of_stepsMeet
    (fun s (both : Kept s ∧ Lending s) => both.1) ?_ ⟨kept, initial⟩ meets
  exact fun s action next both stepped waits =>
    ⟨Kept.step both.1 stepped both.2.lendsNoOther, both.2.step stepped waits⟩

section Alone

/-- The members that the functions use of the loggers and appenders of the process. -/
def ofLogSystem (s : LogSystem) (passed : AppenderPtr → Option LogFormatter) :
    FormatterThreads ι LogFormatter where
  loggers p :=
    { m_formatter := (s.loggers p).m_formatter, m_appenders := (s.loggers p).m_appenders }
  appenders a :=
    { m_formatter := (s.appenders a).base.m_formatter
      m_has_Formatter := (s.appenders a).base.m_has_Formatter }
  passed := passed

/-- The thread is at the point and holds the logger's lock, and no other thread does anything. -/
def held (s : FormatterThreads ι F) (i : ι) (p : LoggerPtr) (point : FormatterPoint F) :
    FormatterThreads ι F :=
  { s.goto i point with m_mutex := Function.update s.m_mutex p { writer := some i } }

variable {s : FormatterThreads ι F} {i : ι} {p : LoggerPtr} {a : AppenderPtr}
  {point later : FormatterPoint F}

theorem held_goto : (s.held i p point).goto i later = s.held i p later := by
  simp only [held, goto, Function.update_idem]

theorem held_points : (s.held i p point).points i = point := Function.update_self _ _ _

theorem lock_free (free : s.m_mutex p = {}) (i : ι) :
    s.lock i p point = some (s.held i p point) := by
  rw [lock, free]
  rfl

theorem held_unlock (free : s.m_mutex p = {}) (outside : s.points i = .outside) :
    (s.held i p point).unlock i p = s := by
  have mutex : ({ writer := some i } : RWMutex ι).unlock i = s.m_mutex p := by
    rw [free]
    simp [RWMutex.unlock]
  simp only [held, unlock, goto, Function.update_idem, Function.update_self, mutex, ← outside,
    Function.update_eq_self]

theorem run_next {t : FormatterThreads ι F} {count : Nat} {final : FormatterThreads ι F}
    (stepped : s.advance i = some t)
    (ran : Transition.run step t (List.replicate count (.next i)) = some final) :
    Transition.run step s (List.replicate (count + 1) (.next i)) = some final := by
  rw [List.replicate_succ, Transition.run_cons, step, stepped]
  exact ran

/-- The loop of `Logger::setFormatter` by a thread that is alone. -/
theorem run_follow (rest : List AppenderPtr) :
    ∀ {s : FormatterThreads ι F}, Transition.run step (s.held i p (.follow p rest))
        (List.replicate rest.length (.next i)) =
      some ((rest.foldl (fun t a => t.follow p a) s).held i p (.follow p [])) := by
  induction rest with
  | nil => exact rfl
  | cons a rest ih =>
    intro s
    refine run_next ?_ ih
    rw [advance, held_points]
    refine congrArg some ?_
    have same : (s.held i p (.follow p (a :: rest))).follow p a =
        (s.follow p a).held i p (.follow p (a :: rest)) := by
      by_cases own : (s.appenders a).m_has_Formatter = true
      · have kept : s.follow p a = s := if_pos own
        rw [kept]
        exact if_pos own
      · have lent : s.follow p a = s.lend p a := if_neg own
        rw [lent]
        exact if_neg own
    rw [same, held_goto]

variable (u : LogSystem) (passed : AppenderPtr → Option LogFormatter)

omit [DecidableEq ι] in
theorem ofLogSystem_setLogger (p : LoggerPtr) (logger : Logger) :
    (ofLogSystem (u.setLogger p logger) passed : FormatterThreads ι LogFormatter) =
      (ofLogSystem u passed).setLogger p
        { m_formatter := logger.m_formatter, m_appenders := logger.m_appenders } := by
  have loggers := Function.comp_update
    (fun logger : Logger => ({ m_formatter := logger.m_formatter, m_appenders :=
      logger.m_appenders } : LoggerFormatter LogFormatter)) u.loggers p logger
  exact congrArg (fun loggers => { ofLogSystem u passed with loggers := loggers }) loggers

omit [DecidableEq ι] in
theorem ofLogSystem_updateAppender (a : AppenderPtr) (f : LogAppender → LogAppender) :
    (ofLogSystem (u.updateAppender a f) passed : FormatterThreads ι LogFormatter) =
      (ofLogSystem u passed).setAppender a
        { m_formatter := (f (u.appenders a).base).m_formatter
          m_has_Formatter := (f (u.appenders a).base).m_has_Formatter } := by
  have appenders := Function.comp_update
    (fun appender : Appender => ({ m_formatter := appender.base.m_formatter, m_has_Formatter :=
      appender.base.m_has_Formatter } : AppenderFormatter LogFormatter)) u.appenders a
    ((u.appenders a).update f)
  simp only [Appender.base_update] at appenders
  exact congrArg (fun appenders => { ofLogSystem u passed with appenders := appenders }) appenders

theorem advance_check_null (bare : (s.appenders a).m_formatter = none) :
    (s.held i p (.check p a)).advance i = some (s.held i p (.lend p a)) := by
  rw [advance, held_points]
  exact (if_pos (Option.isNone_iff_eq_none.mpr bare)).trans (congrArg some held_goto)

theorem advance_check_set (set : (s.appenders a).m_formatter ≠ none) :
    (s.held i p (.check p a)).advance i = some (s.held i p (.push p a)) := by
  rw [advance, held_points]
  exact (if_neg (mt Option.isNone_iff_eq_none.mp set)).trans (congrArg some held_goto)

theorem advance_lend :
    (s.held i p (.lend p a)).advance i = some ((s.lend p a).held i p (.push p a)) := by
  rw [advance, held_points]
  exact congrArg some (held_goto (s := s.lend p a))

/-- `m_appenders.push_back(appender)`. -/
def push (s : FormatterThreads ι F) (p : LoggerPtr) (a : AppenderPtr) : FormatterThreads ι F :=
  s.setLogger p { s.loggers p with m_appenders := (s.loggers p).m_appenders ++ [a] }

theorem run_push (free : s.m_mutex p = {}) (outside : s.points i = .outside) :
    Transition.run step (s.held i p (.push p a)) (List.replicate 2 (.next i)) =
      some (s.push p a) := by
  refine run_next (t := (s.push p a).held i p (.unlock p)) ?_ (run_next ?_ rfl)
  · rw [advance, held_points]
    exact congrArg some (held_goto (s := s.push p a))
  · rw [advance, held_points]
    exact congrArg some (held_unlock (s := s.push p a) free outside)

/-- `addAppender` by a thread that is alone is the function of the sequential model. -/
theorem run_addAppender (i : ι) (p : LoggerPtr) (a : AppenderPtr) :
    ∃ count, Transition.run step (ofLogSystem u passed)
        (.addAppender i p a :: List.replicate count (.next i)) =
      some (ofLogSystem (Logger.addAppender u p a) passed) := by
  let s : FormatterThreads ι LogFormatter := ofLogSystem u passed
  have call : s.step (.addAppender i p a) = some (s.held i p (.check p a)) := lock_free rfl i
  have pushed : ∀ v : LogSystem, (ofLogSystem v passed : FormatterThreads ι LogFormatter).push p a =
      ofLogSystem (v.setLogger p
        { v.loggers p with m_appenders := (v.loggers p).m_appenders ++ [a] }) passed := by
    intro v
    rw [ofLogSystem_setLogger]
    rfl
  by_cases bare : (u.appenders a).base.m_formatter = none
  · refine ⟨4, ?_⟩
    have lent : s.lend p a = ofLogSystem (u.updateAppender a fun base =>
        { base with m_formatter := (u.loggers p).m_formatter }) passed := by
      rw [ofLogSystem_updateAppender]
      rfl
    rw [Transition.run_cons, call]
    refine run_next (advance_check_null bare) (run_next advance_lend ?_)
    rw [run_push rfl rfl, lent, pushed, Logger.addAppender, LogAppender.getFormatter,
      if_pos (Option.isNone_iff_eq_none.mpr bare)]
  · refine ⟨3, ?_⟩
    rw [Transition.run_cons, call]
    refine run_next (advance_check_set bare) ?_
    rw [run_push rfl rfl, pushed, Logger.addAppender, LogAppender.getFormatter,
      if_neg (mt Option.isNone_iff_eq_none.mp bare)]

omit [DecidableEq ι] in
theorem ofLogSystem_followFormatter (val : Option LogFormatter) (p : LoggerPtr)
    (list : List AppenderPtr) :
    ∀ u : LogSystem, (u.loggers p).m_formatter = val →
      (ofLogSystem (list.foldl (Logger.followFormatter val) u) passed :
          FormatterThreads ι LogFormatter) =
        list.foldl (fun t a => t.follow p a) (ofLogSystem u passed) := by
  induction list with
  | nil => exact fun _ _ => rfl
  | cons a rest ih =>
    intro u same
    rw [List.foldl_cons, List.foldl_cons]
    have round : (ofLogSystem (Logger.followFormatter val u a) passed :
        FormatterThreads ι LogFormatter) = (ofLogSystem u passed).follow p a := by
      by_cases own : (u.appenders a).base.m_has_Formatter = true
      · have kept : Logger.followFormatter val u a = u := if_pos own
        rw [kept]
        exact (if_pos own).symm
      · have lent : Logger.followFormatter val u a =
            u.updateAppender a fun base => { base with m_formatter := val } := if_neg own
        rw [lent, ofLogSystem_updateAppender, ← same]
        exact (if_neg own).symm
    have logger : ((Logger.followFormatter val u a).loggers p).m_formatter = val := by
      unfold Logger.followFormatter
      split <;> exact same
    rw [ih _ logger, round]

/-- So is `Logger::setFormatter`. -/
theorem run_setFormatter (i : ι) (p : LoggerPtr) (val : Option LogFormatter) :
    ∃ count, Transition.run step (ofLogSystem u passed)
        (.setFormatter i p val :: List.replicate count (.next i)) =
      some (ofLogSystem (Logger.setFormatter u p val) passed) := by
  let s : FormatterThreads ι LogFormatter := ofLogSystem u passed
  let assigned : LogSystem := u.setLogger p { u.loggers p with m_formatter := val }
  have call : s.step (.setFormatter i p val) = some (s.held i p (.assign p val)) := lock_free rfl i
  have assign : (s.held i p (.assign p val)).advance i =
      some ((ofLogSystem assigned passed).held i p (.follow p (u.loggers p).m_appenders)) := by
    rw [advance, held_points, ofLogSystem_setLogger]
    exact congrArg some (held_goto (s := s.setLogger p
      { s.loggers p with m_formatter := val }))
  have leave : ∀ t : FormatterThreads ι LogFormatter, t.m_mutex p = {} → t.points i = .outside →
      Transition.run step (t.held i p (.follow p [])) (List.replicate 2 (.next i)) = some t := by
    intro t free outside
    refine run_next (t := t.held i p (.unlock p)) ?_ (run_next ?_ rfl)
    · rw [advance, held_points]
      exact congrArg some held_goto
    · rw [advance, held_points]
      exact congrArg some (held_unlock free outside)
  have followed := ofLogSystem_followFormatter (ι := ι) passed val p (u.loggers p).m_appenders
    assigned (congrArg Logger.m_formatter (LogSystem.setLogger_self u p _))
  refine ⟨(u.loggers p).m_appenders.length + 2 + 1, ?_⟩
  rw [Transition.run_cons, call]
  refine run_next assign ?_
  rw [List.replicate_add, Transition.run_append, run_follow, Option.bind_some, ← followed,
    leave _ rfl rfl, Logger.setFormatter, LogSystem.setLogger_self]

/-- So is `LogAppender::setFormatter`. -/
theorem step_setAppenderFormatter (i : ι) (a : AppenderPtr) (val : LogFormatter) :
    step (ofLogSystem u passed) (.setAppenderFormatter i a val) =
      some (ofLogSystem (u.updateAppender a fun base => base.setFormatter (some val))
        (Function.update passed a (some val))) := by
  rw [ofLogSystem_updateAppender]
  rfl

end Alone

end FormatterThreads

end Chord
