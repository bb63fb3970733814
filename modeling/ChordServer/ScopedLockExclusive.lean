import ChordServer.ScopedLock

set_option autoImplicit false

namespace Chord.ScopedLocks

variable {ι Lock : Type}

/-- The thread has acquired the lock and not yet released it. -/
def Owns (s : ScopedLocks ι Lock) (thread : ι) (lock : Lock) : Prop :=
  s.point thread = .taken lock ∨
    (s.m_locked thread lock = some true ∧ ∀ destroys, s.point thread ≠ .cleared lock destroys)

/-- What the point of a thread says about its guard. -/
def Consistent (s : ScopedLocks ι Lock) (thread : ι) : Prop :=
  match s.point thread with
  | .outside => True
  | .taking lock => s.m_locked thread lock ≠ some true
  | .taken lock => s.m_locked thread lock ≠ some true
  | .clearing lock _ => s.m_locked thread lock = some true
  | .cleared lock _ => s.m_locked thread lock = some true

/-- The lock has gone from owner to owner, and is with the last one. -/
structure Guarded (s : ScopedLocks ι Lock) (lock : Lock) (owner : Option ι) : Prop where
  history : ∃ owners : List ι,
    s.history lock = owners.flatMap turn ++ owner.toList.map LockEvent.acquired
  flag : s.m_mutex lock = owner.isSome
  owns : ∀ thread, s.Owns thread lock ↔ owner = some thread

/-- The invariant of every run. -/
structure Sound (s : ScopedLocks ι Lock) : Prop where
  consistent : ∀ thread, s.Consistent thread
  guarded : ∀ lock, ∃ owner, s.Guarded lock owner

theorem sound_initial : Sound ({} : ScopedLocks ι Lock) where
  consistent _ := trivial
  guarded lock := ⟨none, ⟨[], rfl⟩, rfl, fun thread => by simp [Owns]⟩

section

variable [DecidableEq ι] [DecidableEq Lock]

/-- The thread changes its own guard and point only; nothing happens to a lock. -/
structure Silent (s next : ScopedLocks ι Lock) : Prop where
  flags : next.m_mutex = s.m_mutex
  history : next.history = s.history
  owns : ∀ thread lock, next.Owns thread lock ↔ s.Owns thread lock

structure Acquires (s next : ScopedLocks ι Lock) (thread : ι) (lock : Lock) : Prop where
  clear : s.m_mutex lock = false
  flags : next.m_mutex = Function.update s.m_mutex lock true
  history : next.history =
    Function.update s.history lock (s.history lock ++ [.acquired thread])
  owns : ∀ other place, next.Owns other place ↔
    s.Owns other place ∨ (other = thread ∧ place = lock)

structure Releases (s next : ScopedLocks ι Lock) (thread : ι) (lock : Lock) : Prop where
  owner : s.Owns thread lock
  flags : next.m_mutex = Function.update s.m_mutex lock false
  history : next.history =
    Function.update s.history lock (s.history lock ++ [.released thread])
  owns : ∀ other place, next.Owns other place ↔
    s.Owns other place ∧ ¬ (other = thread ∧ place = lock)

variable {s next : ScopedLocks ι Lock} {thread : ι} {lock : Lock}

omit [DecidableEq ι] [DecidableEq Lock] in
theorem Silent.refl (s : ScopedLocks ι Lock) : Silent s s := ⟨rfl, rfl, fun _ _ => Iff.rfl⟩

/-- Only this thread moves or changes a guard. -/
def Moves (s next : ScopedLocks ι Lock) (thread : ι) : Prop :=
  ∀ other, other ≠ thread →
    next.point other = s.point other ∧ next.m_locked other = s.m_locked other

omit [DecidableEq ι] [DecidableEq Lock] in
theorem Moves.consistent (moves : Moves s next thread) (before : ∀ other, s.Consistent other)
    (own : next.Consistent thread) : ∀ other, next.Consistent other := by
  intro other
  by_cases same : other = thread
  · rwa [same]
  · obtain ⟨point, locked⟩ := moves other same
    have kept := before other
    unfold Consistent at kept ⊢
    rwa [point, locked]

omit [DecidableEq ι] [DecidableEq Lock] in
theorem Moves.owns (moves : Moves s next thread) {other : ι} (apart : other ≠ thread)
    (place : Lock) : next.Owns other place ↔ s.Owns other place := by
  obtain ⟨point, locked⟩ := moves other apart
  rw [Owns, Owns, point, locked]

omit [DecidableEq Lock] in
theorem moves_goto (s : ScopedLocks ι Lock) (thread : ι) (point : GuardPoint Lock) :
    Moves s (s.goto thread point) thread :=
  fun _ apart => ⟨Function.update_of_ne apart _ _, rfl⟩

omit [DecidableEq Lock] in
/-- A thread that starts an operation owns what it owned. -/
theorem silent_goto {point : GuardPoint Lock} (here : s.point thread = .outside)
    (starts : ∃ lock, point = .taking lock ∨ ∃ destroys, point = .clearing lock destroys) :
    Silent s (s.goto thread point) where
  flags := rfl
  history := rfl
  owns other place := by
    by_cases same : other = thread
    · subst same
      rcases starts with ⟨lock, rfl | ⟨destroys, rfl⟩⟩ <;> simp [Owns, goto, here]
    · exact (moves_goto s thread point).owns same place

/-- What a step does to the locks. -/
def Effect (s next : ScopedLocks ι Lock) : Prop :=
  Silent s next ∨ (∃ thread lock, Acquires s next thread lock) ∨
    ∃ thread lock, Releases s next thread lock

theorem start_effect {point : GuardPoint Lock} (before : ∀ other, s.Consistent other)
    (here : s.point thread = .outside)
    (starts : (∃ lock, point = .taking lock ∧ s.m_locked thread lock ≠ some true) ∨
      ∃ lock destroys, point = .clearing lock destroys ∧ s.m_locked thread lock = some true) :
    (∀ other, (s.goto thread point).Consistent other) ∧ Effect s (s.goto thread point) := by
  constructor
  · refine (moves_goto s thread point).consistent before ?_
    rcases starts with ⟨lock, rfl, locked⟩ | ⟨lock, destroys, rfl, locked⟩ <;>
      simpa [Consistent, goto] using locked
  · refine .inl (silent_goto here ?_)
    rcases starts with ⟨lock, rfl, -⟩ | ⟨lock, destroys, rfl, -⟩
    · exact ⟨lock, .inl rfl⟩
    · exact ⟨lock, .inr ⟨destroys, rfl⟩⟩

theorem acquire_effect (before : ∀ other, s.Consistent other)
    (here : s.point thread = .taking lock) (clear : s.m_mutex lock = false) :
    (∀ other, ((s.acquire thread lock).goto thread (.taken lock)).Consistent other) ∧
      Acquires s ((s.acquire thread lock).goto thread (.taken lock)) thread lock := by
  have moves : Moves s ((s.acquire thread lock).goto thread (.taken lock)) thread :=
    fun _ apart => ⟨Function.update_of_ne apart _ _, rfl⟩
  have own := before thread
  simp only [Consistent, here] at own
  refine ⟨moves.consistent before (by simpa [Consistent, goto, acquire] using own), clear, rfl, rfl,
    fun other place => ?_⟩
  by_cases same : other = thread
  · subst same
    simp only [Owns, goto, acquire, here, Function.update_self, GuardPoint.taken.injEq,
      reduceCtorEq, ne_eq, not_false_eq_true, implies_true, and_true, true_and, false_or]
    exact or_comm.trans (or_congr_right eq_comm)
  · rw [moves.owns same place, or_iff_left (fun both => same both.1)]

theorem release_effect {destroys : Bool} (before : ∀ other, s.Consistent other)
    (here : s.point thread = .clearing lock destroys) :
    (∀ other, ((s.release thread lock).goto thread (.cleared lock destroys)).Consistent other) ∧
      Releases s ((s.release thread lock).goto thread (.cleared lock destroys)) thread lock := by
  have moves : Moves s ((s.release thread lock).goto thread (.cleared lock destroys)) thread :=
    fun _ apart => ⟨Function.update_of_ne apart _ _, rfl⟩
  have own := before thread
  simp only [Consistent, here] at own
  refine ⟨moves.consistent before (by simpa [Consistent, goto, release] using own),
    by simp [Owns, here, own], rfl, rfl, fun other place => ?_⟩
  by_cases same : other = thread
  · subst same
    simp [Owns, goto, release, here, eq_comm]
  · rw [moves.owns same place, and_iff_left (fun both => same both.1)]

/-- An operation ends with the assignment of `m_locked`, or with the guard. -/
theorem settle_effect {locked : Option Bool} (before : ∀ other, s.Consistent other)
    (own : locked = some true ↔ s.Owns thread lock)
    (elsewhere : ∀ place, place ≠ lock →
      (s.Owns thread place ↔ s.m_locked thread place = some true)) :
    (∀ other, ((s.setLocked thread lock locked).goto thread .outside).Consistent other) ∧
      Silent s ((s.setLocked thread lock locked).goto thread .outside) := by
  have moves : Moves s ((s.setLocked thread lock locked).goto thread .outside) thread :=
    fun _ apart => ⟨Function.update_of_ne apart _ _, Function.update_of_ne apart _ _⟩
  refine ⟨moves.consistent before (by simp [Consistent, goto]), rfl, rfl, fun other place => ?_⟩
  by_cases same : other = thread
  · subst same
    have now : ((s.setLocked other lock locked).goto other .outside).Owns other place ↔
        Function.update (s.m_locked other) lock locked place = some true := by
      simp [Owns, goto, setLocked]
    rw [now]
    by_cases here : place = lock
    · rw [here, Function.update_self, own]
    · rw [Function.update_of_ne here, elsewhere place here]
  · exact moves.owns same place

/-- The next step of an operation: `test_and_set`, the clear, or the assignment behind it. -/
theorem next_effect (before : ∀ other, s.Consistent other)
    (stepped : step s (.next thread) = some next) :
    (∀ other, next.Consistent other) ∧ Effect s next := by
  cases here : s.point thread with
  | outside =>
    simp only [step, here] at stepped
    cases stepped
  | taking lock =>
    simp only [step, here] at stepped
    split at stepped
    · obtain rfl := Option.some.inj stepped
      exact ⟨before, .inl (.refl s)⟩
    · rename_i clear
      obtain rfl := Option.some.inj stepped
      obtain ⟨consistent, acquires⟩ :=
        acquire_effect before here (Bool.eq_false_iff.mpr clear)
      exact ⟨consistent, .inr (.inl ⟨_, _, acquires⟩)⟩
  | taken lock =>
    simp only [step, here] at stepped
    obtain rfl := Option.some.inj stepped
    have settled := @settle_effect _ _ _ _ s thread lock (some true) before
      (by simp [Owns, here]) (fun place apart => by simp [Owns, here, Ne.symm apart])
    exact ⟨settled.1, .inl settled.2⟩
  | clearing lock destroys =>
    simp only [step, here] at stepped
    obtain rfl := Option.some.inj stepped
    obtain ⟨consistent, releases⟩ := release_effect before here
    exact ⟨consistent, .inr (.inr ⟨_, _, releases⟩)⟩
  | cleared lock destroys =>
    simp only [step, here] at stepped
    obtain rfl := Option.some.inj stepped
    have settled := @settle_effect _ _ _ _ s thread lock (if destroys then none else some false)
      before (by cases destroys <;> simp [Owns, here])
      (fun place apart => by simp [Owns, here, Ne.symm apart])
    exact ⟨settled.1, .inl settled.2⟩

/-- The whole of what an action can do. -/
theorem step_effect {action : Action ι Lock} (before : ∀ other, s.Consistent other)
    (stepped : step s action = some next) :
    (∀ other, next.Consistent other) ∧ Effect s next := by
  cases action with
  | construct thread lock =>
    simp only [step] at stepped
    split at stepped
    · rename_i here locked
      obtain rfl := Option.some.inj stepped
      exact start_effect before here (.inl ⟨lock, rfl, by rw [locked]; simp⟩)
    · cases stepped
  | lock thread lock =>
    simp only [step] at stepped
    split at stepped
    · rename_i here locked
      obtain rfl := Option.some.inj stepped
      exact start_effect before here (.inl ⟨lock, rfl, by rw [locked]; simp⟩)
    · obtain rfl := Option.some.inj stepped
      exact ⟨before, .inl (.refl s)⟩
    · cases stepped
  | unlock thread lock =>
    simp only [step] at stepped
    split at stepped
    · rename_i here locked
      obtain rfl := Option.some.inj stepped
      exact start_effect before here (.inr ⟨lock, false, rfl, locked⟩)
    · obtain rfl := Option.some.inj stepped
      exact ⟨before, .inl (.refl s)⟩
    · cases stepped
  | destroy thread lock =>
    simp only [step] at stepped
    split at stepped
    · rename_i here locked
      obtain rfl := Option.some.inj stepped
      exact start_effect before here (.inr ⟨lock, true, rfl, locked⟩)
    · rename_i here locked
      obtain rfl := Option.some.inj stepped
      have settled := @settle_effect _ _ _ _ s thread lock none before
        (by simp [Owns, here, locked]) (by simp [Owns, here])
      rw [goto, setLocked, ← here, Function.update_eq_self] at settled
      exact ⟨settled.1, .inl settled.2⟩
    · cases stepped
  | next thread => exact next_effect before stepped

omit [DecidableEq ι] [DecidableEq Lock] in
theorem Guarded.congr {owner : Option ι} (guarded : s.Guarded lock owner)
    (flag : next.m_mutex lock = s.m_mutex lock) (history : next.history lock = s.history lock)
    (owns : ∀ thread, next.Owns thread lock ↔ s.Owns thread lock) : next.Guarded lock owner where
  history := by rw [history]; exact guarded.history
  flag := flag.trans guarded.flag
  owns other := (owns other).trans (guarded.owns other)

omit [DecidableEq ι] in
theorem Acquires.guarded (acquires : Acquires s next thread lock)
    (before : ∀ place, ∃ owner, s.Guarded place owner) (place : Lock) :
    ∃ owner, next.Guarded place owner := by
  obtain ⟨owner, guarded⟩ := before place
  by_cases same : place = lock
  · subst same
    have free : owner = none := by
      rw [← Option.not_isSome_iff_eq_none, ← guarded.flag, acquires.clear]
      exact Bool.false_ne_true
    subst free
    obtain ⟨owners, past⟩ := guarded.history
    refine ⟨some thread, ⟨owners, ?_⟩, ?_, fun other => ?_⟩
    · rw [acquires.history, Function.update_self, past]
      simp
    · rw [acquires.flags, Function.update_self]
      rfl
    · rw [acquires.owns, guarded.owns]
      simp [eq_comm]
  · refine ⟨owner, guarded.congr ?_ ?_ fun other => ?_⟩
    · rw [acquires.flags, Function.update_of_ne same]
    · rw [acquires.history, Function.update_of_ne same]
    · rw [acquires.owns, or_iff_left fun both => same both.2]

omit [DecidableEq ι] in
theorem Releases.guarded (releases : Releases s next thread lock)
    (before : ∀ place, ∃ owner, s.Guarded place owner) (place : Lock) :
    ∃ owner, next.Guarded place owner := by
  obtain ⟨owner, guarded⟩ := before place
  by_cases same : place = lock
  · subst same
    obtain rfl := (guarded.owns thread).mp releases.owner
    obtain ⟨owners, past⟩ := guarded.history
    refine ⟨none, ⟨owners ++ [thread], ?_⟩, ?_, fun other => ?_⟩
    · rw [releases.history, Function.update_self, past]
      simp [turn]
    · rw [releases.flags, Function.update_self]
      rfl
    · rw [releases.owns, guarded.owns]
      simp [eq_comm]
  · refine ⟨owner, guarded.congr ?_ ?_ fun other => ?_⟩
    · rw [releases.flags, Function.update_of_ne same]
    · rw [releases.history, Function.update_of_ne same]
    · rw [releases.owns, and_iff_left fun both => same both.2]

theorem Sound.step {action : Action ι Lock} (sound : s.Sound)
    (stepped : ScopedLocks.step s action = some next) : next.Sound := by
  obtain ⟨consistent, effect⟩ := step_effect sound.consistent stepped
  refine ⟨consistent, fun place => ?_⟩
  rcases effect with silent | ⟨thread, lock, acquires⟩ | ⟨thread, lock, releases⟩
  · obtain ⟨owner, guarded⟩ := sound.guarded place
    exact ⟨owner, guarded.congr (congrFun silent.flags place) (congrFun silent.history place)
      fun other => silent.owns other place⟩
  · exact acquires.guarded sound.guarded place
  · exact releases.guarded sound.guarded place

end

theorem Holds.owns {s : ScopedLocks ι Lock} {thread : ι} {lock : Lock}
    (holds : s.Holds thread lock) : s.Owns thread lock :=
  .inr ⟨holds.1, fun destroys => (holds.2 destroys).2⟩

/-- The promises of the guards from the invariant. -/
theorem Sound.exclusive {s : ScopedLocks ι Lock} (sound : s.Sound) : s.Exclusive where
  alone lock thread other first second := by
    obtain ⟨owner, guarded⟩ := sound.guarded lock
    have own := (guarded.owns thread).mp first.owns
    exact Option.some.inj (own.symm.trans ((guarded.owns other).mp second.owns))
  set lock thread holds := by
    obtain ⟨owner, guarded⟩ := sound.guarded lock
    rw [guarded.flag, (guarded.owns thread).mp holds.owns]
    rfl
  byHolder lock thread destroys here := by
    obtain ⟨owner, guarded⟩ := sound.guarded lock
    have locked := sound.consistent thread
    simp only [Consistent, here] at locked
    have own : s.Owns thread lock := .inr ⟨locked, by simp [here]⟩
    obtain ⟨owners, past⟩ := guarded.history
    rw [(guarded.owns thread).mp own] at past
    exact ⟨owners, past⟩
  released lock gone := by
    obtain ⟨owner, guarded⟩ := sound.guarded lock
    obtain ⟨owners, past⟩ := guarded.history
    cases owner with
    | none => exact ⟨owners, by simpa using past⟩
    | some thread =>
      obtain ⟨none, apart⟩ := gone thread
      rcases (guarded.owns thread).mpr rfl with taken | ⟨locked, -⟩
      · exact absurd taken apart
      · rw [none] at locked
        cases locked

/-- In every state of every run at most one thread holds a lock through its guard, the flag is
set while one does, a lock is cleared by its holder only, and once all guards are gone every
acquisition has been followed by its release before the next one. -/
theorem guards_exclusive [DecidableEq ι] [DecidableEq Lock] (actions : List (Action ι Lock))
    (final : ScopedLocks ι Lock) (ran : Transition.run step {} actions = some final) :
    final.Exclusive :=
  (Transition.run_invariant (fun _ _ _ sound stepped => Sound.step sound stepped) sound_initial
    ran).exclusive

/-- The second thread tries the lock of the first in vain until that one has destroyed its
guard. -/
def takingTurns : List (Action Bool Unit) :=
  [.construct true (), .next true, .next true, .construct false (), .next false,
    .destroy true (), .next true, .next true, .next false, .next false]

theorem guards_exclusive_takingTurns :
    ∃ final, Transition.run step {} takingTurns = some final ∧ final.Exclusive := by
  obtain ⟨final, ran⟩ : ∃ final, Transition.run step {} takingTurns = some final := ⟨_, rfl⟩
  exact ⟨final, ran, guards_exclusive takingTurns final ran⟩

end Chord.ScopedLocks
