import ChordServer.LockRulesRuns
import Mathlib.Data.List.Pairwise
import Mathlib.Data.List.Perm.Basic

set_option autoImplicit false

namespace Chord

open LockRules LockThreads

/-- Where a guard stands: with `m_locked` unset, in the call that takes the lock, behind it and
before `m_locked = true`, with `m_locked` set, before `m_mutex.unlock()`, or behind it and before
`m_locked = false`. A guard that is unlocked by its destructor is gone afterwards. -/
inductive RWGuardPhase
  | unlocked
  | taking
  | taken
  | locked
  | giving (destroys : Bool)
  | given (destroys : Bool)
  | gone
  deriving DecidableEq, Repr

/-- The lock has been taken through the guard and not yet been given up. -/
def RWGuardPhase.owns : RWGuardPhase → Bool
  | .taken | .locked | .giving _ => true
  | _ => false

/-- The guard is in its constructor or destructor, or in `lock()` or `unlock()`. -/
def RWGuardPhase.inside : RWGuardPhase → Bool
  | .unlocked | .locked | .gone => false
  | _ => true

/-- A `ReadScopedLockImpl<RWMutex>` or a `WriteScopedLockImpl<RWMutex>`, by its mode. -/
structure RWGuard (ι Lock : Type) where
  thread : ι
  lock : Lock
  mode : LockMode
  phase : RWGuardPhase := .taking
  deriving DecidableEq, Repr

/-- The thread has the lock in this mode through the guard. -/
def RWGuard.Gives {ι Lock : Type} (g : RWGuard ι Lock) (thread : ι) (lock : Lock)
    (mode : LockMode) : Prop :=
  g.thread = thread ∧ g.lock = lock ∧ g.mode = mode ∧ g.phase.owns

instance {ι Lock : Type} [DecidableEq ι] [DecidableEq Lock] (g : RWGuard ι Lock) (thread : ι)
    (lock : Lock) (mode : LockMode) : Decidable (g.Gives thread lock mode) :=
  inferInstanceAs (Decidable (_ ∧ _ ∧ _ ∧ _))

/-- The locks, and all guards that there have been, in the order of their construction. -/
structure RWScopedLocks (ι Lock : Type) where
  m_mutex : Lock → RWMutex ι := fun _ => {}
  guards : List (RWGuard ι Lock) := []

namespace RWScopedLocks

/-- A thread constructs a guard, or `lock()`, `unlock()` or the destructor of a guard is called,
or the call that the guard is in makes its next step. -/
inductive Action (ι Lock : Type)
  | construct (thread : ι) (lock : Lock) (mode : LockMode)
  | lock (guard : Nat)
  | unlock (guard : Nat)
  | destroy (guard : Nat)
  | next (guard : Nat)
  deriving DecidableEq, Repr

variable {ι Lock : Type} [DecidableEq ι] [DecidableEq Lock]

def setPhase (s : RWScopedLocks ι Lock) (i : Nat) (g : RWGuard ι Lock) (phase : RWGuardPhase) :
    RWScopedLocks ι Lock :=
  { s with guards := s.guards.set i { g with phase := phase } }

def setMutex (s : RWScopedLocks ι Lock) (lock : Lock) (mutex : RWMutex ι) :
    RWScopedLocks ι Lock :=
  { s with m_mutex := Function.update s.m_mutex lock mutex }

/-- The thread is in a call on one of its guards, or in the constructor of one. -/
def busy (s : RWScopedLocks ι Lock) (thread : ι) : Bool :=
  s.guards.any fun g => g.thread = thread && g.phase.inside

/-- A call on a guard by a thread that is in no other one; `lock()` and `unlock()` test
`m_locked`. -/
def call (s : RWScopedLocks ι Lock) (i : Nat) (unlocked locked : RWGuard ι Lock →
    RWScopedLocks ι Lock) : Option (RWScopedLocks ι Lock) :=
  match s.guards[i]? with
  | none => none
  | some g =>
      if s.busy g.thread then none
      else
        match g.phase with
        | .unlocked => some (unlocked g)
        | .locked => some (locked g)
        | _ => none

/-- `rdlock` or `wrlock`, which do not look at what pthread answers: a thread that already has the
lock for writing is told `EDEADLK` and comes back without having taken it. `none` while the lock
cannot be had, which is for ever where a thread that reads asks to write. -/
def request (mutex : RWMutex ι) (thread : ι) (mode : LockMode) : Option (RWMutex ι) :=
  if mutex.writer = some thread then some mutex else take mutex thread mode

def next (s : RWScopedLocks ι Lock) (i : Nat) : Option (RWScopedLocks ι Lock) :=
  match s.guards[i]? with
  | none => none
  | some g =>
      match g.phase with
      | .taking =>
          (request (s.m_mutex g.lock) g.thread g.mode).map fun mutex =>
            (s.setMutex g.lock mutex).setPhase i g .taken
      | .taken => some (s.setPhase i g .locked)
      | .giving destroys =>
          some ((s.setMutex g.lock ((s.m_mutex g.lock).unlock g.thread)).setPhase i g
            (.given destroys))
      | .given destroys => some (s.setPhase i g (if destroys then .gone else .unlocked))
      | _ => none

def step (s : RWScopedLocks ι Lock) : Action ι Lock → Option (RWScopedLocks ι Lock)
  | .construct thread lock mode =>
      if s.busy thread then none
      else some { s with guards := s.guards ++ [{ thread := thread, lock := lock, mode := mode }] }
  | .lock i => s.call i (fun g => s.setPhase i g .taking) fun _ => s
  | .unlock i => s.call i (fun _ => s) fun g => s.setPhase i g (.giving false)
  | .destroy i => s.call i (fun g => s.setPhase i g .gone) fun g => s.setPhase i g (.giving true)
  | .next i => s.next i

/-- What the guards promise of a state: of two that own one lock both read, a thread is among the
readers of a lock as often as it has guards that own it for reading and writes it if one owns it
for writing, and a lock that no guard owns is free. -/
structure Guarded (s : RWScopedLocks ι Lock) : Prop where
  alone : s.guards.Pairwise fun g h => g.lock = h.lock → g.phase.owns → h.phase.owns →
    g.mode = .read ∧ h.mode = .read
  reads : ∀ lock thread, (s.m_mutex lock).readers.count thread =
    s.guards.countP fun g => g.Gives thread lock .read
  writes : ∀ lock thread, (s.m_mutex lock).writer = some thread ↔
    ∃ g ∈ s.guards, g.Gives thread lock .write
  free : ∀ lock, (∀ g ∈ s.guards, g.lock = lock → g.phase.owns = false) → s.m_mutex lock = {}

/-- A guard is about to take a lock that its thread has through another guard for writing. -/
def Nests (s : RWScopedLocks ι Lock) : Action ι Lock → Prop
  | .next i => ∃ g ∈ s.guards[i]?, g.phase = .taking ∧
      ∃ h ∈ s.guards, h.Gives g.thread g.lock .write
  | _ => False

instance (s : RWScopedLocks ι Lock) : DecidablePred s.Nests
  | .next _ => inferInstanceAs (Decidable (∃ g ∈ _, _ ∧ _))
  | .construct .. | .lock _ | .unlock _ | .destroy _ => inferInstanceAs (Decidable False)

/-- The entry of a guard in the list of the locks that the thread holds. -/
def entry (thread : ι) (g : RWGuard ι Lock) : Option (Lock × LockMode) :=
  if g.thread = thread ∧ g.phase.owns then some (g.lock, g.mode) else none

/-- The locks that the thread holds through its guards. -/
def held (s : RWScopedLocks ι Lock) (thread : ι) : HeldLocks Lock :=
  s.guards.filterMap (entry thread)

/-- The invariant of every run. -/
structure Sound (s : RWScopedLocks ι Lock) : Prop where
  exclusive : ∀ lock, (s.m_mutex lock).Exclusive
  lists : ∀ thread lock, Lists (s.m_mutex lock) thread lock (s.held thread)

variable {s t : RWScopedLocks ι Lock} {thread : ι} {lock : Lock} {g : RWGuard ι Lock}

/-- The order of the locks is no matter. -/
theorem lists_of_perm {mutex : RWMutex ι} {first second : HeldLocks Lock}
    (lists : Lists mutex thread lock first) (perm : first.Perm second) :
    Lists mutex thread lock second :=
  ⟨lists.reads.trans (perm.count_eq _), (perm.count_eq _).symm.trans lists.writes⟩

omit [DecidableEq ι] [DecidableEq Lock] in
theorem guards_split {i : Nat} (here : s.guards[i]? = some g) (phase : RWGuardPhase) :
    ∃ before after, s.guards = before ++ g :: after ∧
      (s.setPhase i g phase).guards = before ++ { g with phase := phase } :: after := by
  obtain ⟨inside, same⟩ := List.getElem?_eq_some_iff.mp here
  refine ⟨s.guards.take i, s.guards.drop (i + 1), ?_, ?_⟩
  · rw [← same, List.getElem_cons_drop, List.take_append_drop]
  · rw [setPhase, List.set_eq_take_append_cons_drop, if_pos inside]

omit [DecidableEq Lock] in
/-- What the threads hold after a guard has changed its phase. -/
theorem held_setPhase (thread : ι) {i : Nat} (here : s.guards[i]? = some g) (phase : RWGuardPhase) :
    ∃ rest : HeldLocks Lock,
      (s.held thread).Perm ((entry thread g).toList ++ rest) ∧
      ((s.setPhase i g phase).held thread).Perm
        ((entry thread { g with phase := phase }).toList ++ rest) := by
  obtain ⟨before, after, shape, changed⟩ := guards_split here phase
  have move : ∀ h : RWGuard ι Lock, ((before ++ h :: after).filterMap (entry thread)).Perm
      ((entry thread h).toList ++ (before ++ after).filterMap (entry thread)) := by
    intro h
    rw [List.filterMap_append, List.filterMap_cons, List.filterMap_append]
    cases entry thread h with
    | none => exact .refl _
    | some entry => exact List.perm_middle
  refine ⟨(before ++ after).filterMap (entry thread), ?_, ?_⟩
  · rw [held, shape]
    exact move g
  · rw [held, changed]
    exact move _

/-- A change of the phase that takes and gives up nothing. -/
theorem Sound.setPhase (sound : s.Sound) {i : Nat} (here : s.guards[i]? = some g)
    {phase : RWGuardPhase} (same : phase.owns = g.phase.owns) :
    (s.setPhase i g phase).Sound := by
  refine ⟨sound.exclusive, fun thread lock => ?_⟩
  obtain ⟨rest, before, after⟩ := held_setPhase thread here phase
  refine lists_of_perm (sound.lists thread lock) (before.trans ?_)
  rw [show entry thread g = entry thread { g with phase := phase } by rw [entry, entry, same]]
  exact after.symm

omit [DecidableEq Lock] in
theorem held_other {i : Nat} (here : s.guards[i]? = some g) (phase : RWGuardPhase)
    (apart : thread ≠ g.thread) : (s.held thread).Perm ((s.setPhase i g phase).held thread) := by
  obtain ⟨rest, before, after⟩ := held_setPhase thread here phase
  have absent : ∀ phase, entry thread { g with phase := phase } = none :=
    fun phase => if_neg fun both => apart both.1.symm
  rw [show entry thread g = none from absent g.phase] at before
  rw [absent] at after
  exact before.trans after.symm

omit [DecidableEq Lock] in
/-- The thread holds one lock more when a guard comes to own it. -/
theorem held_own {i : Nat} (here : s.guards[i]? = some g) {phase : RWGuardPhase}
    (before : g.phase.owns = false) (after : phase.owns = true) :
    ((g.lock, g.mode) :: s.held g.thread).Perm ((s.setPhase i g phase).held g.thread) := by
  obtain ⟨rest, old, new⟩ := held_setPhase g.thread here phase
  rw [show entry g.thread g = none from if_neg (by simp [before])] at old
  rw [show entry g.thread { g with phase := phase } = some (g.lock, g.mode) from
    if_pos ⟨rfl, after⟩] at new
  exact (old.cons _).trans new.symm

omit [DecidableEq Lock] in
theorem held_disown {i : Nat} (here : s.guards[i]? = some g) {phase : RWGuardPhase}
    (before : g.phase.owns = true) (after : phase.owns = false) :
    (s.held g.thread).Perm ((g.lock, g.mode) :: (s.setPhase i g phase).held g.thread) := by
  obtain ⟨rest, old, new⟩ := held_setPhase g.thread here phase
  rw [show entry g.thread g = some (g.lock, g.mode) from if_pos ⟨rfl, before⟩] at old
  rw [show entry g.thread { g with phase := phase } = none from if_neg (by simp [after])] at new
  exact old.trans (new.symm.cons _)

/-- A step in which one lock changes, for the thread of one guard. -/
theorem Sound.setMutex (sound : s.Sound) {i : Nat} (here : s.guards[i]? = some g)
    {phase : RWGuardPhase} {mutex : RWMutex ι} (exclusive : mutex.Exclusive)
    (this : Lists mutex g.thread g.lock ((s.setPhase i g phase).held g.thread))
    (elsewhere : ∀ place, place ≠ g.lock →
      Lists (s.m_mutex place) g.thread place ((s.setPhase i g phase).held g.thread))
    (others : ∀ other, other ≠ g.thread → Lists mutex other g.lock (s.held other)) :
    ((s.setMutex g.lock mutex).setPhase i g phase).Sound := by
  have mutexes : ∀ place, ((s.setMutex g.lock mutex).setPhase i g phase).m_mutex place =
      if place = g.lock then mutex else s.m_mutex place := fun place =>
    Function.update_apply s.m_mutex g.lock mutex place
  refine ⟨fun place => ?_, fun thread place => ?_⟩ <;> rw [mutexes] <;> split_ifs with at_
  · exact exclusive
  · exact sound.exclusive place
  · subst at_
    by_cases own : thread = g.thread
    · subst own
      exact this
    · exact lists_of_perm (others thread own) (held_other here phase own)
  · by_cases own : thread = g.thread
    · subst own
      exact elsewhere place at_
    · exact lists_of_perm (sound.lists thread place) (held_other here phase own)

omit [DecidableEq Lock] in
theorem mem_held_iff {mode : LockMode} :
    (lock, mode) ∈ s.held thread ↔ ∃ g ∈ s.guards, g.Gives thread lock mode := by
  rw [held, List.mem_filterMap]
  refine exists_congr fun g => and_congr_right fun _ => ?_
  rw [entry, Option.ite_none_right_eq_some, Option.some.injEq, Prod.mk.injEq]
  unfold RWGuard.Gives
  tauto

theorem Sound.writer_iff (sound : s.Sound) : (s.m_mutex lock).writer = some thread ↔
    ∃ g ∈ s.guards, g.Gives thread lock .write :=
  (sound.lists thread lock).writer_iff.symm.trans mem_held_iff

/-- A guard that is about to take its lock nests if the thread has the lock for writing. -/
theorem Sound.nests_iff (sound : s.Sound) {i : Nat} (here : s.guards[i]? = some g)
    (phase : g.phase = .taking) :
    s.Nests (.next i) ↔ (s.m_mutex g.lock).writer = some g.thread := by
  rw [sound.writer_iff]
  constructor
  · rintro ⟨h, at_, -, nested⟩
    obtain rfl := Option.some.inj (here.symm.trans at_)
    exact nested
  · exact fun nested => ⟨g, here, phase, nested⟩

theorem Sound.next (sound : s.Sound) {i : Nat} (alone : ¬ s.Nests (.next i))
    (stepped : s.next i = some t) : t.Sound := by
  unfold RWScopedLocks.next at stepped
  cases here : s.guards[i]? with
  | none => simp [here] at stepped
  | some g =>
    simp only [here] at stepped
    cases phase : g.phase with
    | taking =>
      simp only [phase] at stepped
      obtain ⟨mutex, taken, rfl⟩ := Option.map_eq_some_iff.mp stepped
      rw [request, if_neg fun writes => alone ((sound.nests_iff here phase).mpr writes)] at taken
      obtain ⟨this, exclusive, others⟩ := (sound.lists g.thread g.lock).take taken
      have more := held_own here (by rw [phase]; rfl) (show RWGuardPhase.taken.owns = true from rfl)
      refine sound.setMutex here exclusive (lists_of_perm this more) (fun place apart => ?_)
        fun other apart => others other apart _ (sound.lists other g.lock)
      exact lists_of_perm ((lists_cons_of_ne apart).mpr (sound.lists g.thread place)) more
    | giving destroys =>
      simp only [phase] at stepped
      obtain rfl := Option.some.inj stepped
      have less := held_disown here (by rw [phase]; rfl)
        (show (RWGuardPhase.given destroys).owns = false from rfl)
      obtain ⟨this, -, others⟩ := (lists_of_perm (sound.lists g.thread g.lock) less).unlock
        (sound.exclusive g.lock)
      refine sound.setMutex here (sound.exclusive g.lock).unlock this (fun place apart => ?_)
        fun other apart => others other apart _ (sound.lists other g.lock)
      exact (lists_cons_of_ne apart).mp (lists_of_perm (sound.lists g.thread place) less)
    | taken =>
      simp only [phase] at stepped
      obtain rfl := Option.some.inj stepped
      exact sound.setPhase here (by rw [phase]; rfl)
    | given destroys =>
      simp only [phase] at stepped
      obtain rfl := Option.some.inj stepped
      refine sound.setPhase here ?_
      rw [phase]
      cases destroys <;> rfl
    | unlocked => simp [phase] at stepped
    | locked => simp [phase] at stepped
    | gone => simp [phase] at stepped

/-- A call on a guard begins. -/
theorem sound_call {i : Nat}
    {unlocked locked : RWGuard ι Lock → RWScopedLocks ι Lock}
    (idle : ∀ g, s.guards[i]? = some g → g.phase = .unlocked → (unlocked g).Sound)
    (owning : ∀ g, s.guards[i]? = some g → g.phase = .locked → (locked g).Sound)
    (stepped : s.call i unlocked locked = some t) : t.Sound := by
  unfold RWScopedLocks.call at stepped
  cases here : s.guards[i]? with
  | none => simp [here] at stepped
  | some g =>
    simp only [here] at stepped
    split at stepped
    · cases stepped
    split at stepped
    · rename_i phase
      obtain rfl := Option.some.inj stepped
      exact idle g here phase
    · rename_i phase
      obtain rfl := Option.some.inj stepped
      exact owning g here phase
    · cases stepped

theorem Sound.construct (sound : s.Sound) (thread : ι) (lock : Lock) (mode : LockMode) :
    ({ s with guards := s.guards ++ [{ thread := thread, lock := lock, mode := mode }] } :
      RWScopedLocks ι Lock).Sound := by
  refine ⟨sound.exclusive, fun other place => ?_⟩
  have same : ({ s with guards := s.guards ++ [{ thread := thread, lock := lock, mode := mode }] } :
      RWScopedLocks ι Lock).held other = s.held other := by
    simp [held, entry, RWGuardPhase.owns]
  rw [same]
  exact sound.lists other place

theorem Sound.step {action : Action ι Lock} (sound : s.Sound) (alone : ¬ s.Nests action)
    (stepped : RWScopedLocks.step s action = some t) : t.Sound := by
  cases action with
  | construct thread lock mode =>
    rw [RWScopedLocks.step] at stepped
    split at stepped
    · cases stepped
    · obtain rfl := Option.some.inj stepped
      exact sound.construct thread lock mode
  | lock i =>
    refine sound_call (fun g here phase => ?_) (fun _ _ _ => sound) stepped
    exact sound.setPhase here (by rw [phase]; rfl)
  | unlock i =>
    refine sound_call (fun _ _ _ => sound) (fun g here phase => ?_) stepped
    exact sound.setPhase here (by rw [phase]; rfl)
  | destroy i =>
    refine sound_call (fun g here phase => ?_) (fun g here phase => ?_) stepped <;>
      exact sound.setPhase here (by rw [phase]; rfl)
  | next i => exact sound.next alone stepped

theorem sound_initial : Sound ({} : RWScopedLocks ι Lock) where
  exclusive _ := by simp [RWMutex.Exclusive]
  lists _ _ := ⟨rfl, rfl⟩

omit [DecidableEq Lock] in
theorem mem_held (member : g ∈ s.guards) (owns : g.phase.owns = true) :
    (g.lock, g.mode) ∈ s.held g.thread :=
  mem_held_iff.mpr ⟨g, member, rfl, rfl, rfl, owns⟩

theorem count_held (mode : LockMode) :
    (s.held thread).count (lock, mode) = s.guards.countP fun g => g.Gives thread lock mode := by
  rw [held, List.count, List.countP_filterMap]
  refine List.countP_congr fun g _ => ?_
  rw [entry]
  split_ifs with own
  · simp [RWGuard.Gives, own]
  · simp only [Option.map_none, Option.getD_none, Bool.false_eq_true, decide_eq_true_eq, false_iff]
    exact fun gives => own ⟨gives.1, gives.2.2.2⟩

/-- A guard that writes is the only one that owns its lock. -/
theorem Sound.alone (sound : s.Sound) {h : RWGuard ι Lock} (pair : [g, h].Sublist s.guards)
    (same : g.lock = h.lock) (first : g.phase.owns = true) (second : h.phase.owns = true) :
    g.mode = .read ∧ h.mode = .read := by
  have here := mem_held (pair.subset List.mem_cons_self) first
  have there := mem_held (pair.subset (List.mem_cons_of_mem g List.mem_cons_self)) second
  have mine := sound.lists g.thread g.lock
  have other := sound.lists h.thread g.lock
  have exclusive := sound.exclusive g.lock
  rw [← same] at there
  -- A thread may have both guards; then the lock would be held twice, or for both.
  by_cases own : h.thread = g.thread
  · rw [own] at there
    have mixed : (g.lock, LockMode.write) ∈ s.held g.thread →
        (g.lock, LockMode.read) ∉ s.held g.thread := by
      intro writing reading
      have reads := mine.reader_iff.mp reading
      rw [exclusive g.thread (mine.writer_iff.mp writing)] at reads
      cases reads
    cases modes : g.mode <;> cases otherMode : h.mode <;> rw [modes] at here <;>
      rw [otherMode] at there
    · exact ⟨rfl, rfl⟩
    · exact absurd here (mixed there)
    · exact absurd there (mixed here)
    · have twice := (pair.filterMap (entry g.thread)).count_le (g.lock, LockMode.write)
      have both : [g, h].filterMap (entry g.thread) =
          [(g.lock, LockMode.write), (g.lock, LockMode.write)] := by
        simp [entry, first, second, own, modes, otherMode, same]
      have once := mine.writes
      rw [held] at once
      rw [both, once, List.count_cons_self, List.count_cons_self] at twice
      split_ifs at twice <;> omega
  · cases modes : g.mode with
    | write =>
      rw [modes] at here
      exact absurd here (mine.apart other exclusive own there)
    | read =>
      refine ⟨rfl, ?_⟩
      cases otherMode : h.mode with
      | read => rfl
      | write =>
        rw [otherMode] at there
        exact absurd there (other.apart mine exclusive (Ne.symm own) here)

theorem Sound.guarded (sound : s.Sound) : s.Guarded where
  alone := by
    rw [List.pairwise_iff_forall_sublist]
    exact fun pair same first second => sound.alone pair same first second
  reads lock thread := (sound.lists thread lock).reads.trans (count_held .read)
  writes _ _ := sound.writer_iff
  free lock unowned := by
    have nobody : ∀ thread mode, (lock, mode) ∉ s.held thread := by
      intro thread mode listed
      obtain ⟨g, member, entered⟩ := List.mem_filterMap.mp listed
      obtain ⟨⟨-, owns⟩, same⟩ := Option.ite_none_right_eq_some.mp entered
      rw [unowned g member (congrArg Prod.fst (Option.some.inj same))] at owns
      cases owns
    have unread : (s.m_mutex lock).readers = [] := List.eq_nil_iff_forall_not_mem.mpr
      fun thread reads => nobody thread .read ((sound.lists thread lock).reader_iff.mpr reads)
    have unwritten : (s.m_mutex lock).writer = none := Option.eq_none_iff_forall_not_mem.mpr
      fun thread writes => nobody thread .write ((sound.lists thread lock).writer_iff.mpr writes)
    cases mutex : s.m_mutex lock
    simp_all

/-- A guard that nests comes to own a lock that another one owns for writing. -/
theorem Nests.not_guarded {action : Action ι Lock} (nested : s.Nests action)
    (sound : s.Sound) (stepped : RWScopedLocks.step s action = some t) : ¬ t.Guarded := by
  cases action with
  | next i =>
    obtain ⟨g, here, phase, h, member, gives⟩ := nested
    have writes := (sound.nests_iff here phase).mp ⟨g, here, phase, h, member, gives⟩
    have after : t = s.setPhase i g .taken := by
      have goes := stepped
      simp only [RWScopedLocks.step, RWScopedLocks.next, Option.mem_def.mp here, phase, request,
        if_pos writes, Option.map_some, Option.some.injEq] at goes
      rw [← goes, setMutex, Function.update_eq_self]
    subst after
    intro guarded
    obtain ⟨before, later, shape, changed⟩ := guards_split here .taken
    have alone := guarded.alone
    rw [changed, List.pairwise_append, List.pairwise_cons] at alone
    -- The other guard stands before or behind the one that nests.
    have apart : h ∈ before ∨ h ∈ later := by
      rw [shape, List.mem_append, List.mem_cons] at member
      rcases member with first | rfl | last
      · exact .inl first
      · exact absurd gives.2.2.2 (by rw [phase]; exact Bool.false_ne_true)
      · exact .inr last
    have reads : h.mode = .read := by
      rcases apart with first | last
      · exact (alone.2.2 h first _ List.mem_cons_self gives.2.1 gives.2.2.2 rfl).1
      · exact (alone.2.1.1 h last gives.2.1.symm rfl gives.2.2.2).2
    rw [gives.2.2.1] at reads
    cases reads
  | construct | lock | unlock | destroy => exact nested.elim

theorem Sound.not_nests_of_blocked {action : Action ι Lock} (sound : s.Sound)
    (blocked : RWScopedLocks.step s action = none) : ¬ s.Nests action := by
  intro nested
  cases action with
  | next i =>
    obtain ⟨g, here, phase, nested⟩ := nested
    have writes := (sound.nests_iff here phase).mp ⟨g, here, phase, nested⟩
    simp [RWScopedLocks.step, RWScopedLocks.next, Option.mem_def.mp here, phase, request,
      writes] at blocked
  | construct | lock | unlock | destroy => exact nested.elim

/-- In every state of a run with any number of guards the locks are held as the guards that own
them say, a guard that owns one for writing alone with it, exactly if no guard takes a lock that its
thread has through another guard for writing. -/
theorem rwGuards_guarded_iff (actions : List (Action ι Lock)) :
    Transition.EveryState step Guarded ({} : RWScopedLocks ι Lock) actions ↔
      Transition.StepsMeet step (fun s action => ¬ Nests s action) {} actions :=
  Transition.everyState_iff_stepsMeet (fun _ sound => sound.guarded)
    (fun _ _ _ sound stepped alone => sound.step alone stepped)
    (fun _ _ _ sound stepped guarded nested => nested.not_guarded sound stepped guarded)
    (fun _ _ sound blocked => sound.not_nests_of_blocked blocked) sound_initial

/-- One thread reads through two guards, and the other waits until both are gone. -/
def readingTwice : List (Action Bool Unit) :=
  [.construct true () .read, .next 0, .next 0, .construct true () .read, .next 1, .next 1,
    .construct false () .write, .unlock 0, .next 0, .next 0, .destroy 1, .next 1, .next 1,
    .next 2, .next 2]

example : Transition.StepsMeet step (fun s action => ¬ Nests s action) {} readingTwice := by
  decide

/-- The second guard sets `m_locked` without having taken the lock. -/
example : ¬ Transition.StepsMeet step (fun s action => ¬ Nests s action)
    ({} : RWScopedLocks Bool Unit)
    [.construct true () .write, .next 0, .next 0, .construct true () .write, .next 1] := by
  decide

end RWScopedLocks

end Chord
