import ChordServer.LockProgram

set_option autoImplicit false

/-- The threads `ι`, each with what is left of the operation it is performing, the locks,
and the data they share. -/
structure LockThreads (ι Lock Shared Fault : Type) where
  shared : Shared
  mutexes : Lock → RWMutex ι := fun _ => {}
  code : ι → LockProgram Lock Shared Fault Unit := fun _ => .done ()

namespace LockThreads

open LockProgram

variable {ι Lock Shared Fault Op : Type} [DecidableEq ι] [DecidableEq Lock]

/-- A thread begins an operation, or it makes the next step of the one it is performing. -/
inductive Action (ι Op : Type)
  | start (thread : ι) (operation : Op)
  | next (thread : ι)

def goto (s : LockThreads ι Lock Shared Fault) (thread : ι)
    (code : LockProgram Lock Shared Fault Unit) : LockThreads ι Lock Shared Fault :=
  { s with code := Function.update s.code thread code }

def setMutex (s : LockThreads ι Lock Shared Fault) (lock : Lock) (mutex : RWMutex ι) :
    LockThreads ι Lock Shared Fault :=
  { s with mutexes := Function.update s.mutexes lock mutex }

omit [DecidableEq ι] in
@[simp] theorem setMutex_mutexes (s : LockThreads ι Lock Shared Fault) (lock : Lock)
    (mutex : RWMutex ι) :
    (s.setMutex lock mutex).mutexes = Function.update s.mutexes lock mutex := rfl

/-- `none` while the lock cannot be had. -/
def take (mutex : RWMutex ι) (thread : ι) : LockMode → Option (RWMutex ι)
  | .read => mutex.rdlock thread
  | .write => mutex.wrlock thread

def step (operations : Op → LockProgram Lock Shared Fault Unit)
    (s : LockThreads ι Lock Shared Fault) :
    Action ι Op → Option (LockThreads ι Lock Shared Fault)
  | .start thread operation =>
      match s.code thread with
      | .done _ => some (s.goto thread (operations operation))
      | _ => none
  | .next thread =>
      match s.code thread with
      | .done _ => none
      | .crash _ => none
      | .acquire lock mode rest =>
          (take (s.mutexes lock) thread mode).map fun mutex =>
            (s.setMutex lock mutex).goto thread rest
      | .release lock rest =>
          some ((s.setMutex lock ((s.mutexes lock).unlock thread)).goto thread rest)
      | .access update rest => some { s.goto thread (rest s.shared) with shared := update s.shared }

def Holds (s : LockThreads ι Lock Shared Fault) (thread : ι) (lock : Lock) : Prop :=
  (s.mutexes lock).Holds thread

/-- The thread is about to take the lock. -/
def Requests (s : LockThreads ι Lock Shared Fault) (thread : ι) (lock : Lock) : Prop :=
  ∃ mode rest, s.code thread = .acquire lock mode rest

/-- The thread is about to take a lock that the other thread holds. -/
def WaitsFor (s : LockThreads ι Lock Shared Fault) (thread other : ι) : Prop :=
  ∃ lock, s.Requests thread lock ∧ s.Holds other lock

structure DeadlockFree (s : LockThreads ι Lock Shared Fault) : Prop where
  fresh : ∀ thread lock, s.Requests thread lock → ¬ s.Holds thread lock
  acyclic : ∀ thread, ¬ Relation.TransGen s.WaitsFor thread thread

variable (rank : Lock → Nat) (valid : Shared → Prop)

/-- A thread whose code takes, above the locks it holds, the others in order. -/
structure Disciplined (s : LockThreads ι Lock Shared Fault) (thread : ι) (held : List Lock) :
    Prop where
  holds : ∀ lock, s.Holds thread lock ↔ lock ∈ held
  sorted : held.Pairwise fun later earlier => rank earlier < rank later
  ordered : (s.code thread).Ordered rank valid 0 [] held

structure Sound (s : LockThreads ι Lock Shared Fault) : Prop where
  shared : valid s.shared
  mutexes : ∀ lock, (s.mutexes lock).Sound
  threads : ∀ thread, ∃ held, s.Disciplined rank valid thread held

variable {rank valid} {s : LockThreads ι Lock Shared Fault}

omit [DecidableEq ι] [DecidableEq Lock] in
theorem Disciplined.request {thread : ι} {held : List Lock} {lock : Lock}
    (disciplined : s.Disciplined rank valid thread held) (requests : s.Requests thread lock) :
    ∀ other, s.Holds thread other → rank other < rank lock := by
  obtain ⟨mode, rest, code⟩ := requests
  have ordered := disciplined.ordered
  rw [code] at ordered
  exact fun other holds => ordered.2.1 other ((disciplined.holds other).mp holds)

omit [DecidableEq ι] [DecidableEq Lock] in
/-- Along a chain of waiting threads the ranks of the locks they wait for go up. -/
theorem Sound.rank_lt_of_waits (sound : s.Sound rank valid) {thread other : ι}
    (waits : Relation.TransGen s.WaitsFor thread other) {lock : Lock}
    (requests : s.Requests other lock) :
    ∃ first, s.Requests thread first ∧ rank first < rank lock := by
  induction waits using Relation.TransGen.head_induction_on with
  | single here =>
    obtain ⟨first, requested, held⟩ := here
    obtain ⟨_, disciplined⟩ := sound.threads other
    exact ⟨first, requested, disciplined.request requests first held⟩
  | @head a b here _ ih =>
    obtain ⟨first, requested, held⟩ := here
    obtain ⟨second, requests', less⟩ := ih
    obtain ⟨_, disciplined⟩ := sound.threads b
    exact ⟨first, requested, (disciplined.request requests' first held).trans less⟩

omit [DecidableEq ι] [DecidableEq Lock] in
theorem Sound.deadlockFree (sound : s.Sound rank valid) : s.DeadlockFree := by
  constructor
  · intro thread lock requests holds
    obtain ⟨held, disciplined⟩ := sound.threads thread
    exact absurd (disciplined.request requests lock holds) (Nat.lt_irrefl _)
  · intro thread waits
    obtain ⟨lock, requests⟩ : ∃ lock, s.Requests thread lock := by
      obtain ⟨_, ⟨lock, requests, -⟩, -⟩ := Relation.TransGen.head'_iff.mp waits
      exact ⟨lock, requests⟩
    obtain ⟨first, requested, less⟩ := sound.rank_lt_of_waits waits requests
    obtain ⟨mode, rest, code⟩ := requests
    obtain ⟨mode', rest', code'⟩ := requested
    rw [code] at code'
    cases code'
    exact Nat.lt_irrefl _ less

omit [DecidableEq Lock] in
/-- A step of one thread that leaves the others their locks. -/
theorem Sound.goto {next : LockThreads ι Lock Shared Fault} {thread : ι} {held : List Lock}
    {rest : LockProgram Lock Shared Fault Unit} (sound : s.Sound rank valid)
    (code : next.code = Function.update s.code thread rest) (shared : valid next.shared)
    (mutexes : ∀ lock, (next.mutexes lock).Sound)
    (others : ∀ other, other ≠ thread → ∀ lock, next.Holds other lock ↔ s.Holds other lock)
    (holds : ∀ lock, next.Holds thread lock ↔ lock ∈ held)
    (sorted : held.Pairwise fun later earlier => rank earlier < rank later)
    (ordered : rest.Ordered rank valid 0 [] held) : next.Sound rank valid := by
  refine ⟨shared, mutexes, fun other => ?_⟩
  by_cases here : other = thread
  · subst here
    refine ⟨held, holds, sorted, ?_⟩
    rw [code, Function.update_self]
    exact ordered
  · obtain ⟨kept, disciplined⟩ := sound.threads other
    refine ⟨kept, fun lock => (others other here lock).trans (disciplined.holds lock),
      disciplined.sorted, ?_⟩
    rw [code, Function.update_of_ne here]
    exact disciplined.ordered

omit [DecidableEq ι] in
theorem setMutex_holds (s : LockThreads ι Lock Shared Fault) (lock : Lock) (mutex : RWMutex ι)
    (thread : ι) (other : Lock) :
    (s.setMutex lock mutex).Holds thread other ↔
      if other = lock then mutex.Holds thread else s.Holds thread other := by
  unfold Holds
  rw [setMutex_mutexes]
  by_cases same : other = lock
  · rw [if_pos same, same, Function.update_self]
  · rw [if_neg same, Function.update_of_ne same]

omit [DecidableEq ι] in
theorem setMutex_sound {lock : Lock} {mutex : RWMutex ι} (sound : ∀ lock, (s.mutexes lock).Sound)
    (this : mutex.Sound) (other : Lock) : ((s.setMutex lock mutex).mutexes other).Sound := by
  rw [setMutex_mutexes]
  by_cases same : other = lock
  · rw [same, Function.update_self]
    exact this
  · rw [Function.update_of_ne same]
    exact sound other

omit [DecidableEq ι] in
/-- A lock that changes for one thread only. -/
theorem setMutex_others {lock : Lock} {mutex : RWMutex ι} {thread : ι}
    (same : ∀ other, other ≠ thread → (mutex.Holds other ↔ (s.mutexes lock).Holds other))
    (other : ι) (apart : other ≠ thread) (lock' : Lock) :
    (s.setMutex lock mutex).Holds other lock' ↔ s.Holds other lock' := by
  rw [setMutex_holds]
  split_ifs with here
  · rw [same other apart, here]
    rfl
  · rfl

omit [DecidableEq ι] [DecidableEq Lock] in
theorem take_sound {mutex next : RWMutex ι} {thread : ι} {mode : LockMode} (sound : mutex.Sound)
    (free : ¬ mutex.Holds thread) (taken : take mutex thread mode = some next) :
    next.Sound ∧ ∀ other, next.Holds other ↔ other = thread ∨ mutex.Holds other := by
  cases mode with
  | read => exact sound.rdlock free taken
  | write => exact sound.wrlock taken

omit [DecidableEq Lock] in
theorem Sound.start {thread : ι} {code : LockProgram Lock Shared Fault Unit}
    (sound : s.Sound rank valid) {result : Unit} (done : s.code thread = .done result)
    (above : Above rank valid 0 code) : (s.goto thread code).Sound rank valid := by
  obtain ⟨held, disciplined⟩ := sound.threads thread
  have ordered := disciplined.ordered
  rw [done] at ordered
  obtain rfl : held = [] := ordered
  exact sound.goto rfl sound.shared sound.mutexes (fun _ _ _ => Iff.rfl) disciplined.holds .nil
    above

theorem Sound.acquire {thread : ι} {lock : Lock} {mode : LockMode}
    {rest : LockProgram Lock Shared Fault Unit} {mutex : RWMutex ι} (sound : s.Sound rank valid)
    (code : s.code thread = .acquire lock mode rest)
    (taken : take (s.mutexes lock) thread mode = some mutex) :
    ((s.setMutex lock mutex).goto thread rest).Sound rank valid := by
  obtain ⟨held, disciplined⟩ := sound.threads thread
  have ordered := disciplined.ordered
  rw [code] at ordered
  obtain ⟨-, higher, ordered⟩ := ordered
  have free : ¬ s.Holds thread lock := fun holds =>
    Nat.lt_irrefl _ (disciplined.request ⟨mode, rest, code⟩ lock holds)
  obtain ⟨this, holds⟩ := take_sound (sound.mutexes lock) free taken
  have after : ∀ other, ((s.setMutex lock mutex).goto thread rest).Holds thread other ↔
      other ∈ lock :: held := by
    intro other
    refine (setMutex_holds s lock mutex thread other).trans ?_
    rw [List.mem_cons]
    split_ifs with same
    · simp [same, holds]
    · rw [disciplined.holds, or_iff_right same]
  refine sound.goto rfl sound.shared (setMutex_sound sound.mutexes this)
    (setMutex_others fun other apart => ?_) after
    (List.pairwise_cons.mpr ⟨higher, disciplined.sorted⟩) ordered
  rw [holds, or_iff_right apart]

theorem Sound.release {thread : ι} {lock : Lock} {rest : LockProgram Lock Shared Fault Unit}
    (sound : s.Sound rank valid) (code : s.code thread = .release lock rest) :
    ((s.setMutex lock ((s.mutexes lock).unlock thread)).goto thread rest).Sound rank valid := by
  obtain ⟨held, disciplined⟩ := sound.threads thread
  have ordered := disciplined.ordered
  rw [code] at ordered
  obtain ⟨outer, rfl, ordered⟩ := ordered
  obtain ⟨below, sorted⟩ := List.pairwise_cons.mp disciplined.sorted
  obtain ⟨this, holds⟩ :=
    (sound.mutexes lock).unlock ((disciplined.holds lock).mpr List.mem_cons_self)
  have after : ∀ other, ((s.setMutex lock ((s.mutexes lock).unlock thread)).goto thread rest).Holds
      thread other ↔ other ∈ outer := by
    intro other
    refine (setMutex_holds s lock _ thread other).trans ?_
    split_ifs with same
    · subst same
      rw [holds]
      exact ⟨fun held => absurd rfl held.1, fun member =>
        absurd (below other member) (Nat.lt_irrefl _)⟩
    · rw [disciplined.holds, List.mem_cons, or_iff_right same]
  refine sound.goto rfl sound.shared (setMutex_sound sound.mutexes this)
    (setMutex_others fun other apart => ?_) after sorted ordered
  rw [holds, and_iff_right apart]

omit [DecidableEq Lock] in
theorem Sound.access {thread : ι} {update : Shared → Shared}
    {rest : Shared → LockProgram Lock Shared Fault Unit} (sound : s.Sound rank valid)
    (code : s.code thread = .access update rest) :
    ({ s.goto thread (rest s.shared) with shared := update s.shared } :
      LockThreads ι Lock Shared Fault).Sound rank valid := by
  obtain ⟨held, disciplined⟩ := sound.threads thread
  have ordered := disciplined.ordered
  rw [code] at ordered
  obtain ⟨shared, ordered⟩ := ordered s.shared sound.shared
  exact sound.goto rfl shared sound.mutexes (fun _ _ _ => Iff.rfl) disciplined.holds
    disciplined.sorted ordered

theorem Sound.step {operations : Op → LockProgram Lock Shared Fault Unit}
    (above : ∀ operation, Above rank valid 0 (operations operation))
    {next : LockThreads ι Lock Shared Fault} {action : Action ι Op} (sound : s.Sound rank valid)
    (stepped : s.step operations action = some next) : next.Sound rank valid := by
  cases action with
  | start thread operation =>
    simp only [LockThreads.step] at stepped
    split at stepped
    · rename_i done
      cases stepped
      exact sound.start done (above operation)
    · cases stepped
  | next thread =>
    simp only [LockThreads.step] at stepped
    split at stepped
    · cases stepped
    · cases stepped
    · rename_i code
      obtain ⟨mutex, taken, rfl⟩ := Option.map_eq_some_iff.mp stepped
      exact sound.acquire code taken
    · rename_i code
      cases stepped
      exact sound.release code
    · rename_i code
      cases stepped
      exact sound.access code

/-- Threads whose operations take their locks in the order of a rank never deadlock. -/
theorem everyState_deadlockFree {operations : Op → LockProgram Lock Shared Fault Unit}
    (above : ∀ operation, Above rank valid 0 (operations operation)) {shared : Shared}
    (initial : valid shared) (actions : List (Action ι Op)) :
    Transition.EveryState (step operations) DeadlockFree
      ({ shared := shared } : LockThreads ι Lock Shared Fault) actions := by
  have start : ({ shared := shared } : LockThreads ι Lock Shared Fault).Sound rank valid := by
    refine ⟨initial, fun lock => ⟨fun _ => nofun, .nil⟩,
      fun thread => ⟨[], fun lock => ?_, .nil, rfl⟩⟩
    simp [Holds, RWMutex.Holds]
  exact Transition.everyState_of_invariant (fun _ sound => Sound.deadlockFree sound)
    (fun _ _ _ sound stepped => sound.step above stepped) start

end LockThreads
