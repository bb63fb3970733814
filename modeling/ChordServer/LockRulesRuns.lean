import ChordServer.LockRules
import Mathlib.Data.List.Count
import Mathlib.Tactic.SplitIfs

set_option autoImplicit false

namespace LockThreads

open LockProgram LockRules

variable {ι Lock Shared Fault Op : Type} [DecidableEq ι] [DecidableEq Lock]

/-- The thread that an action is about. -/
def Action.thread : Action ι Op → ι
  | .start thread _ => thread
  | .next thread => thread

/-- The list has the lock as often as the thread holds it. -/
structure Lists (mutex : RWMutex ι) (thread : ι) (lock : Lock) (held : HeldLocks Lock) : Prop where
  reads : mutex.readers.count thread = held.count (lock, .read)
  writes : held.count (lock, .write) = if mutex.writer = some thread then 1 else 0

variable (rules : LockRules Lock Shared)

/-- With the locks that it holds, and with what it knows, the thread obeys the rules. -/
structure FollowsWith (s : LockThreads ι Lock Shared Fault) (thread : ι) (held : HeldLocks Lock)
    (known : Shared → Prop) : Prop where
  lists : ∀ lock, Lists (s.mutexes lock) thread lock held
  stable : rules.Stable held known
  knows : known s.shared
  obeys : (s.code thread).Obeys rules [] (fun _ _ => True) held known

/-- All threads obey the rules, and so the shared data are as they say. -/
structure Follows (s : LockThreads ι Lock Shared Fault) : Prop where
  valid : rules.valid s.shared
  exclusive : ∀ lock, (s.mutexes lock).Exclusive
  rests : ∀ lock, (s.mutexes lock).writer = none → rules.rests lock s.shared
  threads : ∀ thread, ∃ held known, s.FollowsWith rules thread held known

section Mutexes

variable {mutex next : RWMutex ι} {thread other : ι} {lock : Lock} {held outer : HeldLocks Lock}

theorem Lists.writer_iff (lists : Lists mutex thread lock held) :
    (lock, .write) ∈ held ↔ mutex.writer = some thread := by
  rw [← List.count_pos_iff, lists.writes]
  split_ifs with writer
  · exact iff_of_true Nat.zero_lt_one writer
  · exact iff_of_false (Nat.lt_irrefl 0) writer

theorem Lists.reader_iff (lists : Lists mutex thread lock held) :
    (lock, .read) ∈ held ↔ thread ∈ mutex.readers := by
  rw [← List.count_pos_iff, ← List.count_pos_iff, lists.reads]

/-- Nobody else has a lock that is held for writing. -/
theorem Lists.apart (lists : Lists mutex thread lock held) (others : Lists mutex other lock outer)
    (exclusive : mutex.Exclusive) (different : other ≠ thread) {mode : LockMode}
    (member : (lock, mode) ∈ outer) : (lock, .write) ∉ held := by
  intro writing
  have writer := lists.writer_iff.mp writing
  cases mode with
  | read =>
    have reads := others.reader_iff.mp member
    rw [exclusive thread writer] at reads
    cases reads
  | write =>
    have also := others.writer_iff.mp member
    exact different (Option.some.inj (also.symm.trans writer))

theorem Lists.take {mode : LockMode} (lists : Lists mutex thread lock held)
    (taken : take mutex thread mode = some next) :
    Lists next thread lock ((lock, mode) :: held) ∧ next.Exclusive ∧
      ∀ other, other ≠ thread → ∀ outer : HeldLocks Lock, Lists mutex other lock outer →
        Lists next other lock outer := by
  obtain ⟨reads, writes⟩ := lists
  cases mode with
  | read =>
    have exclusive := RWMutex.exclusive_of_rdlock taken
    obtain ⟨free, rfl⟩ := RWMutex.rdlock_eq_some_iff.mp taken
    refine ⟨⟨?_, ?_⟩, exclusive, fun other apart outer lists => ⟨?_, lists.writes⟩⟩
    · rw [List.count_cons_self, List.count_cons_self, reads]
    · rw [List.count_cons_of_ne (by simp), writes]
    · rw [List.count_cons_of_ne (Ne.symm apart), lists.reads]
  | write =>
    have exclusive := RWMutex.exclusive_of_wrlock taken
    obtain ⟨free, unread, rfl⟩ := RWMutex.wrlock_eq_some_iff.mp taken
    rw [if_neg (by rw [free]; simp)] at writes
    refine ⟨⟨?_, ?_⟩, exclusive, fun other apart outer lists => ⟨lists.reads, ?_⟩⟩
    · rw [List.count_cons_of_ne (by simp), reads]
    · rw [List.count_cons_self, writes, if_pos rfl]
    · rw [lists.writes, if_neg (by rw [free]; simp), if_neg]
      exact fun same => apart (Option.some.inj same).symm

theorem Lists.not_blocksItself {mode : LockMode} (lists : Lists mutex thread lock held)
    (taken : LockThreads.take mutex thread mode = some next) : ¬ BlocksItself held lock mode := by
  have free : mutex.writer = none ∧ (mode = .write → mutex.readers = []) := by
    cases mode with
    | read => exact ⟨(RWMutex.rdlock_eq_some_iff.mp taken).1, fun same => by cases same⟩
    | write =>
      have shape := RWMutex.wrlock_eq_some_iff.mp taken
      exact ⟨shape.1, fun _ => shape.2.1⟩
  rintro (writing | ⟨writes, reading⟩)
  · have writer := lists.writer_iff.mp writing
    rw [free.1] at writer
    cases writer
  · have reads := lists.reader_iff.mp reading
    rw [free.2 writes] at reads
    cases reads

theorem Lists.unlock {mode : LockMode} (lists : Lists mutex thread lock ((lock, mode) :: held))
    (exclusive : mutex.Exclusive) :
    Lists (mutex.unlock thread) thread lock held ∧
      (mode = .read → mutex.writer = none) ∧
      ∀ other, other ≠ thread → ∀ outer : HeldLocks Lock, Lists mutex other lock outer →
        Lists (mutex.unlock thread) other lock outer := by
  obtain ⟨reads, writes⟩ := lists
  cases mode with
  | read =>
    rw [List.count_cons_self] at reads
    rw [List.count_cons_of_ne (by simp)] at writes
    have reading : thread ∈ mutex.readers := List.count_pos_iff.mp (by rw [reads]; omega)
    have free : mutex.writer = none := by
      by_contra writer
      obtain ⟨writer, same⟩ := Option.ne_none_iff_exists'.mp writer
      rw [exclusive writer same] at reading
      cases reading
    rw [RWMutex.unlock_of_reader exclusive reading]
    refine ⟨⟨?_, writes⟩, fun _ => free, fun other apart outer lists => ⟨?_, lists.writes⟩⟩
    · rw [List.count_erase_self, reads, Nat.add_sub_cancel]
    · rw [List.count_erase_of_ne apart, lists.reads]
  | write =>
    rw [List.count_cons_of_ne (by simp)] at reads
    rw [List.count_cons_self] at writes
    have writer : mutex.writer = some thread := by
      by_contra apart
      rw [if_neg apart] at writes
      omega
    rw [if_pos writer] at writes
    rw [RWMutex.unlock_of_writer writer]
    refine ⟨⟨reads, ?_⟩, nofun, fun other apart outer lists => ⟨lists.reads, ?_⟩⟩
    · rw [if_neg (by simp)]
      omega
    · rw [lists.writes, writer, if_neg, if_neg (by simp)]
      exact fun same => apart (Option.some.inj same).symm

end Mutexes

variable {rules} {s next : LockThreads ι Lock Shared Fault} {thread : ι}
  {held outer : HeldLocks Lock} {known : Shared → Prop}

omit [DecidableEq Lock] in
/-- What one thread guarantees the others can rely on. -/
theorem rely_of_guarantee [DecidableEq Lock] {other : ι} (different : other ≠ thread)
    (exclusive : ∀ lock, (s.mutexes lock).Exclusive)
    (lists : ∀ lock, Lists (s.mutexes lock) thread lock held)
    (others : ∀ lock, Lists (s.mutexes lock) other lock outer) {t : Shared}
    (guarantee : rules.Guarantee held s.shared t) : rules.Rely outer s.shared t :=
  ⟨guarantee.valid, guarantee.grows, fun lock _ member =>
    guarantee.kept lock ((lists lock).apart (others lock) (exclusive lock) different member)⟩

/-- A step of one thread that the rules allow, and that leaves the others their locks. -/
theorem Follows.goto {rest : LockProgram Lock Shared Fault Unit} {last : HeldLocks Lock}
    {after : Shared → Prop} (follows : s.Follows rules)
    (lists : ∀ lock, Lists (s.mutexes lock) thread lock held)
    (code : next.code = Function.update s.code thread rest)
    (guarantee : rules.Guarantee held s.shared next.shared)
    (exclusive : ∀ lock, (next.mutexes lock).Exclusive)
    (rests : ∀ lock, (next.mutexes lock).writer = none → rules.rests lock next.shared)
    (others : ∀ other, other ≠ thread → ∀ outer : HeldLocks Lock, ∀ lock,
      Lists (s.mutexes lock) other lock outer → Lists (next.mutexes lock) other lock outer)
    (now : ∀ lock, Lists (next.mutexes lock) thread lock last) (stable : rules.Stable last after)
    (knows : after next.shared) (obeys : rest.Obeys rules [] (fun _ _ => True) last after) :
    next.Follows rules := by
  refine ⟨guarantee.valid, exclusive, rests, fun other => ?_⟩
  by_cases same : other = thread
  · subst same
    refine ⟨last, after, now, stable, knows, ?_⟩
    rw [code, Function.update_self]
    exact obeys
  · obtain ⟨outer, known, with_⟩ := follows.threads other
    refine ⟨outer, known, fun lock => others other same outer lock (with_.lists lock),
      with_.stable, ?_, ?_⟩
    · exact with_.stable _ _ follows.valid
        (rely_of_guarantee same follows.exclusive lists with_.lists guarantee) with_.knows
    · rw [code, Function.update_of_ne same]
      exact with_.obeys

omit [DecidableEq ι] in
/-- One lock changes, and the others are as before. -/
theorem setMutex_forall {lock : Lock} {mutex : RWMutex ι} (property : Lock → RWMutex ι → Prop)
    (this : property lock mutex)
    (others : ∀ place, place ≠ lock → property place (s.mutexes place)) (place : Lock) :
    property place ((s.setMutex lock mutex).mutexes place) := by
  rw [setMutex_mutexes]
  by_cases same : place = lock
  · subst same
    rwa [Function.update_self]
  · rw [Function.update_of_ne same]
    exact others place same

theorem lists_cons_of_ne {mutex : RWMutex ι} {lock place : Lock} {mode : LockMode}
    (apart : place ≠ lock) :
    Lists mutex thread place ((lock, mode) :: held) ↔ Lists mutex thread place held := by
  have other : ∀ asked, ((lock, mode) :: held).count (place, asked) = held.count (place, asked) :=
    fun asked => List.count_cons_of_ne fun same => apart (Prod.mk.inj same).1.symm
  constructor
  · rintro ⟨reads, writes⟩
    exact ⟨reads.trans (other _), (other _).symm.trans writes⟩
  · rintro ⟨reads, writes⟩
    exact ⟨reads.trans (other _).symm, (other _).trans writes⟩

/-- A step that takes or gives up one lock. -/
theorem Follows.setMutex {lock : Lock} {mutex : RWMutex ι} {last : HeldLocks Lock}
    {rest : LockProgram Lock Shared Fault Unit} {after : Shared → Prop}
    (follows : s.Follows rules) (lists : ∀ lock, Lists (s.mutexes lock) thread lock held)
    (exclusive : mutex.Exclusive) (rests : mutex.writer = none → rules.rests lock s.shared)
    (others : ∀ other, other ≠ thread → ∀ outer : HeldLocks Lock,
      Lists (s.mutexes lock) other lock outer → Lists mutex other lock outer)
    (this : Lists mutex thread lock last)
    (elsewhere : ∀ place, place ≠ lock → ∀ mutex : RWMutex ι,
      Lists mutex thread place held → Lists mutex thread place last)
    (stable : rules.Stable last after) (knows : after s.shared)
    (obeys : rest.Obeys rules [] (fun _ _ => True) last after) :
    ((s.setMutex lock mutex).goto thread rest).Follows rules := by
  refine follows.goto lists rfl (.refl follows.valid) ?_ ?_ ?_ ?_ stable knows obeys
  · exact setMutex_forall (fun _ mutex => mutex.Exclusive) exclusive
      fun place _ => follows.exclusive place
  · exact setMutex_forall (fun place mutex => mutex.writer = none → rules.rests place s.shared)
      rests fun place _ => follows.rests place
  · intro other apart outer
    exact setMutex_forall (fun place mutex =>
      Lists (s.mutexes place) other place outer → Lists mutex other place outer)
      (others other apart outer) fun _ _ => id
  · exact setMutex_forall (fun place mutex => Lists mutex thread place last) this
      fun place apart => elsewhere place apart _ (lists place)

theorem Follows.acquire {lock : Lock} {mode : LockMode} {rest : LockProgram Lock Shared Fault Unit}
    {mutex : RWMutex ι} (follows : s.Follows rules) (with_ : s.FollowsWith rules thread held known)
    (code : s.code thread = .acquire lock mode rest)
    (taken : take (s.mutexes lock) thread mode = some mutex) :
    ((s.setMutex lock mutex).goto thread rest).Follows rules := by
  obtain ⟨lists, -, knows, obeys⟩ := with_
  rw [code] at obeys
  have free : (s.mutexes lock).writer = none := by
    cases mode with
    | read => exact (RWMutex.rdlock_eq_some_iff.mp taken).1
    | write => exact (RWMutex.wrlock_eq_some_iff.mp taken).1
  obtain ⟨this, exclusive, others⟩ := (lists lock).take taken
  rcases obeys with blocks | ⟨after, stable, gives, later⟩
  · exact absurd blocks ((lists lock).not_blocksItself taken)
  · exact follows.setMutex lists exclusive (fun _ => follows.rests lock free) others this
      (fun place apart _ => (lists_cons_of_ne apart).mpr) stable
      (gives s.shared follows.valid knows (follows.rests lock free)) later

theorem Follows.release {lock : Lock} {rest : LockProgram Lock Shared Fault Unit}
    (follows : s.Follows rules) (with_ : s.FollowsWith rules thread held known)
    (code : s.code thread = .release lock rest) :
    ((s.setMutex lock ((s.mutexes lock).unlock thread)).goto thread rest).Follows rules := by
  obtain ⟨lists, -, knows, obeys⟩ := with_
  rw [code] at obeys
  obtain ⟨mode, outer, after, rfl, stable, gives, later⟩ := obeys
  obtain ⟨this, unwritten, others⟩ := (lists lock).unlock (follows.exclusive lock)
  obtain ⟨after', rested⟩ := gives s.shared follows.valid knows
  refine follows.setMutex lists (follows.exclusive lock).unlock (fun _ => ?_) others this
    (fun place apart _ => (lists_cons_of_ne apart).mp) stable after' later
  cases mode with
  | read => exact follows.rests lock (unwritten rfl)
  | write => exact rested rfl

theorem Follows.access {update : Shared → Shared}
    {rest : Shared → LockProgram Lock Shared Fault Unit} (follows : s.Follows rules)
    (with_ : s.FollowsWith rules thread held known) (code : s.code thread = .access update rest) :
    rules.Guarantee held s.shared (update s.shared) ∧
      ({ s.goto thread (rest s.shared) with shared := update s.shared } :
        LockThreads ι Lock Shared Fault).Follows rules := by
  obtain ⟨lists, -, knows, obeys⟩ := with_
  rw [code] at obeys
  obtain ⟨guarantee, after, stable, gives, later⟩ := obeys s.shared follows.valid knows
  refine ⟨guarantee, follows.goto lists rfl guarantee follows.exclusive (fun lock free => ?_)
    (fun _ _ _ _ => id) lists stable gives later⟩
  have free : (s.mutexes lock).writer = none := free
  have unwritten : (lock, .write) ∉ held := by
    rw [(lists lock).writer_iff, free]
    exact nofun
  exact rules.rests_kept lock _ _ (guarantee.kept lock unwritten) (follows.rests lock free)

theorem Follows.start {code : LockProgram Lock Shared Fault Unit} {result : Unit}
    (follows : s.Follows rules) (done : s.code thread = .done result)
    (steady : code.Steady rules []) : (s.goto thread code).Follows rules := by
  obtain ⟨held, known, lists, -, -, obeys⟩ := follows.threads thread
  rw [done] at obeys
  obtain rfl := obeys.1
  exact follows.goto lists rfl (.refl follows.valid) follows.exclusive follows.rests
    (fun _ _ _ _ => id) lists stable_true trivial steady

variable {operations : Op → LockProgram Lock Shared Fault Unit}

/-- What a step does to the shared data the rules allow to the thread with the locks that it
holds. -/
theorem Follows.step_of_started {action : Action ι Op}
    (steady : ∀ thread operation, action = .start thread operation →
      (operations operation).Steady rules [])
    (follows : s.Follows rules) (stepped : s.step operations action = some next) :
    next.Follows rules ∧ ∃ held, (∀ lock, Lists (s.mutexes lock) action.thread lock held) ∧
      rules.Guarantee held s.shared next.shared := by
  obtain ⟨held, known, with_⟩ := follows.threads action.thread
  cases action with
  | start thread operation =>
    simp only [LockThreads.step] at stepped
    split at stepped
    · rename_i done
      cases stepped
      exact ⟨follows.start done (steady thread operation rfl), held, with_.lists,
        .refl follows.valid⟩
    · cases stepped
  | next thread =>
    simp only [LockThreads.step] at stepped
    split at stepped
    · cases stepped
    · cases stepped
    · rename_i code
      obtain ⟨mutex, taken, rfl⟩ := Option.map_eq_some_iff.mp stepped
      exact ⟨follows.acquire with_ code taken, held, with_.lists, .refl follows.valid⟩
    · rename_i code
      cases stepped
      exact ⟨follows.release with_ code, held, with_.lists, .refl follows.valid⟩
    · rename_i code
      cases stepped
      obtain ⟨guarantee, after⟩ := follows.access with_ code
      exact ⟨after, held, with_.lists, guarantee⟩

theorem Follows.step (steady : ∀ operation, (operations operation).Steady rules [])
    {action : Action ι Op} (follows : s.Follows rules)
    (stepped : s.step operations action = some next) :
    next.Follows rules ∧ ∃ held, (∀ lock, Lists (s.mutexes lock) action.thread lock held) ∧
      rules.Guarantee held s.shared next.shared :=
  follows.step_of_started (fun _ operation _ => steady operation) stepped

theorem follows_initial {shared : Shared} (valid : rules.valid shared)
    (rests : ∀ lock, rules.rests lock shared) :
    ({ shared := shared } : LockThreads ι Lock Shared Fault).Follows rules := by
  refine ⟨valid, fun _ _ => nofun, fun lock _ => rests lock, fun thread => ?_⟩
  exact ⟨[], fun _ => True, fun lock => ⟨rfl, rfl⟩, stable_true, trivial, rfl, fun _ _ _ => trivial⟩

/-- Only the operations that threads begin need to obey the rules. -/
theorem follows_run_of_started {actions : List (Action ι Op)}
    (steady : ∀ thread operation, .start thread operation ∈ actions →
      (operations operation).Steady rules [])
    (follows : s.Follows rules)
    (ran : Transition.run (LockThreads.step operations) s actions = some next) :
    next.Follows rules := by
  induction actions generalizing s with
  | nil =>
    cases ran
    exact follows
  | cons action rest ih =>
    rw [Transition.run_cons, Option.bind_eq_some_iff] at ran
    obtain ⟨middle, stepped, ran⟩ := ran
    refine ih (fun thread operation member =>
      steady thread operation (List.mem_cons_of_mem action member)) ?_ ran
    refine (follows.step_of_started (fun thread operation same => ?_) stepped).1
    exact steady thread operation (same ▸ List.mem_cons_self)

theorem follows_run (steady : ∀ operation, (operations operation).Steady rules [])
    {actions : List (Action ι Op)} (follows : s.Follows rules)
    (ran : Transition.run (LockThreads.step operations) s actions = some next) :
    next.Follows rules :=
  follows_run_of_started (fun _ operation _ => steady operation) follows ran

/-- Data that a lock protects change in a step of the thread that alone holds the lock. -/
theorem Follows.writer_of_changed (steady : ∀ operation, (operations operation).Steady rules [])
    {action : Action ι Op} (follows : s.Follows rules)
    (stepped : s.step operations action = some next) {lock : Lock}
    (changed : ¬ rules.kept lock s.shared next.shared) :
    s.mutexes lock = { readers := [], writer := some action.thread } := by
  obtain ⟨-, held, lists, guarantee⟩ := follows.step steady stepped
  have writing : (lock, .write) ∈ held := by
    by_contra absent
    exact changed (guarantee.kept lock absent)
  have writer := (lists lock).writer_iff.mp writing
  have unread := follows.exclusive lock _ writer
  cases mutex : s.mutexes lock with
  | mk readers other =>
    rw [mutex] at writer unread
    dsimp only at writer unread
    rw [writer, unread]

end LockThreads
