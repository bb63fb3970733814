import ChordServer.LockRulesRuns
import Mathlib.Data.List.Count

set_option autoImplicit false

/- A thread that asks for a lock for writing while it reads under it waits for itself, and so does
everybody who wants to write. Nothing below is specific to one program. -/

namespace LockProgram

variable {Lock Shared Fault α β : Type} [DecidableEq Lock]

/-- As long as the data are as `known`, the program, which reads under the lock and `depth` times
more, asks for it for writing before it gives it up, or ends under it with `goal` of the result. -/
def Clings (lock : Lock) (known : Shared → Prop) (goal : α → Prop) :
    Nat → LockProgram Lock Shared Fault α → Prop
  | depth, .done result => depth = 0 ∧ goal result
  | _, .crash _ => True
  | depth, .acquire other mode rest =>
      if other = lock then mode = .write ∨ rest.Clings lock known goal (depth + 1)
      else rest.Clings lock known goal depth
  | depth, .release other rest =>
      if other = lock then ∃ outer, depth = outer + 1 ∧ rest.Clings lock known goal outer
      else rest.Clings lock known goal depth
  | depth, .access _ rest => ∀ shared, known shared →
      (rest shared).Clings lock known goal depth

variable {lock : Lock} {known : Shared → Prop} {goal : α → Prop} {last : β → Prop}
  {program : LockProgram Lock Shared Fault α}

theorem Clings.bind {next : α → LockProgram Lock Shared Fault β}
    (following : ∀ result, goal result → (next result).Clings lock known last 0) :
    ∀ {depth : Nat}, program.Clings lock known goal depth →
      (program.bind next).Clings lock known last depth := by
  induction program with
  | done result =>
    rintro depth ⟨rfl, reached⟩
    exact following result reached
  | crash fault => exact fun _ => trivial
  | acquire other mode rest ih =>
    intro depth clings
    rw [LockProgram.bind, Clings]
    rw [Clings] at clings
    by_cases same : other = lock
    · rw [if_pos same] at clings ⊢
      exact clings.imp id ih
    · rw [if_neg same] at clings ⊢
      exact ih clings
  | release other rest ih =>
    intro depth clings
    rw [LockProgram.bind, Clings]
    rw [Clings] at clings
    by_cases same : other = lock
    · rw [if_pos same] at clings ⊢
      obtain ⟨outer, deeper, clings⟩ := clings
      exact ⟨outer, deeper, ih clings⟩
    · rw [if_neg same] at clings ⊢
      exact ih clings
  | access update rest ih =>
    exact fun clings shared holds => ih shared (clings shared holds)

theorem clings_bind {next : α → LockProgram Lock Shared Fault β}
    (first : program.Clings lock known goal 0)
    (following : ∀ result, goal result → (next result).Clings lock known last 0) :
    (program >>= next).Clings lock known last 0 := first.bind following

/-- Whoever reads under the lock waits for itself. -/
theorem clings_write (body : LockProgram Lock Shared Fault α) :
    (locked lock .write body).Clings lock known goal 0 := by
  rw [locked, Clings, if_pos rfl]
  exact .inl rfl

/-- A loop ends with the first round that waits for itself. -/
theorem clings_forM {round : α → LockProgram Lock Shared Fault Unit} {items : List α}
    (rounds : ∀ item ∈ items, (round item).Clings lock known (fun _ => True) 0)
    {item : α} (member : item ∈ items)
    (clings : (round item).Clings lock known (fun _ => False) 0) :
    (items.forM round).Clings lock known (fun _ => False) 0 := by
  induction items with
  | nil => cases member
  | cons first rest ih =>
    show ((round first).bind fun _ => rest.forM round).Clings lock known _ 0
    rcases List.mem_cons.mp member with rfl | later
    · exact clings.bind fun _ => False.elim
    · refine (rounds first List.mem_cons_self).bind fun _ _ => ?_
      exact ih (fun other inside => rounds other (List.mem_cons_of_mem first inside)) later

/-- A program with locks of its own does not care for the lock. -/
theorem clings_zoom {Lock' Shared' : Type} {lockOf : Lock' → Lock} {get : Shared → Shared'}
    {set : Shared' → Shared → Shared} (apart : ∀ other, lockOf other ≠ lock)
    (program : LockProgram Lock' Shared' Fault α) :
    (program.zoom lockOf get set).Clings lock known (fun _ => True) 0 := by
  induction program with
  | done result => exact ⟨rfl, trivial⟩
  | crash fault => trivial
  | acquire other mode rest ih =>
    rw [zoom, Clings, if_neg (apart other)]
    exact ih
  | release other rest ih =>
    rw [zoom, Clings, if_neg (apart other)]
    exact ih
  | access update rest ih => exact fun shared _ => ih (get shared)

end LockProgram

namespace LockThreads

open LockProgram

variable {ι Lock Shared Fault Op : Type} [DecidableEq ι] [DecidableEq Lock]

/-- The thread reads under the lock, and can only end by writing under it. -/
structure Stuck (s : LockThreads ι Lock Shared Fault) (thread : ι) (lock : Lock)
    (known : Shared → Prop) : Prop where
  unwritten : (s.mutexes lock).writer = none
  reads : ∃ depth, depth < (s.mutexes lock).readers.count thread ∧
    (s.code thread).Clings lock known (fun _ => False) depth

variable {s next : LockThreads ι Lock Shared Fault} {thread other : ι} {lock : Lock}
  {known : Shared → Prop} {operations : Op → LockProgram Lock Shared Fault Unit}

theorem Stuck.unfinished (stuck : s.Stuck thread lock known) (result : Unit) :
    s.code thread ≠ .done result := by
  intro done
  obtain ⟨depth, -, clings⟩ := stuck.reads
  rw [done] at clings
  exact clings.2

theorem Stuck.read (stuck : s.Stuck thread lock known) : (s.mutexes lock).readers ≠ [] := by
  obtain ⟨depth, deep, -⟩ := stuck.reads
  intro none
  rw [none] at deep
  cases deep

/-- Nobody gets the lock for writing. -/
theorem Stuck.wrlock (stuck : s.Stuck thread lock known) :
    (s.mutexes lock).wrlock other = none := by
  have read := stuck.read
  cases taken : (s.mutexes lock).wrlock other with
  | none => rfl
  | some mutex => exact absurd (RWMutex.wrlock_eq_some_iff.mp taken).2.1 read

/-- A lock that is read under can only be had for reading. -/
theorem Stuck.take (stuck : s.Stuck thread lock known) {mode : LockMode} {mutex : RWMutex ι}
    (taken : LockThreads.take (s.mutexes lock) other mode = some mutex) :
    mode = .read ∧
      mutex = { readers := other :: (s.mutexes lock).readers, writer := none } := by
  cases mode with
  | read =>
    obtain ⟨-, rfl⟩ := RWMutex.rdlock_eq_some_iff.mp taken
    exact ⟨rfl, by rw [stuck.unwritten]⟩
  | write => exact absurd (stuck.wrlock.symm.trans taken) nofun

theorem Stuck.unlock (stuck : s.Stuck thread lock known) : (s.mutexes lock).unlock other =
    { readers := (s.mutexes lock).readers.erase other, writer := none } := by
  rw [RWMutex.unlock, stuck.unwritten]
  exact if_neg (by simp)

omit [DecidableEq Lock] in
@[simp] theorem goto_code (code : LockProgram Lock Shared Fault Unit) :
    (s.goto thread code).code = Function.update s.code thread code := rfl

omit [DecidableEq Lock] in
@[simp] theorem goto_mutexes (code : LockProgram Lock Shared Fault Unit) :
    (s.goto thread code).mutexes = s.mutexes := rfl

omit [DecidableEq ι] in
@[simp] theorem setMutex_code (place : Lock) (mutex : RWMutex ι) :
    (s.setMutex place mutex).code = s.code := rfl

/-- The state, with what is left of the thread's code and what has become of the lock. -/
theorem stuck_of {code : LockProgram Lock Shared Fault Unit} {mutex : RWMutex ι} {depth : Nat}
    (left : next.code thread = code) (become : next.mutexes lock = mutex)
    (unwritten : mutex.writer = none) (deep : depth < mutex.readers.count thread)
    (clings : code.Clings lock known (fun _ => False) depth) : next.Stuck thread lock known := by
  subst left become
  exact ⟨unwritten, depth, deep, clings⟩

/-- It begins with the lock for reading. -/
theorem stuck_of_rdlock {rest : LockProgram Lock Shared Fault Unit}
    (code : s.code thread = .acquire lock .read rest)
    (clings : rest.Clings lock known (fun _ => False) 0)
    (locked : s.step operations (.next thread) = some next) : next.Stuck thread lock known := by
  simp only [LockThreads.step, code] at locked
  obtain ⟨mutex, taken, rfl⟩ := Option.map_eq_some_iff.mp locked
  obtain ⟨unwritten, rfl⟩ := RWMutex.rdlock_eq_some_iff.mp taken
  exact stuck_of (by simp) (Function.update_self lock _ s.mutexes) unwritten (by simp) clings

/-- The thread takes a lock. -/
theorem Stuck.acquire (stuck : s.Stuck thread lock known) {place : Lock} {mode : LockMode}
    {rest : LockProgram Lock Shared Fault Unit} {mutex : RWMutex ι}
    (code : s.code thread = .acquire place mode rest)
    (taken : LockThreads.take (s.mutexes place) thread mode = some mutex) :
    ((s.setMutex place mutex).goto thread rest).Stuck thread lock known := by
  obtain ⟨depth, deep, clings⟩ := stuck.reads
  rw [code, Clings] at clings
  by_cases here : place = lock
  · subst here
    obtain ⟨rfl, rfl⟩ := stuck.take taken
    rw [if_pos rfl] at clings
    apply stuck_of (by simp) (by simp; rfl) rfl _ (clings.resolve_left nofun)
    rw [List.count_cons_self]
    omega
  · rw [if_neg here] at clings
    exact stuck_of (by simp) (by simp [Ne.symm here]) stuck.unwritten deep clings

/-- The thread gives a lock up, but not the last of what it has of this one. -/
theorem Stuck.release (stuck : s.Stuck thread lock known) {place : Lock}
    {rest : LockProgram Lock Shared Fault Unit} (code : s.code thread = .release place rest) :
    ((s.setMutex place ((s.mutexes place).unlock thread)).goto thread rest).Stuck thread lock
      known := by
  obtain ⟨depth, deep, clings⟩ := stuck.reads
  rw [code, Clings] at clings
  by_cases here : place = lock
  · subst here
    rw [if_pos rfl] at clings
    obtain ⟨outer, rfl, clings⟩ := clings
    apply stuck_of (by simp) (by simp; exact stuck.unlock) rfl _ clings
    rw [List.count_erase_self]
    omega
  · rw [if_neg here] at clings
    exact stuck_of (by simp) (by simp [Ne.symm here]) stuck.unwritten deep clings

theorem Stuck.access (stuck : s.Stuck thread lock known) (holds : known s.shared)
    {update : Shared → Shared} {rest : Shared → LockProgram Lock Shared Fault Unit}
    (code : s.code thread = .access update rest) :
    ({ s.goto thread (rest s.shared) with shared := update s.shared } :
      LockThreads ι Lock Shared Fault).Stuck thread lock known := by
  obtain ⟨depth, deep, clings⟩ := stuck.reads
  rw [code] at clings
  exact stuck_of (by simp) rfl stuck.unwritten deep (clings s.shared holds)

/-- What another thread does leaves this one its part of the lock. -/
theorem Stuck.others (stuck : s.Stuck thread lock known) (code : next.code thread = s.code thread)
    {mutex : RWMutex ι} (become : next.mutexes lock = mutex) (unwritten : mutex.writer = none)
    (reads : (s.mutexes lock).readers.count thread ≤ mutex.readers.count thread) :
    next.Stuck thread lock known := by
  obtain ⟨depth, deep, clings⟩ := stuck.reads
  exact stuck_of code become unwritten (by omega) clings

/-- A thread that waits for itself does so after every step of anybody. -/
theorem Stuck.step (stuck : s.Stuck thread lock known) (holds : known s.shared)
    {action : Action ι Op}
    (stepped : s.step operations action = some next) : next.Stuck thread lock known := by
  cases action with
  | start other operation =>
    simp only [LockThreads.step] at stepped
    split at stepped
    · rename_i done
      cases stepped
      have apart : thread ≠ other := by
        rintro rfl
        exact stuck.unfinished _ done
      exact stuck.others (by simp [apart]) rfl stuck.unwritten (Nat.le_refl _)
    · cases stepped
  | next other =>
    simp only [LockThreads.step] at stepped
    split at stepped
    · cases stepped
    · cases stepped
    · rename_i place mode rest code
      obtain ⟨mutex, taken, rfl⟩ := Option.map_eq_some_iff.mp stepped
      by_cases own : thread = other
      · subst own
        exact stuck.acquire code taken
      by_cases here : lock = place
      · subst here
        obtain ⟨-, rfl⟩ := stuck.take taken
        apply stuck.others (by simp [own]) (by simp; rfl) rfl
        rw [List.count_cons_of_ne (Ne.symm own)]
      · exact stuck.others (by simp [own]) (by simp [here]) stuck.unwritten (Nat.le_refl _)
    · rename_i place rest code
      cases stepped
      by_cases own : thread = other
      · subst own
        exact stuck.release code
      by_cases here : lock = place
      · subst here
        apply stuck.others (by simp [own]) (by simp; exact stuck.unlock) rfl
        rw [List.count_erase_of_ne own]
      · exact stuck.others (by simp [own]) (by simp [here]) stuck.unwritten (Nat.le_refl _)
    · rename_i update rest code
      cases stepped
      by_cases own : thread = other
      · subst own
        exact stuck.access holds code
      · exact stuck.others (by simp [own]) rfl stuck.unwritten (Nat.le_refl _)

/-- While the others follow the rules, a thread that waits for itself does so in every run from
here, and what the lock protects does not change any more. -/
theorem Stuck.run {rules : LockRules Lock Shared}
    (steady : ∀ operation, (operations operation).Steady rules []) (follows : s.Follows rules)
    (kept : ∀ before after, rules.kept lock before after → known before → known after)
    (stuck : s.Stuck thread lock known) (holds : known s.shared) {actions : List (Action ι Op)}
    (ran : Transition.run (LockThreads.step operations) s actions = some next) :
    next.Stuck thread lock known ∧ known next.shared := by
  have keeps : ∀ (t : LockThreads ι Lock Shared Fault) (action : Action ι Op) u,
      (t.Follows rules ∧ t.Stuck thread lock known ∧ known t.shared) →
      t.step operations action = some u →
      u.Follows rules ∧ u.Stuck thread lock known ∧ known u.shared := by
    rintro t action u ⟨follows, stuck, holds⟩ stepped
    refine ⟨(follows.step steady stepped).1, stuck.step holds stepped, ?_⟩
    by_contra changed
    have alone := follows.writer_of_changed steady stepped fun same =>
      changed (kept t.shared u.shared same holds)
    apply stuck.read
    rw [alone]
  exact (Transition.run_invariant keeps ⟨follows, stuck, holds⟩ ran).2

end LockThreads
