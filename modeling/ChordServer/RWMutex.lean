import Mathlib.Data.List.Nodup

set_option autoImplicit false

/-- A lock that many readers or one writer may hold, as a `pthread_rwlock_t` does. A
mutex or a spinlock is one that is only taken for writing. -/
structure RWMutex (ι : Type*) where
  readers : List ι := []
  writer : Option ι := none

namespace RWMutex

variable {ι : Type*}

/-- `none` while the lock cannot be had. -/
def rdlock (mutex : RWMutex ι) (thread : ι) : Option (RWMutex ι) :=
  match mutex.writer with
  | none => some { mutex with readers := thread :: mutex.readers }
  | some _ => none

def wrlock (mutex : RWMutex ι) (thread : ι) : Option (RWMutex ι) :=
  match mutex.writer, mutex.readers with
  | none, [] => some { mutex with writer := some thread }
  | _, _ => none

def unlock [DecidableEq ι] (mutex : RWMutex ι) (thread : ι) : RWMutex ι :=
  if mutex.writer = some thread then { mutex with writer := none }
  else { mutex with readers := mutex.readers.erase thread }

/-- A writer is alone. -/
def Exclusive (mutex : RWMutex ι) : Prop :=
  ∀ thread, mutex.writer = some thread → mutex.readers = []

/-- The thread reads or writes. -/
def Holds (mutex : RWMutex ι) (thread : ι) : Prop :=
  mutex.writer = some thread ∨ thread ∈ mutex.readers

/-- The thread has of the second lock what it had of the first. -/
structure Keeps (mutex next : RWMutex ι) (thread : ι) : Prop where
  reads : thread ∈ mutex.readers → thread ∈ next.readers
  writes : mutex.writer = some thread → next.writer = some thread

theorem Keeps.refl (mutex : RWMutex ι) (thread : ι) : mutex.Keeps mutex thread := ⟨id, id⟩

variable {mutex next : RWMutex ι} {thread other : ι}

theorem rdlock_eq_some_iff : mutex.rdlock thread = some next ↔
    mutex.writer = none ∧ next = { mutex with readers := thread :: mutex.readers } := by
  unfold rdlock
  cases mutex.writer with
  | none => simp [eq_comm]
  | some other => simp

theorem wrlock_eq_some_iff : mutex.wrlock thread = some next ↔
    mutex.writer = none ∧ mutex.readers = [] ∧ next = { mutex with writer := some thread } := by
  unfold wrlock
  cases mutex.writer with
  | none => cases mutex.readers <;> simp [eq_comm]
  | some other => simp

theorem exclusive_of_rdlock (locked : mutex.rdlock thread = some next) : next.Exclusive := by
  obtain ⟨free, rfl⟩ := rdlock_eq_some_iff.mp locked
  intro writer writes
  exact absurd (free.symm.trans writes) (by simp)

theorem exclusive_of_wrlock (locked : mutex.wrlock thread = some next) : next.Exclusive := by
  obtain ⟨-, unread, rfl⟩ := wrlock_eq_some_iff.mp locked
  exact fun _ _ => unread

theorem keeps_of_rdlock (locked : mutex.rdlock thread = some next) : mutex.Keeps next other := by
  obtain ⟨-, rfl⟩ := rdlock_eq_some_iff.mp locked
  exact ⟨List.mem_cons_of_mem thread, id⟩

theorem keeps_of_wrlock (locked : mutex.wrlock thread = some next) : mutex.Keeps next other := by
  obtain ⟨free, -, rfl⟩ := wrlock_eq_some_iff.mp locked
  exact ⟨id, fun writes => absurd (free.symm.trans writes) (by simp)⟩

variable [DecidableEq ι]

theorem keeps_unlock (apart : other ≠ thread) : mutex.Keeps (mutex.unlock thread) other := by
  unfold unlock
  split
  · rename_i writer
    refine ⟨id, fun writes => absurd ?_ apart⟩
    exact (Option.some.inj (writer.symm.trans writes)).symm
  · exact ⟨(List.mem_erase_of_ne apart).mpr, id⟩

theorem unlock_of_writer (writes : mutex.writer = some thread) :
    mutex.unlock thread = { mutex with writer := none } := by
  rw [unlock, if_pos writes]

theorem unlock_of_reader (exclusive : mutex.Exclusive) (reads : thread ∈ mutex.readers) :
    mutex.unlock thread = { mutex with readers := mutex.readers.erase thread } := by
  rw [unlock, if_neg fun writes => ?_]
  rw [exclusive thread writes] at reads
  cases reads

theorem Exclusive.unlock (exclusive : mutex.Exclusive) : (mutex.unlock thread).Exclusive := by
  unfold RWMutex.unlock
  split
  · exact fun _ writes => absurd writes (by simp)
  · intro writer writes
    rw [exclusive writer writes]
    rfl

/-- What holds of a lock that no thread asks for while it holds it. -/
structure Sound (mutex : RWMutex ι) : Prop where
  exclusive : mutex.Exclusive
  once : mutex.readers.Nodup

omit [DecidableEq ι] in
theorem Sound.rdlock (sound : mutex.Sound) (free : ¬ mutex.Holds thread)
    (locked : mutex.rdlock thread = some next) :
    next.Sound ∧ ∀ other, next.Holds other ↔ other = thread ∨ mutex.Holds other := by
  have exclusive := exclusive_of_rdlock locked
  obtain ⟨unwritten, rfl⟩ := rdlock_eq_some_iff.mp locked
  refine ⟨⟨exclusive, List.nodup_cons.mpr ⟨fun reads => free (.inr reads), sound.once⟩⟩, ?_⟩
  simp [Holds, unwritten]

omit [DecidableEq ι] in
theorem Sound.wrlock (sound : mutex.Sound) (locked : mutex.wrlock thread = some next) :
    next.Sound ∧ ∀ other, next.Holds other ↔ other = thread ∨ mutex.Holds other := by
  have exclusive := exclusive_of_wrlock locked
  obtain ⟨unwritten, unread, rfl⟩ := wrlock_eq_some_iff.mp locked
  refine ⟨⟨exclusive, sound.once⟩, fun other => ?_⟩
  simp [Holds, unwritten, unread, eq_comm]

theorem Sound.unlock (sound : mutex.Sound) (held : mutex.Holds thread) :
    (mutex.unlock thread).Sound ∧
      ∀ other, (mutex.unlock thread).Holds other ↔ other ≠ thread ∧ mutex.Holds other := by
  rcases held with writes | reads
  · have unread := sound.exclusive thread writes
    refine ⟨⟨sound.exclusive.unlock, ?_⟩, fun other => ?_⟩
    · rw [unlock_of_writer writes]
      exact sound.once
    · rw [unlock_of_writer writes]
      simp [Holds, unread, writes, eq_comm]
  · have shape := unlock_of_reader sound.exclusive reads
    have unwritten : mutex.writer = none := by
      cases writer : mutex.writer with
      | none => rfl
      | some other =>
        rw [sound.exclusive other writer] at reads
        cases reads
    refine ⟨⟨sound.exclusive.unlock, ?_⟩, fun other => ?_⟩
    · rw [shape]
      exact sound.once.erase thread
    · rw [shape]
      simp [Holds, unwritten, sound.once.mem_erase_iff]

end RWMutex
