import ChordServer.Transition
import Mathlib.Logic.Function.Basic

set_option autoImplicit false

namespace Chord

/-- Where a thread stands in an operation on one of its guards: in `m_mutex.lock()`, behind it
and before `m_locked = true`, before the clear in `m_mutex.unlock()`, or behind it and before
`m_locked = false`. A guard that is unlocked by its destructor is gone afterwards. -/
inductive GuardPoint (Lock : Type)
  | outside
  | taking (lock : Lock)
  | taken (lock : Lock)
  | clearing (lock : Lock) (destroys : Bool)
  | cleared (lock : Lock) (destroys : Bool)
  deriving DecidableEq, Repr

/-- What happens to a lock: a `test_and_set` that finds it clear, and a clear. -/
inductive LockEvent (ι : Type)
  | acquired (thread : ι)
  | released (thread : ι)
  deriving DecidableEq, Repr

/-- The flags of the locks and the guards of the threads `ι` on them, `ScopedLockImpl<CASLock>`.
`m_locked` is `none` where the thread has no live guard, and `history` records what has happened
to each lock. -/
structure ScopedLocks (ι Lock : Type) where
  m_mutex : Lock → Bool := fun _ => false
  m_locked : ι → Lock → Option Bool := fun _ _ => none
  point : ι → GuardPoint Lock := fun _ => .outside
  history : Lock → List (LockEvent ι) := fun _ => []

namespace ScopedLocks

/-- A thread constructs a guard, calls `lock()` or `unlock()` on its guard, destroys it, or makes
the next step of what it is doing. -/
inductive Action (ι Lock : Type)
  | construct (thread : ι) (lock : Lock)
  | lock (thread : ι) (lock : Lock)
  | unlock (thread : ι) (lock : Lock)
  | destroy (thread : ι) (lock : Lock)
  | next (thread : ι)
  deriving DecidableEq, Repr

variable {ι Lock : Type} [DecidableEq ι] [DecidableEq Lock]

def goto (s : ScopedLocks ι Lock) (thread : ι) (point : GuardPoint Lock) : ScopedLocks ι Lock :=
  { s with point := Function.update s.point thread point }

def setLocked (s : ScopedLocks ι Lock) (thread : ι) (lock : Lock) (locked : Option Bool) :
    ScopedLocks ι Lock :=
  { s with
    m_locked := Function.update s.m_locked thread
      (Function.update (s.m_locked thread) lock locked) }

/-- `atomic_flag_test_and_set_explicit` on a clear flag. -/
def acquire (s : ScopedLocks ι Lock) (thread : ι) (lock : Lock) : ScopedLocks ι Lock :=
  { s with
    m_mutex := Function.update s.m_mutex lock true
    history := Function.update s.history lock (s.history lock ++ [.acquired thread]) }

/-- `atomic_flag_clear_explicit`. -/
def release (s : ScopedLocks ι Lock) (thread : ι) (lock : Lock) : ScopedLocks ι Lock :=
  { s with
    m_mutex := Function.update s.m_mutex lock false
    history := Function.update s.history lock (s.history lock ++ [.released thread]) }

/-- `none` is an action that the thread cannot make: it is in the middle of another operation,
or has no such guard, or has one on the lock already. -/
def step (s : ScopedLocks ι Lock) : Action ι Lock → Option (ScopedLocks ι Lock)
  | .construct thread lock =>
      match s.point thread, s.m_locked thread lock with
      | .outside, none => some (s.goto thread (.taking lock))
      | _, _ => none
  | .lock thread lock =>
      match s.point thread, s.m_locked thread lock with
      | .outside, some false => some (s.goto thread (.taking lock))
      | .outside, some true => some s
      | _, _ => none
  | .unlock thread lock =>
      match s.point thread, s.m_locked thread lock with
      | .outside, some true => some (s.goto thread (.clearing lock false))
      | .outside, some false => some s
      | _, _ => none
  | .destroy thread lock =>
      match s.point thread, s.m_locked thread lock with
      | .outside, some true => some (s.goto thread (.clearing lock true))
      | .outside, some false => some (s.setLocked thread lock none)
      | _, _ => none
  | .next thread =>
      match s.point thread with
      | .outside => none
      | .taking lock =>
          if s.m_mutex lock then some s
          else some ((s.acquire thread lock).goto thread (.taken lock))
      | .taken lock => some ((s.setLocked thread lock (some true)).goto thread .outside)
      | .clearing lock destroys =>
          some ((s.release thread lock).goto thread (.cleared lock destroys))
      | .cleared lock destroys =>
          some ((s.setLocked thread lock (if destroys then none else some false)).goto thread
            .outside)

/-- The thread's guard has `m_locked` set and is in no `unlock()`. -/
def Holds (s : ScopedLocks ι Lock) (thread : ι) (lock : Lock) : Prop :=
  s.m_locked thread lock = some true ∧
    ∀ destroys, s.point thread ≠ .clearing lock destroys ∧ s.point thread ≠ .cleared lock destroys

/-- What one owner does to the lock. -/
def turn (thread : ι) : List (LockEvent ι) := [.acquired thread, .released thread]

/-- What the guards promise of a state. -/
structure Exclusive (s : ScopedLocks ι Lock) : Prop where
  alone : ∀ lock thread other, s.Holds thread lock → s.Holds other lock → thread = other
  set : ∀ lock thread, s.Holds thread lock → s.m_mutex lock = true
  byHolder : ∀ lock thread destroys, s.point thread = .clearing lock destroys →
    ∃ owners : List ι, s.history lock = owners.flatMap turn ++ [.acquired thread]
  released : ∀ lock, (∀ thread, s.m_locked thread lock = none ∧ s.point thread ≠ .taken lock) →
    ∃ owners : List ι, s.history lock = owners.flatMap turn

end ScopedLocks

end Chord
