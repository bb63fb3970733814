import ChordServer.ThreadStartSafe
import Mathlib.Logic.Function.Basic

set_option autoImplicit false

namespace Chord

/-- What has become of the handle that `pthread_create` gave. -/
inductive Release
  | joined
  | detached
  deriving DecidableEq, Repr

/-- Where a call of `join()` is: in `pthread_join`, or between its return and `m_thread = 0`. -/
inductive JoinPoint
  | idle
  | waiting
  | joined
  deriving DecidableEq, Repr

/-- A `Thread` object with the thread that it starts. `joins` are the calls of `join()` that
others make, each from a place of its own, and `released` records what has been done with the
handle. -/
structure ThreadLife (κ : Type) where
  start : ThreadStart κ
  joins : Nat → JoinPoint := fun _ => .idle
  released : List Release := []
  destroyed : Bool := false

namespace ThreadLife

variable {κ : Type}

/-- The steps of the constructor, of the started thread, of the calls of `join()` and of the
destructor. `pthread_join` ends with 0 or with an error, for which `join()` throws. -/
inductive Action (κ : Type)
  | start (action : ThreadStart.Action κ)
  | join (caller : Nat)
  | joined (caller : Nat)
  | joinFails (caller : Nat)
  | clear (caller : Nat)
  | destroy

/-- What the started thread finds behind the pointer; of a destroyed object it is `stale`. -/
def found (s : ThreadLife κ) : ThreadStart.Action κ → ThreadStart κ
  | .run stale => if s.destroyed then { s.start with thread := stale } else s.start
  | _ => s.start

/-- A step of the constructor or of the started thread. What it stores into a destroyed object
is lost. -/
def startStep (s : ThreadLife κ) (action : ThreadStart.Action κ) : Option (ThreadStart κ) :=
  ((s.found action).step action).map fun next =>
    if s.destroyed then { next with thread := s.start.thread } else next

/-- `m_thread = 0` in a `join()` that is about to return. -/
def clear (s : ThreadLife κ) (caller : Nat) : ThreadLife κ :=
  { s with
    start := if s.destroyed then s.start
      else { s.start with thread := { s.start.thread with m_thread := 0 } }
    joins := Function.update s.joins caller .idle }

/-- `Thread::~Thread`. -/
def destroy (s : ThreadLife κ) : ThreadLife κ :=
  { s with
    released := if s.start.thread.m_thread ≠ 0 then s.released ++ [.detached] else s.released
    destroyed := true }

def step (s : ThreadLife κ) : Action κ → Option (ThreadLife κ)
  | .start action => (s.startStep action).map fun start => { s with start := start }
  | .join caller =>
      if s.start.creator = .returned ∧ s.destroyed = false ∧ s.joins caller = .idle then
        if s.start.thread.m_thread ≠ 0 then
          some { s with joins := Function.update s.joins caller .waiting }
        else some s
      else none
  | .joined caller =>
      if s.joins caller = .waiting ∧ s.start.run = .returned then
        some { s with
          joins := Function.update s.joins caller .joined
          released := s.released ++ [.joined] }
      else none
  | .joinFails caller =>
      if s.joins caller = .waiting then
        some { s with joins := Function.update s.joins caller .idle }
      else none
  | .clear caller => if s.joins caller = .joined then some (s.clear caller) else none
  | .destroy =>
      if s.start.creator = .returned ∧ s.destroyed = false then some s.destroy else none

/-- Before the constructor. -/
def new (cb : Option κ) (name : String) : ThreadLife κ where
  start := .start cb name

/-- The system gives a handle other than 0, and does not interrupt the constructor's wait before
the started thread is finished. -/
def Undisturbed (s : ThreadLife κ) : Action κ → Prop
  | .start (.create m_thread _) => m_thread ≠ 0
  | .start action => s.start.Uninterrupted action
  | _ => True

instance (s : ThreadLife κ) (action : Action κ) : Decidable (s.Undisturbed action) :=
  match action with
  | .start (.create m_thread _) => inferInstanceAs (Decidable (m_thread ≠ 0))
  | .start .interrupted => inferInstanceAs
      (Decidable (s.start.creator = .waiting →
        s.start.run = .returned ∨ s.start.run = .notified ∧ s.start.cb = none))
  | .start .createFails | .start .wait | .start (.run _) | .start (.SetName _) | .join _
  | .joined _ | .joinFails _ | .clear _ | .destroy => .isTrue trivial

/-- The object exists. -/
def Lives (s : ThreadLife κ) : Prop :=
  s.destroyed = false ∧ s.start.creator.hasThrown = false

/-- Nobody calls `join()` or destroys the object while another call of `join()` runs, or after
the destruction. -/
def InTurn (s : ThreadLife κ) : Action κ → Prop
  | .join _ | .destroy => s.destroyed = false ∧ ∀ i, s.joins i = .idle
  | _ => True

/-- The handle is released at most once, by a `join()` that has waited for the end of the started
thread or by the destructor; the object has it until then, and after the destruction it is
released. -/
structure Kept (s : ThreadLife κ) : Prop where
  once : s.released.length ≤ 1
  ended : .joined ∈ s.released → s.start.run = .returned
  unreleased : s.start.creator ≠ .returned → s.released = []
  owned : s.start.creator = .returned → s.destroyed = false → (∀ i, s.joins i = .idle) →
    (s.start.thread.m_thread ≠ 0 ↔ s.released = [])
  destroyed : s.destroyed = true → ∃ how, s.released = [how]

end ThreadLife

end Chord
