import ChordServer.Transition

set_option autoImplicit false

namespace Chord

/-- `Semaphore::notify()` on the value of the `sem_t`. -/
def Semaphore.notify (value : Nat) : Nat := value + 1

/-- `Semaphore::wait()` when it is not interrupted; at zero it blocks. -/
def Semaphore.wait (value : Nat) : Option Nat := if 0 < value then some (value - 1) else none

/-- A `Thread` object. `κ` are the functions that can be called, and a `std::function` may
be empty. -/
structure Thread (κ : Type) where
  m_id : Int := -1
  m_thread : Nat := 0
  m_cb : Option κ
  m_name : String
  m_semaphore : Nat := 0

/-- Where `Thread::Thread` is: before `pthread_create`, in `m_semaphore.wait()`, or at one
of its two ends. -/
inductive ConstructorPoint
  | creating
  | waiting
  | returned
  | threw (what : String)
  deriving DecidableEq, Repr

def ConstructorPoint.hasThrown : ConstructorPoint → Bool
  | .threw _ => true
  | _ => false

/-- The last statement of `Thread::run` that has been executed. -/
inductive RunPoint
  | notStarted
  | entry
  | current
  | named
  | identified
  | titled
  | swapped
  | notified
  | calling
  | returned
  deriving DecidableEq, Repr

/-- The next statement of `run` accesses the object. -/
def RunPoint.touches : RunPoint → Bool
  | .current | .named | .identified | .titled | .swapped => true
  | _ => false

/-- The constructor of one `Thread` and the thread that it starts. `id` is what
`GetThreadId()` gives there, and `title` the name that the system shows. -/
structure ThreadStart (κ : Type) where
  thread : Thread κ
  creator : ConstructorPoint := .creating
  run : RunPoint := .notStarted
  id : Int := 0
  t_thread : Bool := false
  t_thread_name : String := "UNKNOW"
  title : List UInt8 := []
  cb : Option κ := none
  invoked : List κ := []

namespace ThreadStart

variable {κ : Type}

/-- The steps of the constructor, of `run` and of the callback. When the constructor throws
the members are destroyed, so a later step of `run` reads `stale` memory. -/
inductive Action (κ : Type)
  | create (m_thread : Nat) (id : Int)
  | createFails
  | wait
  | interrupted
  | run (stale : Thread κ)
  | SetName (name : String)

/-- What the started thread finds behind the pointer that it has been given. -/
def pointee (s : ThreadStart κ) (stale : Thread κ) : Thread κ :=
  if s.creator.hasThrown then stale else s.thread

/-- A member function of the object stores into it. -/
def store (s : ThreadStart κ) (thread : Thread κ) : ThreadStart κ :=
  if s.creator.hasThrown then s else { s with thread := thread }

/-- The next statement of `Thread::run`. The call of an empty `cb` throws, which ends the
process. -/
def runNext (s : ThreadStart κ) (stale : Thread κ) : Option (ThreadStart κ) :=
  let thread := s.pointee stale
  match s.run with
  | .notStarted => none
  | .entry => some { s with t_thread := true, run := .current }
  | .current => some { s with t_thread_name := thread.m_name, run := .named }
  | .named => some { s.store { thread with m_id := s.id } with run := .identified }
  | .identified => some { s with title := thread.m_name.toUTF8.toList.take 15, run := .titled }
  | .titled => some { s.store { thread with m_cb := none } with cb := thread.m_cb, run := .swapped }
  | .swapped =>
      some { s.store { thread with m_semaphore := Semaphore.notify thread.m_semaphore } with
        run := .notified }
  | .notified => s.cb.map fun cb => { s with invoked := s.invoked ++ [cb], run := .calling }
  | .calling => some { s with run := .returned }
  | .returned => none

/-- `Thread::SetName`, which the callback may call. -/
def SetName (s : ThreadStart κ) (name : String) : ThreadStart κ :=
  if name = "" then s
  else
    { if s.t_thread then s.store { s.thread with m_name := name } else s with
      t_thread_name := name }

def step (s : ThreadStart κ) : Action κ → Option (ThreadStart κ)
  | .create m_thread id =>
      if s.creator = .creating then
        some { s with
          thread := { s.thread with m_thread := m_thread }, creator := .waiting, run := .entry,
          id := id }
      else none
  | .createFails =>
      if s.creator = .creating then some { s with creator := .threw "pthread_create error" }
      else none
  | .wait =>
      if s.creator = .waiting then
        (Semaphore.wait s.thread.m_semaphore).map fun value =>
          { s with thread := { s.thread with m_semaphore := value }, creator := .returned }
      else none
  | .interrupted =>
      if s.creator = .waiting then some { s with creator := .threw "sem_wait error" } else none
  | .run stale => s.runNext stale
  | .SetName name => if s.run = .calling then some (s.SetName name) else none

/-- Before `pthread_create`. -/
def start (cb : Option κ) (name : String) : ThreadStart κ where
  thread := { m_cb := cb, m_name := if name = "" then "UNKNOW" else name }

/-- `run` accesses the `Thread` object. -/
def RunAccesses (s : ThreadStart κ) : Action κ → Prop
  | .run _ => s.run.touches = true
  | _ => False

/-- The started thread accesses the `Thread` object, in `run` or through `t_thread`. -/
def Accesses (s : ThreadStart κ) : Action κ → Prop
  | .run _ => s.run.touches = true
  | .SetName name => s.run = .calling ∧ s.t_thread = true ∧ name ≠ ""
  | _ => False

/-- No step has the property in any run from here. -/
def Never (happens : ThreadStart κ → Action κ → Prop) (s : ThreadStart κ) : Prop :=
  ∀ actions, Transition.StepsMeet step (fun t action => ¬ happens t action) s actions

/-- The start of a thread with the callback `cb` is safe in this state. -/
structure Safe (cb : Option κ) (s : ThreadStart κ) : Prop where
  returned : s.creator = .returned →
    s.thread.m_id = s.id ∧ s.thread.m_cb = none ∧ s.cb = cb ∧ Never RunAccesses s
  threw : s.creator.hasThrown = true → Never Accesses s
  once : s.invoked.length ≤ 1

/-- Nothing is left for the started thread but to exit, or to end the process by the call
of an empty function. -/
def Finished (s : ThreadStart κ) : Prop :=
  s.run = .returned ∨ s.run = .notified ∧ s.cb = none

/-- `sem_wait` is not interrupted before the started thread is finished. -/
def Uninterrupted (s : ThreadStart κ) : Action κ → Prop
  | .interrupted => s.creator = .waiting → s.Finished
  | _ => True

end ThreadStart

end Chord
