import ChordServer.Fiber

set_option autoImplicit false

namespace Chord

/-- Where a thread is in the functions of `Fiber`, as far as other threads can tell: in
code of its own or behind a step of `swapIn` (the assertion, the assignment of EXEC), of
a yield (the assignment), of `reset` (the assertions, the new context) or of `MainFunc`
(the end of the callback). -/
inductive FiberPoint
  | code
  | checked (f : FiberPtr)
  | marked (f : FiberPtr)
  | yielding (cur : FiberPtr)
  | resetting (f : FiberPtr)
  | remade (f : FiberPtr)
  | ended
  | exited
  deriving DecidableEq, Repr

/-- A thread with its `thread_local` variables and the place that its code has reached. -/
structure FiberThread where
  t_fiber : FiberPtr
  t_threadFiber : FiberPtr
  here : Context
  point : FiberPoint := .code
  deriving DecidableEq, Repr

/-- The fibres that the threads `ι` share. `unused` are the addresses at which there is no
fibre yet. `saved` says of a fibre that its context is a fresh one, or has been saved by
its last yield and not been loaded since, and `finished` that its callback has ended and it has
not been reset since; no code reads these two. -/
structure FiberThreads (ι : Type) where
  fibers : FiberPtr → Fiber
  unused : FiberPtr → Bool
  s_fiber_id : Nat := 0
  s_fiber_count : Nat := 0
  cur : FiberPtr → Option FiberPtr := fun _ => none
  threads : ι → FiberThread
  saved : FiberPtr → Bool := fun _ => false
  finished : FiberPtr → Bool := fun _ => false

namespace FiberThreads

variable {ι : Type} [DecidableEq ι]

/-- What the code of a thread calls, or the next step of the call that it is in. -/
inductive Call
  | construct (f : FiberPtr)
  | swapIn (f : FiberPtr)
  | YieldToReady
  | YieldToHold
  | reset (f : FiberPtr)
  | returns
  | throws
  | next
  deriving DecidableEq, Repr

/-- A step of one of the threads. -/
abbrev Action (ι : Type) := ι × Call

def setThread (s : FiberThreads ι) (i : ι) (thread : FiberThread) : FiberThreads ι :=
  { s with threads := Function.update s.threads i thread }

def setFiber (s : FiberThreads ι) (f : FiberPtr) (fiber : Fiber) : FiberThreads ι :=
  { s with fibers := Function.update s.fibers f fiber }

@[simp] theorem setThread_self (s : FiberThreads ι) (i : ι) (thread : FiberThread) :
    (s.setThread i thread).threads i = thread := Function.update_self _ _ _

theorem setThread_other (s : FiberThreads ι) {i j : ι} (thread : FiberThread) (apart : j ≠ i) :
    (s.setThread i thread).threads j = s.threads j := Function.update_of_ne apart _ _

omit [DecidableEq ι] in
@[simp] theorem setFiber_self (s : FiberThreads ι) (f : FiberPtr) (fiber : Fiber) :
    (s.setFiber f fiber).fibers f = fiber := Function.update_self _ _ _

omit [DecidableEq ι] in
theorem setFiber_other (s : FiberThreads ι) {f g : FiberPtr} (fiber : Fiber) (apart : g ≠ f) :
    (s.setFiber f fiber).fibers g = s.fibers g := Function.update_of_ne apart _ _

def goto (s : FiberThreads ι) (i : ι) (point : FiberPoint) : FiberThreads ι :=
  s.setThread i { s.threads i with point := point }

/-- A call that returns to the code it was made from. -/
def back (s : FiberThreads ι) (i : ι) : FiberThreads ι :=
  s.setThread i { s.threads i with here := (s.threads i).here.next, point := .code }

/-- `swapcontext(&save->m_ctx, &restore->m_ctx)`. At the entry of `MainFunc` its first
statement, `Fiber::ptr cur = GetThis()`, is executed at once. -/
def swapcontext (s : FiberThreads ι) (i : ι) (save restore : FiberPtr) (yields : Bool) :
    FiberThreads ι :=
  let thread := s.threads i
  let stored := s.setFiber save
    { s.fibers save with m_ctx := { (s.fibers save).m_ctx with context := thread.here.next } }
  let place := (stored.fibers restore).m_ctx.context
  { stored.setThread i { thread with here := place, point := .code } with
    cur := if place.point = 0 then Function.update s.cur place.stack (some thread.t_fiber)
      else s.cur
    saved := Function.update (Function.update s.saved save yields) restore false }

/-- `new Fiber(cb, stacksize)` at the address `f`. -/
def construct (s : FiberThreads ι) (f : FiberPtr) : FiberThreads ι :=
  { s.setFiber f
      { m_id := s.s_fiber_id + 1, m_ctx := FiberSystem.madeContext f, m_stack := true,
        m_cb := true } with
    unused := Function.update s.unused f false
    s_fiber_id := s.s_fiber_id + 1
    s_fiber_count := s.s_fiber_count + 1
    saved := Function.update s.saved f true
    finished := Function.update s.finished f false }

/-- The assignment in `YieldToReady()` or `YieldToHold()`, and `SetThis` in `swapOut()`. -/
def yieldTo (s : FiberThreads ι) (i : ι) (state : FiberState) : FiberThreads ι :=
  let thread := s.threads i
  (s.setFiber thread.t_fiber { s.fibers thread.t_fiber with m_state := state }).setThread i
    { thread with t_fiber := thread.t_threadFiber, point := .yielding thread.t_fiber }

/-- `m_state = EXEC` in `swapIn()`. -/
def mark (s : FiberThreads ι) (i : ι) (f : FiberPtr) : FiberThreads ι :=
  (s.setFiber f { s.fibers f with m_state := .EXEC }).goto i (.marked f)

/-- `m_cb = cb` and the calls of `getcontext` and `makecontext` in `reset()`. -/
def remake (s : FiberThreads ι) (i : ι) (f : FiberPtr) : FiberThreads ι :=
  { (s.setFiber f { s.fibers f with m_cb := true, m_ctx := FiberSystem.madeContext f }).goto i
      (.remade f) with
    saved := Function.update s.saved f true }

/-- `m_state = INIT` in `reset()`. -/
def reinit (s : FiberThreads ι) (i : ι) (f : FiberPtr) : FiberThreads ι :=
  { (s.setFiber f { s.fibers f with m_state := .INIT }).back i with
    finished := Function.update s.finished f false }

/-- `MainFunc` after `cur->m_cb()` has returned or thrown. -/
def MainFunc (s : FiberThreads ι) (i : ι) (cur : FiberPtr) (threw : Bool) : FiberThreads ι :=
  let fiber := s.fibers cur
  let ended :=
    if threw then { fiber with m_state := .EXCEPT }
    else { fiber with m_cb := false, m_state := .TERM }
  { (s.setFiber cur ended).goto i .ended with finished := Function.update s.finished cur true }

/-- The end of the code on the running stack; an exception that `MainFunc` does not catch
ends the process. -/
def finish (s : FiberThreads ι) (i : ι) (threw : Bool) : Option (FiberThreads ι) :=
  match s.cur (s.threads i).here.stack with
  | some cur => some (s.MainFunc i cur threw)
  | none => if threw then none else some (s.goto i .exited)

/-- What the code of a thread does first in a call; a failed assertion ends the process. -/
def call (s : FiberThreads ι) (i : ι) : Call → Option (FiberThreads ι)
  | .construct f => if s.unused f then some ((s.construct f).back i) else none
  | .swapIn f =>
      if s.unused f = false ∧ (s.fibers f).m_state ≠ .EXEC then
        some (s.setThread i { s.threads i with t_fiber := f, point := .checked f })
      else none
  | .YieldToReady => some (s.yieldTo i .READY)
  | .YieldToHold => some (s.yieldTo i .HOLD)
  | .reset f =>
      if s.unused f = false ∧ (s.fibers f).m_stack ∧ ((s.fibers f).m_state = .INIT ∨
          (s.fibers f).m_state = .TERM ∨ (s.fibers f).m_state = .EXCEPT) then
        some (s.goto i (.resetting f))
      else none
  | .returns => s.finish i false
  | .throws => s.finish i true
  | .next => none

/-- The step of a thread that is inside a call. `m_ctx.uc_link` is null, so the thread
exits when `MainFunc` returns. -/
def advance (s : FiberThreads ι) (i : ι) : Option (FiberThreads ι) :=
  match (s.threads i).point with
  | .code => none
  | .checked f => some (s.mark i f)
  | .marked f => some (s.swapcontext i (s.threads i).t_threadFiber f false)
  | .yielding cur => some (s.swapcontext i cur (s.threads i).t_threadFiber true)
  | .resetting f => some (s.remake i f)
  | .remade f => some (s.reinit i f)
  | .ended => some (s.goto i .exited)
  | .exited => none

def step (s : FiberThreads ι) (action : Action ι) : Option (FiberThreads ι) :=
  match action.2 with
  | .next => s.advance action.1
  | first => if (s.threads action.1).point = .code then s.call action.1 first else none

/-- The state a yield leaves its fibre in. -/
def Call.yieldState : Call → Option FiberState
  | .YieldToReady => some .READY
  | .YieldToHold => some .HOLD
  | _ => none

/-- Everything one step of the thread can do, with the checks it has passed. -/
inductive Stepped (s : FiberThreads ι) (i : ι) : Call → FiberThreads ι → Prop
  | construct {f : FiberPtr} (code : (s.threads i).point = .code) (free : s.unused f = true) :
      Stepped s i (.construct f) ((s.construct f).back i)
  | swapIn {f : FiberPtr} (code : (s.threads i).point = .code) (made : s.unused f = false)
      (idle : (s.fibers f).m_state ≠ .EXEC) :
      Stepped s i (.swapIn f) (s.setThread i { s.threads i with t_fiber := f, point := .checked f })
  | yield {call : Call} {state : FiberState} (code : (s.threads i).point = .code)
      (yields : call.yieldState = some state) : Stepped s i call (s.yieldTo i state)
  | reset {f : FiberPtr} (code : (s.threads i).point = .code) (made : s.unused f = false)
      (hasStack : (s.fibers f).m_stack = true)
      (idle : (s.fibers f).m_state = .INIT ∨ (s.fibers f).m_state = .TERM ∨
        (s.fibers f).m_state = .EXCEPT) :
      Stepped s i (.reset f) (s.goto i (.resetting f))
  | MainFunc {call : Call} {cur : FiberPtr} (code : (s.threads i).point = .code)
      (inMainFunc : s.cur (s.threads i).here.stack = some cur)
      (ends : call = .returns ∨ call = .throws) :
      Stepped s i call (s.MainFunc i cur (call == .throws))
  | endsThread (code : (s.threads i).point = .code)
      (outside : s.cur (s.threads i).here.stack = none) :
      Stepped s i .returns (s.goto i .exited)
  | mark {f : FiberPtr} (point : (s.threads i).point = .checked f) :
      Stepped s i .next (s.mark i f)
  | load {f : FiberPtr} (point : (s.threads i).point = .marked f) :
      Stepped s i .next (s.swapcontext i (s.threads i).t_threadFiber f false)
  | save {cur : FiberPtr} (point : (s.threads i).point = .yielding cur) :
      Stepped s i .next (s.swapcontext i cur (s.threads i).t_threadFiber true)
  | remake {f : FiberPtr} (point : (s.threads i).point = .resetting f) :
      Stepped s i .next (s.remake i f)
  | reinit {f : FiberPtr} (point : (s.threads i).point = .remade f) :
      Stepped s i .next (s.reinit i f)
  | leave (point : (s.threads i).point = .ended) : Stepped s i .next (s.goto i .exited)

theorem stepped_of_step {s t : FiberThreads ι} {action : Action ι}
    (stepped : s.step action = some t) : Stepped s action.1 action.2 t := by
  obtain ⟨i, call⟩ := action
  have finished : ∀ {call : Call}, call = .returns ∨ call = .throws →
      (s.threads i).point = .code → s.finish i (call == .throws) = some t →
      Stepped s i call t := by
    intro call ends code result
    unfold finish at result
    split at result
    · rename_i cur inMainFunc
      cases result
      exact .MainFunc code inMainFunc ends
    · rename_i outside
      rcases ends with rfl | rfl
      · cases result
        exact .endsThread code outside
      · cases result
  cases call with
  | next =>
    simp only [step, advance] at stepped
    split at stepped
    · cases stepped
    · rename_i point; cases stepped; exact .mark point
    · rename_i point; cases stepped; exact .load point
    · rename_i point; cases stepped; exact .save point
    · rename_i point; cases stepped; exact .remake point
    · rename_i point; cases stepped; exact .reinit point
    · rename_i point; cases stepped; exact .leave point
    · cases stepped
  | construct f =>
    obtain ⟨code, result⟩ := Option.ite_none_right_eq_some.mp stepped
    obtain ⟨free, same⟩ := Option.ite_none_right_eq_some.mp result
    cases same
    exact .construct code free
  | swapIn f =>
    obtain ⟨code, result⟩ := Option.ite_none_right_eq_some.mp stepped
    obtain ⟨⟨made, idle⟩, same⟩ := Option.ite_none_right_eq_some.mp result
    cases same
    exact .swapIn code made idle
  | YieldToReady =>
    obtain ⟨code, result⟩ := Option.ite_none_right_eq_some.mp stepped
    cases result
    exact .yield code rfl
  | YieldToHold =>
    obtain ⟨code, result⟩ := Option.ite_none_right_eq_some.mp stepped
    cases result
    exact .yield code rfl
  | reset f =>
    obtain ⟨code, result⟩ := Option.ite_none_right_eq_some.mp stepped
    obtain ⟨⟨made, hasStack, idle⟩, same⟩ := Option.ite_none_right_eq_some.mp result
    cases same
    exact .reset code made hasStack idle
  | returns =>
    obtain ⟨code, result⟩ := Option.ite_none_right_eq_some.mp stepped
    exact finished (.inl rfl) code result
  | throws =>
    obtain ⟨code, result⟩ := Option.ite_none_right_eq_some.mp stepped
    exact finished (.inr rfl) code result

end FiberThreads

/-- The main fibres of the threads, which each has got from `Fiber::GetThis()`, and the
addresses at which there is none. -/
structure MainFibers (ι : Type) where
  address : ι → FiberPtr
  injective : Function.Injective address
  unused : FiberPtr → Bool
  apart : ∀ i, unused (address i) = false

/-- The threads before they have made fibres. -/
def FiberThreads.start {ι : Type} (mains : MainFibers ι) : FiberThreads ι where
  fibers := fun f => { m_state := .EXEC, m_ctx := { context := { stack := f, point := 1 } } }
  unused := mains.unused
  threads := fun i =>
    { t_fiber := mains.address i, t_threadFiber := mains.address i,
      here := { stack := mains.address i, point := 1 } }

end Chord
