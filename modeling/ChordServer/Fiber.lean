import ChordServer.Transition
import Mathlib.Logic.Function.Basic

set_option autoImplicit false

namespace Chord

/-- The address of a `Fiber` object. A stack is named by the fibre it belongs to. -/
abbrev FiberPtr := Nat

/-- `Fiber::State`. -/
inductive FiberState
  | INIT
  | HOLD
  | EXEC
  | TERM
  | READY
  | EXCEPT
  deriving DecidableEq, Repr

/-- A place in the code that runs on one stack: the code has made `point` calls
since it was entered. -/
structure Context where
  stack : FiberPtr
  point : Nat
  deriving DecidableEq, Repr

/-- The place at which the call made at this one returns. -/
def Context.next (context : Context) : Context := { context with point := context.point + 1 }

@[simp] theorem Context.next_stack (context : Context) : context.next.stack = context.stack := rfl

/-- `ucontext_t`: where it continues, and where control goes when the function
given to `makecontext` returns. -/
structure UContext where
  context : Context
  uc_link : Option FiberPtr := none
  deriving DecidableEq, Repr

structure Fiber where
  m_id : Nat := 0
  m_state : FiberState := .INIT
  m_ctx : UContext
  m_stack : Bool := false
  m_cb : Bool := false
  deriving DecidableEq, Repr

/-- What the thread does: it runs code, or it has exited because the function at
the bottom of the named stack returned. -/
inductive Control
  | running (context : Context)
  | threadExited (stack : FiberPtr)
  deriving DecidableEq, Repr

/-- The fibres of one thread. `count` objects have been made so far; `cur` is the
local variable of that name in the `MainFunc` that runs on each stack. -/
structure FiberSystem where
  fibers : FiberPtr → Fiber
  count : Nat
  s_fiber_id : Nat
  s_fiber_count : Nat
  t_fiber : Option FiberPtr
  t_threadFiber : Option FiberPtr
  cur : FiberPtr → Option FiberPtr
  control : Control

namespace FiberSystem

def setFiber (s : FiberSystem) (f : FiberPtr) (fiber : Fiber) : FiberSystem :=
  { s with fibers := Function.update s.fibers f fiber }

def setState (s : FiberSystem) (f : FiberPtr) (state : FiberState) : FiberSystem :=
  s.setFiber f { s.fibers f with m_state := state }

def setContext (s : FiberSystem) (f : FiberPtr) (context : Context) : FiberSystem :=
  s.setFiber f { s.fibers f with m_ctx := { (s.fibers f).m_ctx with context := context } }

def SetThis (s : FiberSystem) (f : Option FiberPtr) : FiberSystem := { s with t_fiber := f }

/-- Continues at a saved place. At the entry of `MainFunc` its first statement,
`Fiber::ptr cur = GetThis()`, is executed at once. -/
def load (s : FiberSystem) (context : Context) : FiberSystem :=
  { s with
    control := .running context
    cur := if context.point = 0 then Function.update s.cur context.stack s.t_fiber else s.cur }

/-- `swapcontext(&save->m_ctx, &restore->m_ctx)`, called at `here`: the running
place is stored first and the other slot is read after it. -/
def swapcontext (s : FiberSystem) (here : Context) (save restore : FiberPtr) : FiberSystem :=
  let saved := s.setContext save here.next
  saved.load (saved.fibers restore).m_ctx.context

@[simp] theorem setFiber_fibers (s : FiberSystem) (f : FiberPtr) (fiber : Fiber) :
    (s.setFiber f fiber).fibers = Function.update s.fibers f fiber := rfl

@[simp] theorem setState_fibers (s : FiberSystem) (f : FiberPtr) (state : FiberState) :
    (s.setState f state).fibers = Function.update s.fibers f { s.fibers f with m_state := state } :=
  rfl

@[simp] theorem SetThis_fibers (s : FiberSystem) (f : Option FiberPtr) :
    (s.SetThis f).fibers = s.fibers := rfl

/-- A switch changes one fibre's record, and that only in the saved place. -/
theorem swapcontext_fibers (s : FiberSystem) (here : Context) (save restore : FiberPtr) :
    (s.swapcontext here save restore).fibers =
      Function.update s.fibers save
        { s.fibers save with
          m_ctx := { (s.fibers save).m_ctx with context := here.next } } := rfl

theorem swapcontext_control (s : FiberSystem) (here : Context) {save restore : FiberPtr}
    (apart : restore ≠ save) :
    (s.swapcontext here save restore).control =
      .running (s.fibers restore).m_ctx.context := by
  simp only [swapcontext, load, setContext, setFiber_fibers, Function.update_of_ne apart]

/-- Switching to the slot that has just been written goes on as if nothing happened. -/
theorem swapcontext_control_self (s : FiberSystem) (here : Context) (f : FiberPtr) :
    (s.swapcontext here f f).control = .running here.next := by
  simp only [swapcontext, load, setContext, setFiber_fibers, Function.update_self]

/-- `Fiber::Fiber()` in `GetThis()`: the fibre of the stack the thread started on.
`getcontext` stores a place inside the running call. -/
def GetThis (s : FiberSystem) (here : Context) : FiberSystem × FiberPtr :=
  match s.t_fiber with
  | some f => (s, f)
  | none =>
      ({ s.setFiber s.count { m_state := .EXEC, m_ctx := { context := here.next } } with
          count := s.count + 1
          s_fiber_count := s.s_fiber_count + 1
          t_fiber := some s.count
          t_threadFiber := some s.count }, s.count)

/-- The context that `makecontext(&m_ctx, &Fiber::MainFunc, 0)` leaves in a fibre
after `m_ctx.uc_link = nullptr`. -/
def madeContext (f : FiberPtr) : UContext := { context := { stack := f, point := 0 } }

/-- `new Fiber(cb, stacksize)`. -/
def construct (s : FiberSystem) : FiberSystem :=
  { s.setFiber s.count
      { m_id := s.s_fiber_id + 1, m_ctx := madeContext s.count, m_stack := true, m_cb := true } with
    count := s.count + 1
    s_fiber_id := s.s_fiber_id + 1
    s_fiber_count := s.s_fiber_count + 1 }

/-- `none` is a failed assertion. -/
def reset (s : FiberSystem) (f : FiberPtr) : Option FiberSystem :=
  let fiber := s.fibers f
  if fiber.m_stack ∧ (fiber.m_state = .INIT ∨ fiber.m_state = .TERM ∨ fiber.m_state = .EXCEPT) then
    some (s.setFiber f { fiber with m_cb := true, m_ctx := madeContext f, m_state := .INIT })
  else none

/-- `none` is the failed assertion `m_state != EXEC` or a null `t_threadFiber`. -/
def swapIn (s : FiberSystem) (here : Context) (f : FiberPtr) : Option FiberSystem :=
  let s := s.SetThis (some f)
  if (s.fibers f).m_state = .EXEC then none
  else s.t_threadFiber.map fun main => (s.setState f .EXEC).swapcontext here main f

def swapOut (s : FiberSystem) (here : Context) (f : FiberPtr) : Option FiberSystem :=
  let s := s.SetThis s.t_threadFiber
  s.t_threadFiber.map fun main => s.swapcontext here f main

/-- `YieldToReady()` and `YieldToHold()` differ in the state they leave. -/
def yieldTo (s : FiberSystem) (here : Context) (state : FiberState) : Option FiberSystem :=
  let (s, cur) := s.GetThis here
  (s.setState cur state).swapOut here cur

def YieldToReady (s : FiberSystem) (here : Context) : Option FiberSystem := s.yieldTo here .READY

def YieldToHold (s : FiberSystem) (here : Context) : Option FiberSystem := s.yieldTo here .HOLD

/-- The function given to `makecontext` has returned. -/
def endStack (s : FiberSystem) (stack : FiberPtr) : FiberSystem :=
  match (s.fibers stack).m_ctx.uc_link with
  | some link => s.load (s.fibers link).m_ctx.context
  | none => { s with control := .threadExited stack }

/-- The rest of `MainFunc` after `cur->m_cb()` has returned or thrown. -/
def MainFunc (s : FiberSystem) (stack cur : FiberPtr) (threw : Bool) : FiberSystem :=
  let fiber := s.fibers cur
  let ended :=
    if threw then { fiber with m_state := .EXCEPT }
    else { fiber with m_cb := false, m_state := .TERM }
  (s.setFiber cur ended).endStack stack

/-- What the code that is executing may do next. -/
inductive Action
  | construct
  | reset (f : FiberPtr)
  | swapIn (f : FiberPtr)
  | YieldToReady
  | YieldToHold
  | returns
  | throws
  deriving DecidableEq, Repr

/-- The end of the code on the running stack. On the stack the thread started on
that is its start routine, which ends the thread; an exception there is not caught. -/
def finish (s : FiberSystem) (here : Context) (threw : Bool) : Option FiberSystem :=
  match s.cur here.stack with
  | some cur => some (s.MainFunc here.stack cur threw)
  | none => if threw then none else some { s with control := .threadExited here.stack }

def step (s : FiberSystem) (action : Action) : Option FiberSystem :=
  match s.control with
  | .threadExited _ => none
  | .running here =>
      match action with
      | .construct => some { s.construct with control := .running here.next }
      | .reset f =>
          if f < s.count then
            (s.reset f).map fun t => { t with control := .running here.next }
          else none
      | .swapIn f => if f < s.count then s.swapIn here f else none
      | .YieldToReady => s.YieldToReady here
      | .YieldToHold => s.YieldToHold here
      | .returns => s.finish here false
      | .throws => s.finish here true

/-- A thread before its first fibre call. -/
def boot (s_fiber_id s_fiber_count : Nat) : FiberSystem where
  fibers := fun f => { m_ctx := { context := { stack := f, point := 0 } } }
  count := 0
  s_fiber_id := s_fiber_id
  s_fiber_count := s_fiber_count
  t_fiber := none
  t_threadFiber := none
  cur := fun _ => none
  control := .running { stack := 0, point := 0 }

/-- The state after `Fiber::GetThis()`; the counters belong to the whole process. -/
def start (s_fiber_id s_fiber_count : Nat) : FiberSystem :=
  { ((boot s_fiber_id s_fiber_count).GetThis { stack := 0, point := 0 }).1 with
    control := .running { stack := 0, point := 1 } }

/-- The main fibre is the first one made. -/
def mainFiber : FiberPtr := 0

/-- The state a yield leaves its fibre in. -/
def Action.yieldState : Action → Option FiberState
  | .YieldToReady => some .READY
  | .YieldToHold => some .HOLD
  | _ => none

/-- Everything one step can do, with the checks it has passed. -/
inductive Stepped (s : FiberSystem) (here : Context) : Action → FiberSystem → Prop
  | construct : Stepped s here .construct { s.construct with control := .running here.next }
  | reset {f : FiberPtr} (made : f < s.count) (hasStack : (s.fibers f).m_stack = true)
      (idle : (s.fibers f).m_state = .INIT ∨ (s.fibers f).m_state = .TERM ∨
        (s.fibers f).m_state = .EXCEPT) :
      Stepped s here (.reset f)
        { s.setFiber f { s.fibers f with m_cb := true, m_ctx := madeContext f, m_state := .INIT }
          with control := .running here.next }
  | swapIn {f main : FiberPtr} (made : f < s.count) (idle : (s.fibers f).m_state ≠ .EXEC)
      (thread : s.t_threadFiber = some main) :
      Stepped s here (.swapIn f)
        (((s.SetThis (some f)).setState f .EXEC).swapcontext here main f)
  | yield {action : Action} {state : FiberState} {main : FiberPtr}
      (yields : action.yieldState = some state)
      (thread : (s.GetThis here).1.t_threadFiber = some main) :
      Stepped s here action
        ((((s.GetThis here).1.setState (s.GetThis here).2 state).SetThis (some main)).swapcontext
          here (s.GetThis here).2 main)
  | endsMainFunc {action : Action} {cur : FiberPtr} (inMainFunc : s.cur here.stack = some cur)
      (ends : action = .returns ∨ action = .throws) :
      Stepped s here action (s.MainFunc here.stack cur (action == .throws))
  | endsThread (outside : s.cur here.stack = none) :
      Stepped s here .returns { s with control := .threadExited here.stack }

theorem stepped_of_step {s t : FiberSystem} {action : Action} (stepped : s.step action = some t) :
    ∃ here, s.control = .running here ∧ Stepped s here action t := by
  unfold step at stepped
  split at stepped
  · cases stepped
  · rename_i here running
    refine ⟨here, running, ?_⟩
    have yielded : ∀ {action : Action} {state : FiberState},
        action.yieldState = some state → s.yieldTo here state = some t →
        Stepped s here action t := by
      intro action state yields result
      simp only [yieldTo, swapOut, Option.map_eq_some_iff] at result
      obtain ⟨main, thread, rfl⟩ := result
      have thread : (s.GetThis here).1.t_threadFiber = some main := thread
      have same : ((s.GetThis here).1.setState (s.GetThis here).2 state).t_threadFiber =
          some main := thread
      rw [same]
      exact .yield yields thread
    have finished : ∀ {action : Action}, action = .returns ∨ action = .throws →
        s.finish here (action == .throws) = some t → Stepped s here action t := by
      intro action ends result
      unfold finish at result
      split at result
      · rename_i cur inMainFunc
        cases result
        exact .endsMainFunc inMainFunc ends
      · rename_i outside
        rcases ends with rfl | rfl
        · cases result
          exact .endsThread outside
        · cases result
    cases action with
    | construct => cases stepped; exact .construct
    | reset f =>
      dsimp only at stepped
      split at stepped
      · rename_i made
        simp only [FiberSystem.reset] at stepped
        split at stepped
        · rename_i checked
          cases stepped
          exact .reset made checked.1 checked.2
        · cases stepped
      · cases stepped
    | swapIn f =>
      dsimp only at stepped
      split at stepped
      · rename_i made
        simp only [FiberSystem.swapIn] at stepped
        split at stepped
        · cases stepped
        · rename_i idle
          simp only [Option.map_eq_some_iff] at stepped
          obtain ⟨main, thread, rfl⟩ := stepped
          exact .swapIn made idle thread
      · cases stepped
    | YieldToReady => exact yielded rfl stepped
    | YieldToHold => exact yielded rfl stepped
    | returns => exact finished (.inl rfl) stepped
    | throws => exact finished (.inr rfl) stepped

end FiberSystem

end Chord
