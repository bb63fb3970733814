import ChordServer.Fiber

set_option autoImplicit false

namespace Chord

/-- The fibres of one thread with the `shared_ptr`s to them. `owners` counts those outside
the fibres' stacks, but for `t_threadFiber`, and `held` is the `cur` of the yield that has
not returned on each stack; the `cur` of `MainFunc` is in `FiberSystem`. -/
structure SharedFibers where
  system : FiberSystem
  use_count : FiberPtr → Nat
  owners : FiberPtr → Nat := fun _ => 0
  held : FiberPtr → Option FiberPtr := fun _ => none
  destroyed : FiberPtr → Bool := fun _ => false

namespace SharedFibers

open FiberSystem (Action mainFiber)

def share (s : SharedFibers) (f : FiberPtr) : SharedFibers :=
  { s with use_count := Function.update s.use_count f (s.use_count f + 1) }

/-- `Fiber::~Fiber()`; `none` is a failed assertion. The one about the state of a main fibre
assigns it. -/
def destroy (s : SharedFibers) (f : FiberPtr) : Option SharedFibers :=
  let fiber := s.system.fibers f
  let uncounted := { s.system with s_fiber_count := s.system.s_fiber_count - 1 }
  let gone := { s with destroyed := Function.update s.destroyed f true }
  if fiber.m_stack then
    if fiber.m_state = .TERM ∨ fiber.m_state = .INIT ∨ fiber.m_state = .EXCEPT then
      some { gone with system := uncounted }
    else none
  else if fiber.m_cb then none
  else
    let t_fiber := if s.system.t_fiber = some f then none else s.system.t_fiber
    some { gone with system := (uncounted.setState f .EXEC).SetThis t_fiber }

/-- A `shared_ptr` to the fibre is destroyed. -/
def release (s : SharedFibers) (f : FiberPtr) : Option SharedFibers :=
  let left := { s with use_count := Function.update s.use_count f (s.use_count f - 1) }
  if s.use_count f - 1 = 0 then left.destroy f else some left

/-- A new `shared_ptr` outside the fibres' stacks. -/
def own (s : SharedFibers) (f : FiberPtr) : SharedFibers :=
  { s.share f with owners := Function.update s.owners f (s.owners f + 1) }

def drop (s : SharedFibers) (f : FiberPtr) : Option SharedFibers :=
  { s with owners := Function.update s.owners f (s.owners f - 1) }.release f

/-- `Fiber::ptr f(new Fiber(cb))`. -/
def make (s : SharedFibers) (next : FiberSystem) : SharedFibers :=
  let f := s.system.count
  { system := next
    use_count := Function.update s.use_count f 1
    owners := Function.update s.owners f 1
    held := Function.update s.held f none
    destroyed := Function.update s.destroyed f false }

/-- What the code does first at the place where `swapcontext` has continued: `MainFunc`
gets its `cur`, and a yield returns and destroys its own. -/
def arrive (s : SharedFibers) : Option SharedFibers :=
  match s.system.control with
  | .threadExited _ => some s
  | .running place =>
      if place.point = 0 then s.system.t_fiber.map s.share
      else
        match s.held place.stack with
        | some cur => { s with held := Function.update s.held place.stack none }.release cur
        | none => some s

/-- `YieldToReady()` or `YieldToHold()` at `here`; the main fibre exists, so `GetThis()`
makes none. -/
def yieldTo (s : SharedFibers) (here : Context) (action : Action) : Option SharedFibers :=
  s.system.t_fiber.bind fun cur =>
    let s := { s.share cur with held := Function.update s.held here.stack (some cur) }
    (s.system.step action).bind fun next => { s with system := next }.arrive

/-- The `thread_local` variables of a thread that exits are destroyed. -/
def exitThread (s : SharedFibers) : Option SharedFibers :=
  match s.system.t_threadFiber with
  | some main => { s with system := { s.system with t_threadFiber := none } }.release main
  | none => some s

/-- The end of the code on the running stack: `MainFunc` returns, which destroys its `cur`,
and the thread exits. -/
def finish (s : SharedFibers) (here : Context) (action : Action) : Option SharedFibers :=
  (s.system.step action).bind fun next =>
    let ended := { s with system := next }
    ((s.system.cur here.stack).elim (some ended) ended.release).bind fun released =>
      match next.control with
      | .running _ => released.arrive
      | .threadExited _ => released.exitThread

/-- What the code that is executing may do next with the fibres and its `shared_ptr`s. -/
inductive Call
  | code (action : Action)
  | GetThis
  | copy (f : FiberPtr)
  | drop (f : FiberPtr)
  deriving DecidableEq, Repr

/-- A fibre is reset, swapped in, copied and dropped through a `shared_ptr`. -/
def step (s : SharedFibers) (call : Call) : Option SharedFibers :=
  match s.system.control with
  | .threadExited _ => none
  | .running here =>
      match call with
      | .GetThis => s.system.t_fiber.map s.own
      | .copy f => if 0 < s.owners f then some (s.own f) else none
      | .drop f => if 0 < s.owners f then s.drop f else none
      | .code .construct => (s.system.step .construct).map s.make
      | .code (.reset f) =>
          if 0 < s.owners f then
            (s.system.step (.reset f)).map fun next => { s with system := next }
          else none
      | .code (.swapIn f) =>
          if 0 < s.owners f then
            (s.system.step (.swapIn f)).bind fun next => { s with system := next }.arrive
          else none
      | .code .YieldToReady => s.yieldTo here .YieldToReady
      | .code .YieldToHold => s.yieldTo here .YieldToHold
      | .code .returns => s.finish here .returns
      | .code .throws => s.finish here .throws

/-- The state after `Fiber::GetThis()` in a thread without fibres. -/
def start (s_fiber_id s_fiber_count : Nat) : SharedFibers where
  system := FiberSystem.start s_fiber_id s_fiber_count
  use_count := Function.update (fun _ => 0) mainFiber 1

/-- The code that is executing is on the fibre's stack. -/
def Executes (s : SharedFibers) (f : FiberPtr) : Prop :=
  match s.system.control with
  | .running here => here.stack = f
  | .threadExited _ => False

/-- There is a `shared_ptr` to the fibre outside the fibres' stacks. -/
def Owned (s : SharedFibers) (f : FiberPtr) : Prop :=
  0 < s.owners f ∨ s.system.t_threadFiber = some f

/-- The fibre has yielded and not been swapped in since. -/
def Suspended (s : SharedFibers) (f : FiberPtr) : Prop :=
  (s.system.fibers f).m_state = .HOLD ∨ (s.system.fibers f).m_state = .READY

instance (s : SharedFibers) : DecidablePred s.Executes := fun f => by
  unfold Executes
  cases s.system.control <;> infer_instance

instance (s : SharedFibers) : DecidablePred s.Owned := fun _ => inferInstanceAs (Decidable (_ ∨ _))

instance (s : SharedFibers) : DecidablePred s.Suspended := fun _ =>
  inferInstanceAs (Decidable (_ ∨ _))

end SharedFibers

end Chord
