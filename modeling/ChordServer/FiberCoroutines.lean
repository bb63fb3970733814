import ChordServer.FiberTracking

set_option autoImplicit false

namespace Chord

/-- Coroutines with one main routine, which alone resumes the others and to which they
yield. `resume` is the place where a routine goes on that does not run: a coroutine's
entry or the place after its last yield, and for the main routine the place after its
last `swapIn`. -/
structure Coroutines where
  count : Nat
  state : FiberPtr → FiberState
  resume : FiberPtr → Nat
  running : FiberPtr
  point : Nat

namespace Coroutines

open FiberSystem (Action mainFiber)

/-- The main routine after its first call, before there are coroutines. -/
def start : Coroutines where
  count := 1
  state := Function.update (fun _ => .INIT) mainFiber .EXEC
  resume := fun _ => 0
  running := mainFiber
  point := 1

/-- A new coroutine has not been entered. -/
def construct (m : Coroutines) : Coroutines :=
  { m with
    count := m.count + 1
    state := Function.update m.state m.count .INIT
    resume := Function.update m.resume m.count 0
    point := m.point + 1 }

/-- A coroutine that is not under way starts over. -/
def reset (m : Coroutines) (f : FiberPtr) : Option Coroutines :=
  if f < m.count ∧ f ≠ mainFiber ∧
      (m.state f = .INIT ∨ m.state f = .TERM ∨ m.state f = .EXCEPT) then
    some { m with
      state := Function.update m.state f .INIT
      resume := Function.update m.resume f 0
      point := m.point + 1 }
  else none

/-- The main routine resumes `f` where `f` left off. -/
def swapIn (m : Coroutines) (f : FiberPtr) : Option Coroutines :=
  if m.running = mainFiber ∧ f < m.count ∧
      (m.state f = .INIT ∨ m.state f = .HOLD ∨ m.state f = .READY) then
    some { m with
      state := Function.update m.state f .EXEC
      resume := Function.update m.resume mainFiber (m.point + 1)
      running := f
      point := m.resume f }
  else none

/-- The running coroutine leaves off, and the main routine goes on after its `swapIn`. -/
def yield (m : Coroutines) (state : FiberState) : Option Coroutines :=
  if m.running ≠ mainFiber then
    some { m with
      state := Function.update m.state m.running state
      resume := Function.update m.resume m.running (m.point + 1)
      running := mainFiber
      point := m.resume mainFiber }
  else none

def step (m : Coroutines) : Action → Option Coroutines
  | .construct => some m.construct
  | .reset f => m.reset f
  | .swapIn f => m.swapIn f
  | .YieldToReady => m.yield .READY
  | .YieldToHold => m.yield .HOLD
  | .returns => none
  | .throws => none

end Coroutines

namespace FiberSystem

/-- Only the main fibre's code calls `swapIn`, on fibres that may go on, only the code of
other fibres yields, and no code comes to its end. -/
def Action.Disciplined (s : FiberSystem) (here : Context) : Action → Prop
  | .construct => True
  | .reset _ => True
  | .swapIn f => here.stack = mainFiber ∧
      ((s.fibers f).m_state = .INIT ∨ (s.fibers f).m_state = .HOLD ∨ (s.fibers f).m_state = .READY)
  | .YieldToReady => here.stack ≠ mainFiber
  | .YieldToHold => here.stack ≠ mainFiber
  | .returns => False
  | .throws => False

def Disciplined (s : FiberSystem) (action : Action) : Prop :=
  ∀ here, s.control = .running here → action.Disciplined s here

instance (s : FiberSystem) (here : Context) (action : Action) :
    Decidable (action.Disciplined s here) := by
  cases action <;> unfold Action.Disciplined <;> infer_instance

instance (s : FiberSystem) (action : Action) : Decidable (Disciplined s action) :=
  match running : s.control with
  | .threadExited _ => .isTrue fun _ runs => absurd (running.symm.trans runs) nofun
  | .running place =>
      decidable_of_iff (action.Disciplined s place)
        ⟨fun allowed _ runs => Control.running.inj (running.symm.trans runs) ▸ allowed,
          fun all => all place running⟩

/-- The fibres are the coroutines: the code of the running one is where it should be,
`t_fiber` points to it, every fibre is in its coroutine's state, and the saved context of
every fibre that does not run is the place on its own stack where it should go on. -/
structure Simulates (s : FiberSystem) (m : Coroutines) : Prop where
  control : s.control = .running { stack := m.running, point := m.point }
  current : s.t_fiber = some m.running
  thread : s.t_threadFiber = some mainFiber
  count : s.count = m.count
  made : mainFiber < m.count
  state : ∀ f, (s.fibers f).m_state = m.state f
  mainExec : m.state mainFiber = .EXEC
  saved : ∀ f, f ≠ m.running → (s.fibers f).m_ctx.context = { stack := f, point := m.resume f }
  hasStack : ∀ f < m.count, (s.fibers f).m_stack = true ↔ f ≠ mainFiber
  bound : m.running < m.count
  exec : m.state m.running = .EXEC

theorem start_simulates (s_fiber_id s_fiber_count : Nat) :
    Simulates (start s_fiber_id s_fiber_count) Coroutines.start := by
  have others : ∀ f, f ≠ mainFiber → (start s_fiber_id s_fiber_count).fibers f =
      { m_ctx := { context := { stack := f, point := 0 } } } :=
    fun f apart => Function.update_of_ne apart _ _
  refine ⟨rfl, rfl, rfl, rfl, Nat.zero_lt_one, fun f => ?_, rfl, fun f apart => ?_,
    fun f inside => ?_, Nat.zero_lt_one, rfl⟩
  · by_cases main : f = mainFiber
    · rw [main]
      rfl
    · rw [others f main]
      exact (Function.update_of_ne main FiberState.EXEC fun _ => FiberState.INIT).symm
  · rw [others f apart]
    rfl
  · obtain rfl : f = mainFiber := Nat.lt_one_iff.mp inside
    exact ⟨nofun, fun apart => absurd rfl apart⟩

variable {s : FiberSystem} {m : Coroutines}

theorem Simulates.construct (sim : Simulates s m) :
    Simulates { s.construct with control := .running { stack := m.running, point := m.point + 1 } }
      m.construct := by
  have fibers : ∀ f, s.construct.fibers f = if f = m.count then
      { m_id := s.s_fiber_id + 1, m_ctx := madeContext f, m_stack := true, m_cb := true }
      else s.fibers f := by
    intro f
    simp only [FiberSystem.construct, setFiber_fibers, Function.update_apply, sim.count]
    split_ifs with new
    · rw [new]
    · rfl
  have states : ∀ f, m.construct.state f = if f = m.count then .INIT else m.state f :=
    fun f => Function.update_apply _ _ _ _
  have resumes : ∀ f, m.construct.resume f = if f = m.count then 0 else m.resume f :=
    fun f => Function.update_apply _ _ _ _
  have mainOld : mainFiber ≠ m.count := Nat.ne_of_lt sim.made
  refine ⟨rfl, sim.current, sim.thread, congrArg Nat.succ sim.count, Nat.lt_succ_of_lt sim.made,
    fun f => ?_, ?_, fun f apart => ?_, fun f inside => ?_, Nat.lt_succ_of_lt sim.bound, ?_⟩
  · rw [fibers, states]
    split_ifs with new
    · rfl
    · exact sim.state f
  · rw [states, if_neg mainOld]
    exact sim.mainExec
  · rw [fibers, resumes]
    split_ifs with new
    · rfl
    · exact sim.saved f apart
  · rw [fibers]
    split_ifs with new
    · exact iff_of_true rfl fun main => mainOld (main.symm.trans new)
    · exact sim.hasStack f (Nat.lt_of_le_of_ne (Nat.le_of_lt_succ inside) new)
  · exact (states m.running).trans ((if_neg (Nat.ne_of_lt sim.bound)).trans sim.exec)

theorem Simulates.reset (sim : Simulates s m) {f : FiberPtr}
    (idle : m.state f ≠ .EXEC) :
    Simulates
      { s.setFiber f { s.fibers f with m_cb := true, m_ctx := madeContext f, m_state := .INIT }
        with control := .running { stack := m.running, point := m.point + 1 } }
      { m with
        state := Function.update m.state f .INIT
        resume := Function.update m.resume f 0
        point := m.point + 1 } := by
  have other : mainFiber ≠ f := by
    rintro rfl
    exact idle sim.mainExec
  have apart : m.running ≠ f := by
    intro same
    exact idle (same ▸ sim.exec)
  refine ⟨rfl, sim.current, sim.thread, sim.count, sim.made, fun g => ?_, ?_, fun g away => ?_,
    fun g inside => ?_, sim.bound, (Function.update_of_ne apart _ _).trans sim.exec⟩
  · simp only [setFiber_fibers, Function.update_apply]
    split_ifs with here
    · rfl
    · exact sim.state g
  · exact (Function.update_of_ne other _ _).trans sim.mainExec
  · simp only [setFiber_fibers, Function.update_apply]
    split_ifs with here
    · rw [here]
      rfl
    · exact sim.saved g away
  · simp only [setFiber_fibers, Function.update_apply]
    split_ifs with here
    · rw [here]
      exact sim.hasStack f (here ▸ inside)
    · exact sim.hasStack g inside

/-- What `swapIn` does to the fibres: it saves the caller's place in the main fibre. -/
theorem swapIn_fibers (s : FiberSystem) (here : Context) {f : FiberPtr} (other : f ≠ mainFiber)
    (g : FiberPtr) :
    (((s.SetThis (some f)).setState f .EXEC).swapcontext here mainFiber f).fibers g =
      if g = mainFiber then
        { s.fibers mainFiber with
          m_ctx := { (s.fibers mainFiber).m_ctx with context := here.next } }
      else if g = f then { s.fibers f with m_state := .EXEC }
      else s.fibers g := by
  simp only [swapcontext_fibers, setState_fibers, SetThis_fibers, Function.update_apply,
    other.symm, if_false]

/-- What a yield does to the fibres: it saves the place of the one that runs. -/
theorem yielded_fibers (s : FiberSystem) (here : Context) (state : FiberState) (g : FiberPtr) :
    (s.yielded here state).fibers g =
      if g = here.stack then
        { s.fibers here.stack with
          m_state := state
          m_ctx := { (s.fibers here.stack).m_ctx with context := here.next } }
      else s.fibers g := by
  simp only [yielded, swapcontext_fibers, SetThis_fibers, setState_fibers, Function.update_apply,
    if_true]
  split_ifs <;> rfl

/-- The main fibre's code resumes a fibre that is where its coroutine is. -/
theorem Simulates.swapIn (sim : Simulates s m) (main : m.running = mainFiber) {f : FiberPtr}
    (made : f < m.count) (idle : m.state f ≠ .EXEC) :
    Simulates (((s.SetThis (some f)).setState f .EXEC).swapcontext
        { stack := m.running, point := m.point } mainFiber f)
      { m with
        state := Function.update m.state f .EXEC
        resume := Function.update m.resume mainFiber (m.point + 1)
        running := f
        point := m.resume f } := by
  have other : f ≠ mainFiber := by
    rintro rfl
    exact idle sim.mainExec
  have away : f ≠ m.running := main ▸ other
  refine ⟨?_, rfl, sim.thread, sim.count, sim.made, fun g => ?_, ?_, fun g apart => ?_,
    fun g inside => ?_, made, Function.update_self _ _ _⟩
  · rw [swapcontext_control _ _ other]
    simp [sim.saved f away]
  · rw [swapIn_fibers _ _ other]
    simp only [Function.update_apply]
    split_ifs with first second second
    · exact absurd (second.symm.trans first) other
    · exact first ▸ sim.state g
    · rfl
    · exact sim.state g
  · exact (Function.update_of_ne other.symm _ _).trans sim.mainExec
  · have apart : g ≠ f := apart
    rw [swapIn_fibers _ _ other]
    simp only [Function.update_apply, if_neg apart]
    split_ifs with first
    · rw [first, ← main]
      rfl
    · exact sim.saved g (main ▸ first)
  · rw [swapIn_fibers _ _ other]
    split_ifs with first second
    · exact first ▸ sim.hasStack g inside
    · exact second ▸ sim.hasStack g inside
    · exact sim.hasStack g inside

/-- The fibre that runs leaves off, and the main fibre's code goes on after its `swapIn`. -/
theorem Simulates.yield (sim : Simulates s m) (other : m.running ≠ mainFiber)
    (state : FiberState) :
    Simulates (s.yielded { stack := m.running, point := m.point } state)
      { m with
        state := Function.update m.state m.running state
        resume := Function.update m.resume m.running (m.point + 1)
        running := mainFiber
        point := m.resume mainFiber } := by
  refine ⟨?_, rfl, sim.thread, sim.count, sim.made, fun g => ?_, ?_, fun g apart => ?_,
    fun g inside => ?_, sim.made, (Function.update_of_ne other.symm _ _).trans sim.mainExec⟩
  · rw [yielded_control, if_neg other, sim.saved mainFiber other.symm]
  · rw [yielded_fibers]
    simp only [Function.update_apply]
    split_ifs
    · rfl
    · exact sim.state g
  · exact (Function.update_of_ne other.symm _ _).trans sim.mainExec
  · rw [yielded_fibers]
    simp only [Function.update_apply]
    split_ifs with here
    · rw [here]
      rfl
    · exact sim.saved g here
  · rw [yielded_fibers]
    dsimp only
    split_ifs with here
    · exact here ▸ sim.hasStack g inside
    · exact sim.hasStack g inside

theorem Simulates.step_reset (sim : Simulates s m) (f : FiberPtr) :
    Option.Rel Simulates (s.step (.reset f)) (m.reset f) := by
  simp only [FiberSystem.step, sim.control, FiberSystem.reset, Coroutines.reset, sim.count,
    sim.state]
  by_cases inside : f < m.count
  · simp only [sim.hasStack f inside, inside, true_and, if_true]
    split_ifs with passes
    · refine .some (sim.reset fun exec => ?_)
      rw [exec] at passes
      simp at passes
    · exact .none
  · simp only [inside, false_and, if_false]
    exact .none

theorem Simulates.step_swapIn (sim : Simulates s m) {f : FiberPtr}
    (disciplined : Disciplined s (.swapIn f)) :
    Option.Rel Simulates (s.step (.swapIn f)) (m.swapIn f) := by
  obtain ⟨main, idle⟩ := disciplined _ sim.control
  simp only [sim.state] at idle
  have other : m.state f ≠ .EXEC := by
    intro exec
    simp [exec] at idle
  have passes : (((s.SetThis (some f)).fibers f).m_state = .EXEC) = False := by
    simp [sim.state, other]
  have thread : (s.SetThis (some f)).t_threadFiber = some mainFiber := sim.thread
  simp only [FiberSystem.step, sim.control, FiberSystem.swapIn, Coroutines.swapIn, sim.count,
    passes, thread, idle, and_true, if_false, Option.map_some]
  by_cases inside : f < m.count
  · rw [if_pos inside, if_pos ⟨main, inside⟩]
    exact .some (sim.swapIn main inside other)
  · rw [if_neg inside, if_neg fun both => inside both.2]
    exact .none

theorem Simulates.step_yield (sim : Simulates s m) (other : m.running ≠ mainFiber)
    (state : FiberState) :
    Option.Rel Simulates (s.yieldTo { stack := m.running, point := m.point } state)
      (m.yield state) := by
  have thread : (s.setState m.running state).t_threadFiber = some mainFiber := sim.thread
  have kept : ((s.setState m.running state).SetThis (some mainFiber)).t_threadFiber =
      some mainFiber := sim.thread
  rw [Coroutines.yield, if_pos other, yieldTo, GetThis_of_some sim.current]
  simp only [swapOut, thread, kept, Option.map_some]
  exact .some (sim.yield other state)

/-- A disciplined step of the fibres is one of the coroutines, and it is impossible for
both or for neither. -/
theorem Simulates.step {action : Action} (sim : Simulates s m)
    (disciplined : Disciplined s action) :
    Option.Rel Simulates (s.step action) (m.step action) := by
  cases action with
  | construct =>
    simp only [FiberSystem.step, sim.control]
    exact .some sim.construct
  | reset f => exact sim.step_reset f
  | swapIn f => exact sim.step_swapIn disciplined
  | YieldToReady =>
    simp only [FiberSystem.step, sim.control]
    exact sim.step_yield (disciplined _ sim.control) .READY
  | YieldToHold =>
    simp only [FiberSystem.step, sim.control]
    exact sim.step_yield (disciplined _ sim.control) .HOLD
  | returns => exact (disciplined _ sim.control).elim
  | throws => exact (disciplined _ sim.control).elim

/-- The fibres that an action is about, when the code at `here` takes it. -/
def concerns (s : FiberSystem) (here : Context) : Action → List FiberPtr
  | .construct => [s.count]
  | .reset f => [f]
  | .swapIn f => [mainFiber, f]
  | _ => [here.stack]

/-- The step leaves the saved contexts and the states of all other fibres alone. -/
def Framed (s : FiberSystem) (action : Action) : Prop :=
  ∀ here t, s.control = .running here → s.step action = some t →
    ∀ g ∉ s.concerns here action, t.fibers g = s.fibers g

theorem Simulates.framed {action : Action} (sim : Simulates s m)
    (disciplined : Disciplined s action) : Framed s action := by
  intro here t running stepped g other
  have discipline := disciplined here running
  obtain ⟨place, runs, stepped⟩ := stepped_of_step stepped
  obtain rfl : place = here := Control.running.inj (runs.symm.trans running)
  obtain rfl : { stack := m.running, point := m.point } = place :=
    Control.running.inj (sim.control.symm.trans running)
  cases stepped with
  | construct => exact Function.update_of_ne (List.ne_of_not_mem_cons other) _ _
  | reset made hasStack idle => exact Function.update_of_ne (List.ne_of_not_mem_cons other) _ _
  | @swapIn f main made idle thread =>
    obtain rfl := Option.some.inj (sim.thread.symm.trans thread)
    have notMain : f ≠ mainFiber := by
      rintro rfl
      exact idle ((sim.state mainFiber).trans sim.mainExec)
    simp only [concerns, List.mem_cons, List.not_mem_nil, or_false, not_or] at other
    rw [swapIn_fibers _ _ notMain, if_neg other.1, if_neg other.2]
  | @yield _ state main yields thread =>
    have apart : g ≠ m.running := by
      cases action <;> simp_all [Action.yieldState, concerns]
    rw [GetThis_of_some sim.current]
    simp only [swapcontext_fibers, SetThis_fibers, setState_fibers]
    rw [Function.update_of_ne apart, Function.update_of_ne apart]
  | @endsMainFunc _ cur inMainFunc ends => rcases ends with rfl | rfl <;> exact discipline.elim
  | endsThread outside => exact discipline.elim

/-- A disciplined run is one of the coroutines step by step, and every step leaves the
fibres alone that it is not about. -/
theorem run_simulates (s_fiber_id s_fiber_count : Nat) {actions : List Action}
    (disciplined : Transition.StepsMeet step Disciplined (start s_fiber_id s_fiber_count) actions) :
    Option.Rel Simulates (Transition.run step (start s_fiber_id s_fiber_count) actions)
      (Transition.run Coroutines.step Coroutines.start actions) ∧
    Transition.StepsMeet step Framed (start s_fiber_id s_fiber_count) actions := by
  have lockstep : ∀ (s : FiberSystem) (m : Coroutines) (action : Action), Simulates s m →
      Disciplined s action → Option.Rel Simulates (s.step action) (m.step action) :=
    fun s m action sim disciplined => sim.step disciplined
  have keeps : ∀ (s : FiberSystem) (action : Action) (t : FiberSystem), (∃ m, Simulates s m) →
      Disciplined s action → s.step action = some t → ∃ m, Simulates t m := by
    rintro s action t ⟨m, sim⟩ disciplined stepped
    have related := sim.step disciplined
    rw [stepped] at related
    cases image : m.step action with
    | none =>
      rw [image] at related
      cases related
    | some next =>
      rw [image] at related
      cases related with
      | some after => exact ⟨next, after⟩
  have initial := start_simulates s_fiber_id s_fiber_count
  refine ⟨Transition.run_related lockstep initial disciplined, ?_⟩
  refine disciplined.imp_of_invariant keeps ?_ ⟨_, initial⟩
  rintro s action ⟨m, sim⟩ disciplined
  exact sim.framed disciplined

/-- Two fibres are swapped in, one of them twice, and yield in between. -/
theorem run_simulates_two_fibers :
    Option.Rel Simulates
      (Transition.run step (start 0 0) [.construct, .construct, .swapIn 1, .YieldToHold,
        .swapIn 2, .YieldToReady, .swapIn 1, .YieldToReady])
      (Transition.run Coroutines.step Coroutines.start [.construct, .construct, .swapIn 1,
        .YieldToHold, .swapIn 2, .YieldToReady, .swapIn 1, .YieldToReady]) := by
  exact (run_simulates 0 0 (by decide)).1

end FiberSystem

end Chord
