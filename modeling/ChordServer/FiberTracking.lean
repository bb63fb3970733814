import ChordServer.Fiber
import Mathlib.Tactic.Common

set_option autoImplicit false

namespace Chord.FiberSystem

/-- `t_fiber` is the fibre whose stack is executing, and that fibre is in EXEC. -/
def Truthful (s : FiberSystem) : Prop :=
  ∀ here, s.control = .running here →
    s.t_fiber = some here.stack ∧ (s.fibers here.stack).m_state = .EXEC

/-- What a yield needs: a fibre other than main makes it, and the place that is
saved in the main fibre's slot, by the last `swapIn`, is one of the main fibre. -/
def YieldsToMain (s : FiberSystem) (action : Action) : Prop :=
  ∀ here, s.control = .running here → action.yieldState.isSome →
    here.stack ≠ mainFiber ∧ (s.fibers mainFiber).m_ctx.context.stack = mainFiber

/-- The invariant of the runs whose yields all go back to the main fibre, while
the code at `here` executes. A fibre other than main never has a place of another
stack in its slot. -/
structure Tracked (s : FiberSystem) (here : Context) : Prop where
  thread : s.t_threadFiber = some mainFiber
  made : mainFiber < s.count
  mainExec : (s.fibers mainFiber).m_state = .EXEC
  ownStack : ∀ f, f ≠ mainFiber → (s.fibers f).m_ctx.context.stack = f
  unlinked : ∀ f, (s.fibers f).m_ctx.uc_link = none
  current : s.t_fiber = some here.stack
  exec : (s.fibers here.stack).m_state = .EXEC
  bound : here.stack < s.count

/-- Once the thread has exited there is nothing left to track. -/
def TracksCurrent (s : FiberSystem) : Prop := ∀ here, s.control = .running here → Tracked s here

theorem start_tracked (s_fiber_id s_fiber_count : Nat) :
    TracksCurrent (start s_fiber_id s_fiber_count) := by
  have others : ∀ f, f ≠ mainFiber → (start s_fiber_id s_fiber_count).fibers f =
      { m_ctx := { context := { stack := f, point := 0 } } } :=
    fun f apart => Function.update_of_ne apart _ _
  rintro here ⟨⟩
  refine ⟨rfl, Nat.zero_lt_one, rfl, fun f apart => ?_, fun f => ?_, rfl, rfl, Nat.zero_lt_one⟩
  · rw [others f apart]
  · by_cases main : f = mainFiber
    · subst main
      rfl
    · rw [others f main]

variable {s t : FiberSystem} {here : Context} {action : Action}

theorem GetThis_of_some {f : FiberPtr} (current : s.t_fiber = some f) :
    s.GetThis here = (s, f) := by
  unfold GetThis
  rw [current]

theorem Tracked.construct (tracked : Tracked s here) :
    Tracked { s.construct with control := .running here.next } here.next := by
  have mainOld : mainFiber ≠ s.count := Nat.ne_of_lt tracked.made
  have hereOld : here.stack ≠ s.count := Nat.ne_of_lt tracked.bound
  refine ⟨tracked.thread, Nat.lt_succ_of_lt tracked.made, ?_, fun f other => ?_, fun f => ?_,
    tracked.current, ?_, Nat.lt_succ_of_lt tracked.bound⟩
  · simpa [FiberSystem.construct, mainOld] using tracked.mainExec
  · by_cases new : f = s.count
    · simp [FiberSystem.construct, madeContext, new]
    · simpa [FiberSystem.construct, new] using tracked.ownStack f other
  · by_cases new : f = s.count
    · simp [FiberSystem.construct, madeContext, new]
    · simpa [FiberSystem.construct, new] using tracked.unlinked f
  · simpa [FiberSystem.construct, hereOld] using tracked.exec

theorem Tracked.reset (tracked : Tracked s here) {f : FiberPtr}
    (idle : (s.fibers f).m_state = .INIT ∨ (s.fibers f).m_state = .TERM ∨
      (s.fibers f).m_state = .EXCEPT) :
    Tracked
      { s.setFiber f { s.fibers f with m_cb := true, m_ctx := madeContext f, m_state := .INIT }
        with control := .running here.next } here.next := by
  have apart : ∀ g, (s.fibers g).m_state = .EXEC → g ≠ f := by
    rintro g exec rfl
    simp [exec] at idle
  refine ⟨tracked.thread, tracked.made, ?_, fun g other => ?_, fun g => ?_, tracked.current, ?_,
    tracked.bound⟩
  · simpa [apart mainFiber tracked.mainExec] using tracked.mainExec
  · by_cases same : g = f
    · simp [madeContext, same]
    · simpa [same] using tracked.ownStack g other
  · by_cases same : g = f
    · simp [madeContext, same]
    · simpa [same] using tracked.unlinked g
  · simpa [apart here.stack tracked.exec] using tracked.exec

/-- `swapIn` always lands on the stack of its fibre. Nothing here asks who calls it. -/
theorem Tracked.swapIn (tracked : Tracked s here) {f : FiberPtr}
    (made : f < s.count) (idle : (s.fibers f).m_state ≠ .EXEC) :
    TracksCurrent (((s.SetThis (some f)).setState f .EXEC).swapcontext here mainFiber f) := by
  have other : f ≠ mainFiber := by
    rintro rfl
    exact idle tracked.mainExec
  intro next running
  rw [swapcontext_control _ _ other] at running
  obtain rfl : (s.fibers f).m_ctx.context = next := by simpa using running
  refine ⟨tracked.thread, tracked.made, ?_, fun g apart => ?_, fun g => ?_, ?_, ?_, ?_⟩
  · simpa [swapcontext_fibers, other.symm] using tracked.mainExec
  · rw [swapcontext_fibers, Function.update_of_ne apart]
    by_cases same : g = f
    · subst same
      simpa using tracked.ownStack g apart
    · simpa [same] using tracked.ownStack g apart
  · rw [swapcontext_fibers]
    by_cases main : g = mainFiber
    · simpa [main, other.symm] using tracked.unlinked mainFiber
    · by_cases same : g = f
      · subst same
        simpa [main] using tracked.unlinked g
      · simpa [main, same] using tracked.unlinked g
  · rw [tracked.ownStack f other]
    rfl
  · rw [tracked.ownStack f other, swapcontext_fibers]
    simp [other]
  · rw [tracked.ownStack f other]
    exact made

/-- The system after a yield of the current fibre. -/
def yielded (s : FiberSystem) (here : Context) (state : FiberState) : FiberSystem :=
  ((s.setState here.stack state).SetThis (some mainFiber)).swapcontext here here.stack mainFiber

/-- After a yield the place in the main fibre's slot runs, whoever stored it there;
a yield of the main fibre itself just goes on. -/
theorem yielded_control (s : FiberSystem) (here : Context) (state : FiberState) :
    (s.yielded here state).control =
      .running (if here.stack = mainFiber then here.next
        else (s.fibers mainFiber).m_ctx.context) := by
  unfold yielded
  split
  · rename_i main
    rw [main, swapcontext_control_self]
  · rename_i other
    rw [swapcontext_control _ _ (Ne.symm other)]
    simp [Ne.symm other]

theorem Tracked.yield (tracked : Tracked s here) (state : FiberState)
    (other : here.stack ≠ mainFiber)
    (own : (s.fibers mainFiber).m_ctx.context.stack = mainFiber) :
    TracksCurrent (s.yielded here state) := by
  have mainState : ((s.yielded here state).fibers mainFiber).m_state = .EXEC := by
    simpa [yielded, swapcontext_fibers, Ne.symm other] using tracked.mainExec
  intro next goes
  rw [yielded_control, if_neg other] at goes
  obtain rfl : (s.fibers mainFiber).m_ctx.context = next := Control.running.inj goes
  refine ⟨tracked.thread, tracked.made, mainState, fun g apart => ?_, fun g => ?_, ?_, ?_, ?_⟩
  · rw [yielded, swapcontext_fibers]
    by_cases same : g = here.stack
    · simp [same]
    · simpa [same] using tracked.ownStack g apart
  · rw [yielded, swapcontext_fibers]
    by_cases same : g = here.stack
    · simpa [same] using tracked.unlinked here.stack
    · simpa [same] using tracked.unlinked g
  · rw [own]
    rfl
  · rw [own]
    exact mainState
  · rw [own]
    exact tracked.made

/-- The state a yield leaves in the current fibre is not EXEC. -/
theorem yieldState_ne_EXEC {state : FiberState} (yields : action.yieldState = some state) :
    state ≠ .EXEC := by
  cases action <;> simp [Action.yieldState] at yields <;> simp [← yields]

/-- A yield that keeps `t_fiber` truthful goes back to the main fibre's own code. -/
theorem yieldsToMain_of_truthful {state : FiberState} (yields : action.yieldState = some state)
    (truthful : Truthful (s.yielded here state)) :
    here.stack ≠ mainFiber ∧ (s.fibers mainFiber).m_ctx.context.stack = mainFiber := by
  obtain ⟨current, exec⟩ := truthful _ (yielded_control s here state)
  by_cases main : here.stack = mainFiber
  · rw [if_pos main, Context.next_stack, main] at exec
    have left : ((s.yielded here state).fibers mainFiber).m_state = state := by
      simp [yielded, swapcontext_fibers, main]
    exact absurd (left.symm.trans exec) (yieldState_ne_EXEC yields)
  · rw [if_neg main] at current
    exact ⟨main, (Option.some.inj current).symm⟩

theorem yielded_of_stepped (tracked : Tracked s here) {state : FiberState} {main : FiberPtr}
    (thread : (s.GetThis here).1.t_threadFiber = some main) :
    (((s.GetThis here).1.setState (s.GetThis here).2 state).SetThis (some main)).swapcontext
      here (s.GetThis here).2 main = s.yielded here state := by
  rw [GetThis_of_some tracked.current] at thread ⊢
  obtain rfl : mainFiber = main := Option.some.inj (tracked.thread.symm.trans thread)
  rfl

/-- One step keeps track of the current fibre if its yield goes back to main. -/
theorem tracksCurrent_step (tracks : TracksCurrent s) (stepped : s.step action = some t)
    (condition : YieldsToMain s action) : TracksCurrent t := by
  obtain ⟨here, running, stepped⟩ := stepped_of_step stepped
  have tracked := tracks here running
  cases stepped with
  | construct =>
    rintro _ ⟨⟩
    exact tracked.construct
  | reset made hasStack idle =>
    rintro _ ⟨⟩
    exact tracked.reset idle
  | swapIn made idle thread =>
    obtain rfl := Option.some.inj (tracked.thread.symm.trans thread)
    exact tracked.swapIn made idle
  | @yield _ state main yields thread =>
    rw [yielded_of_stepped tracked thread]
    obtain ⟨other, own⟩ := condition here running (by rw [yields]; rfl)
    exact tracked.yield state other own
  | @endsMainFunc _ cur inMainFunc ends =>
    have exits : (s.MainFunc here.stack cur (action == .throws)).control =
        .threadExited here.stack := by
      have link : ∀ fiber : Fiber, fiber.m_ctx = (s.fibers cur).m_ctx →
          ((s.setFiber cur fiber).fibers here.stack).m_ctx.uc_link = none := by
        intro fiber same
        by_cases self : here.stack = cur
        · rw [setFiber_fibers, self, Function.update_self, same]
          exact tracked.unlinked cur
        · rw [setFiber_fibers, Function.update_of_ne self]
          exact tracked.unlinked here.stack
      unfold MainFunc endStack
      dsimp only
      rw [link _ (by split <;> rfl)]
    intro next goes
    rw [exits] at goes
    cases goes
  | endsThread outside =>
    rintro _ ⟨⟩

theorem yieldsToMain_of_step (tracks : TracksCurrent s) (stepped : s.step action = some t)
    (truthful : Truthful t) : YieldsToMain s action := by
  intro here running isYield
  obtain ⟨state, yields⟩ := Option.isSome_iff_exists.mp isYield
  obtain ⟨place, runs, stepped⟩ := stepped_of_step stepped
  obtain rfl : place = here := Control.running.inj (runs.symm.trans running)
  have tracked := tracks place running
  cases stepped with
  | construct => cases isYield
  | reset => cases isYield
  | swapIn => cases isYield
  | @yield _ other main same thread =>
    rw [yielded_of_stepped tracked thread] at truthful
    exact yieldsToMain_of_truthful same truthful
  | endsMainFunc inMainFunc ends => rcases ends with rfl | rfl <;> cases isYield
  | endsThread outside => cases isYield

/-- A yield is never refused while the current fibre is tracked. -/
theorem yieldsToMain_of_blocked (tracks : TracksCurrent s) (blocked : s.step action = none) :
    YieldsToMain s action := by
  intro here running isYield
  have tracked := tracks here running
  have runs : ∀ state, s.yieldTo here state ≠ none := by
    intro state
    simp only [yieldTo, GetThis_of_some tracked.current, swapOut, Option.map_eq_none_iff, ne_eq]
    exact fun missing => absurd (tracked.thread.symm.trans missing) (by simp)
  unfold step at blocked
  rw [running] at blocked
  cases action with
  | YieldToReady => exact absurd blocked (runs _)
  | YieldToHold => exact absurd blocked (runs _)
  | _ => cases isYield

/-- `t_fiber` is truthful along a run exactly when every yield of the run is made
by a fibre other than main whose `swapIn` the main fibre called. -/
theorem truthful_iff_yieldsToMain (s_fiber_id s_fiber_count : Nat) (actions : List Action) :
    Transition.EveryState step Truthful (start s_fiber_id s_fiber_count) actions ↔
      Transition.StepsMeet step YieldsToMain (start s_fiber_id s_fiber_count) actions :=
  Transition.everyState_iff_stepsMeet
    (fun _ (tracks : TracksCurrent _) here running =>
      ⟨(tracks here running).current, (tracks here running).exec⟩)
    (fun _ _ _ tracks stepped condition => tracksCurrent_step tracks stepped condition)
    (fun _ _ _ tracks stepped truthful => yieldsToMain_of_step tracks stepped truthful)
    (fun _ _ tracks blocked => yieldsToMain_of_blocked tracks blocked)
    (start_tracked s_fiber_id s_fiber_count)

/-- Fibre 1 swaps fibre 2 in, and fibre 2 yields: the code of fibre 1 goes on while
`t_fiber` is the main fibre. -/
theorem nested_swapIn_loses_track :
    ¬ Transition.EveryState step Truthful (start 0 0)
      [.construct, .construct, .swapIn 1, .swapIn 2, .YieldToHold] := by
  intro every
  have ends : (Transition.run step (start 0 0)
      [.construct, .construct, .swapIn 1, .swapIn 2, .YieldToHold]).map
        (fun s => (s.control, s.t_fiber)) =
      some (.running { stack := 1, point := 1 }, some mainFiber) := by decide
  obtain ⟨final, ran, same⟩ := Option.map_eq_some_iff.mp ends
  obtain ⟨control, current⟩ := Prod.mk.inj same
  have truthful := (every _ [] final (by simp) ran _ control).1
  rw [current] at truthful
  cases truthful

end Chord.FiberSystem
