import ChordServer.Fiber
import Mathlib.Tactic.Common

set_option autoImplicit false

namespace Chord.FiberSystem

/-- The step ends the `MainFunc` on the stack of a fibre other than main. -/
def EndsMainFunc (s : FiberSystem) (action : Action) : Prop :=
  ∃ here, s.control = .running here ∧ here.stack ≠ mainFiber ∧
    (action = .returns ∨ action = .throws)

/-- `place` is just after the last `swapIn` that the main fibre's code has called. -/
def AfterLastSwapIn (s₀ : FiberSystem) (actions : List Action) (place : Context) : Prop :=
  ∃ before f after s here, actions = before ++ .swapIn f :: after ∧
    Transition.run step s₀ before = some s ∧ s.control = .running here ∧
    here.stack = mainFiber ∧ place = here.next ∧
    ∀ first g rest t there, after = first ++ .swapIn g :: rest →
      Transition.run step s₀ (before ++ .swapIn f :: first) = some t →
      t.control = .running there → there.stack ≠ mainFiber

/-- The thread has exited, if at all, by the end of the main fibre's code. -/
def ExitsInMain (s : FiberSystem) : Prop :=
  ∀ stack, s.control = .threadExited stack → stack = mainFiber

/-- Every end of a callback hands control to the main fibre just after its last
`swapIn`, and the thread exits only by the end of the main fibre's own code. -/
def GivesControlBack (s₀ : FiberSystem) (actions : List Action) : Prop :=
  (∀ before action after s t, actions = before ++ action :: after →
    Transition.run step s₀ before = some s → s.step action = some t → EndsMainFunc s action →
    ∃ place, AfterLastSwapIn s₀ before place ∧ t.control = .running place) ∧
  Transition.EveryState step ExitsInMain s₀ actions

/-- A stack other than the main one that has got beyond its entry has its `cur`. -/
def Entered (s : FiberSystem) (place : Context) : Prop :=
  place.stack ≠ mainFiber → (s.cur place.stack).isSome

/-- No context has a successor, every saved place that is not an entry belongs to
an entered stack, and so does the running one. -/
structure Unlinked (s : FiberSystem) : Prop where
  unlinked : ∀ f, (s.fibers f).m_ctx.uc_link = none
  saved : ∀ f, (s.fibers f).m_ctx.context.point ≠ 0 → Entered s (s.fibers f).m_ctx.context
  running : ∀ here, s.control = .running here → Entered s here

theorem start_unlinked (s_fiber_id s_fiber_count : Nat) :
    Unlinked (start s_fiber_id s_fiber_count) := by
  have fiber : ∀ f, ((start s_fiber_id s_fiber_count).fibers f).m_ctx.uc_link = none ∧
      (f ≠ mainFiber → ((start s_fiber_id s_fiber_count).fibers f).m_ctx.context.point = 0) := by
    intro f
    by_cases main : f = mainFiber
    · subst main
      exact ⟨rfl, fun apart => absurd rfl apart⟩
    · have others : (start s_fiber_id s_fiber_count).fibers f =
          { m_ctx := { context := { stack := f, point := 0 } } } :=
        Function.update_of_ne main _ _
      rw [others]
      exact ⟨rfl, fun _ => rfl⟩
  refine ⟨fun f => (fiber f).1, fun f beyond => ?_, ?_⟩
  · by_cases main : f = mainFiber
    · subst main
      exact fun apart => absurd rfl apart
    · exact absurd ((fiber f).2 main) beyond
  · rintro here ⟨⟩
    exact fun apart => absurd rfl apart

variable {s t : FiberSystem} {here : Context} {action : Action}

/-- Changing a fibre's record but for its context. -/
theorem Unlinked.setFiber (unlinked : Unlinked s) {f : FiberPtr} {fiber : Fiber}
    (same : fiber.m_ctx = (s.fibers f).m_ctx) : Unlinked (s.setFiber f fiber) := by
  have contexts : ∀ g, ((s.setFiber f fiber).fibers g).m_ctx = (s.fibers g).m_ctx := by
    intro g
    by_cases self : g = f
    · rw [setFiber_fibers, self, Function.update_self, same]
    · rw [setFiber_fibers, Function.update_of_ne self]
  refine ⟨fun g => ?_, fun g => ?_, unlinked.running⟩
  · rw [contexts]
    exact unlinked.unlinked g
  · rw [contexts]
    exact unlinked.saved g

/-- Storing a context that is fresh or belongs to an entered stack. -/
theorem Unlinked.setContext (unlinked : Unlinked s) {f : FiberPtr} {fiber : Fiber}
    (noLink : fiber.m_ctx.uc_link = none)
    (place : fiber.m_ctx.context.point ≠ 0 → Entered s fiber.m_ctx.context) :
    Unlinked (s.setFiber f fiber) := by
  refine ⟨fun g => ?_, fun g => ?_, unlinked.running⟩
  · by_cases self : g = f
    · rwa [setFiber_fibers, self, Function.update_self]
    · rw [setFiber_fibers, Function.update_of_ne self]
      exact unlinked.unlinked g
  · by_cases self : g = f
    · rwa [setFiber_fibers, self, Function.update_self]
    · rw [setFiber_fibers, Function.update_of_ne self]
      exact unlinked.saved g

/-- Continuing at a saved place. An entry runs `cur = GetThis()` at once. -/
theorem Unlinked.load (unlinked : Unlinked s) {place : Context} (current : s.t_fiber.isSome)
    (resumable : place.point ≠ 0 → Entered s place) : Unlinked (s.load place) := by
  have grows : ∀ other, Entered s other → Entered (s.load place) other := by
    intro other entered apart
    unfold FiberSystem.load
    dsimp only
    split
    · by_cases same : other.stack = place.stack
      · rwa [same, Function.update_self]
      · rw [Function.update_of_ne same]
        exact entered apart
    · exact entered apart
  refine ⟨unlinked.unlinked, fun f beyond => grows _ (unlinked.saved f beyond), ?_⟩
  rintro _ ⟨⟩
  by_cases entry : place.point = 0
  · intro apart
    simpa only [FiberSystem.load, entry, ↓reduceIte, Function.update_self] using current
  · exact grows place (resumable entry)

theorem Unlinked.swapcontext (unlinked : Unlinked s) (running : s.control = .running here)
    (current : s.t_fiber.isSome) (save restore : FiberPtr) :
    Unlinked (s.swapcontext here save restore) := by
  have saved : Unlinked (s.setContext save here.next) :=
    unlinked.setContext (unlinked.unlinked save) fun _ => unlinked.running here running
  exact saved.load current (saved.saved restore)

theorem Unlinked.GetThis (unlinked : Unlinked s) (running : s.control = .running here) :
    Unlinked (s.GetThis here).1 ∧ (s.GetThis here).1.control = .running here := by
  unfold FiberSystem.GetThis
  split
  · exact ⟨unlinked, running⟩
  · have made : Unlinked
        (s.setFiber s.count { m_state := .EXEC, m_ctx := { context := here.next } }) :=
      unlinked.setContext rfl fun _ => unlinked.running here running
    exact ⟨⟨made.unlinked, made.saved, made.running⟩, running⟩

/-- The function at the bottom of a stack returns: `uc_link` is null, so the thread
exits whatever the main fibre still had to do. -/
theorem MainFunc_exits (unlinked : Unlinked s) (stack cur : FiberPtr) (threw : Bool) :
    (s.MainFunc stack cur threw).control = .threadExited stack ∧
      Unlinked (s.MainFunc stack cur threw) := by
  unfold FiberSystem.MainFunc
  dsimp only
  have kept : Unlinked (s.setFiber cur
      (if threw then { s.fibers cur with m_state := .EXCEPT }
        else { s.fibers cur with m_cb := false, m_state := .TERM })) :=
    unlinked.setFiber (by split <;> rfl)
  unfold FiberSystem.endStack
  rw [kept.unlinked stack]
  exact ⟨rfl, kept.unlinked, kept.saved, fun _ goes => by cases goes⟩

/-- What holds as long as no callback has ended. -/
structure NoneEnded (s : FiberSystem) : Prop where
  unlinked : Unlinked s
  exits : ExitsInMain s

theorem Unlinked.noneEnded (unlinked : Unlinked s)
    (running : s.control = .running here) : NoneEnded s :=
  ⟨unlinked, fun stack exited => by rw [running] at exited; cases exited⟩

theorem swapcontext_runs (s : FiberSystem) (here : Context) (save restore : FiberPtr) :
    ∃ place, (s.swapcontext here save restore).control = .running place := ⟨_, rfl⟩

theorem noneEnded_step (ended : NoneEnded s) (stepped : s.step action = some t)
    (goesOn : ¬ EndsMainFunc s action) : NoneEnded t := by
  obtain ⟨here, running, stepped⟩ := stepped_of_step stepped
  have unlinked := ended.unlinked
  cases stepped with
  | construct =>
    have made : Unlinked s.construct := by
      have fresh : Unlinked (s.setFiber s.count
          { m_id := s.s_fiber_id + 1, m_ctx := madeContext s.count, m_stack := true,
            m_cb := true }) :=
        unlinked.setContext rfl fun beyond => absurd rfl beyond
      exact ⟨fresh.unlinked, fresh.saved, fresh.running⟩
    refine Unlinked.noneEnded ⟨made.unlinked, made.saved, ?_⟩ rfl
    rintro _ ⟨⟩
    exact unlinked.running here running
  | @reset f isMade hasStack idle =>
    have made : Unlinked (s.setFiber f
        { s.fibers f with m_cb := true, m_ctx := madeContext f, m_state := .INIT }) :=
      unlinked.setContext rfl fun beyond => absurd rfl beyond
    refine Unlinked.noneEnded ⟨made.unlinked, made.saved, ?_⟩ rfl
    rintro _ ⟨⟩
    exact unlinked.running here running
  | @swapIn f main isMade idle thread =>
    have set : Unlinked (s.SetThis (some f)) :=
      ⟨unlinked.unlinked, unlinked.saved, unlinked.running⟩
    have ready : Unlinked ((s.SetThis (some f)).setState f .EXEC) := set.setFiber rfl
    obtain ⟨place, runs⟩ := swapcontext_runs _ here main f
    exact (ready.swapcontext running rfl main f).noneEnded runs
  | @yield _ state main yields thread =>
    obtain ⟨got, runs⟩ := unlinked.GetThis running
    have stated : Unlinked ((s.GetThis here).1.setState (s.GetThis here).2 state) :=
      got.setFiber rfl
    have ready : Unlinked
        (((s.GetThis here).1.setState (s.GetThis here).2 state).SetThis (some main)) :=
      ⟨stated.unlinked, stated.saved, stated.running⟩
    obtain ⟨place, goes⟩ := swapcontext_runs _ here (s.GetThis here).2 main
    exact (ready.swapcontext runs rfl _ main).noneEnded goes
  | @endsMainFunc _ cur inMainFunc ends =>
    have inMain : here.stack = mainFiber := by
      by_contra apart
      exact goesOn ⟨here, running, apart, ends⟩
    obtain ⟨exited, kept⟩ := MainFunc_exits unlinked here.stack cur (action == .throws)
    refine ⟨kept, fun stack same => ?_⟩
    rw [exited] at same
    exact (Control.threadExited.inj same).symm.trans inMain
  | endsThread outside =>
    have inMain : here.stack = mainFiber := by
      by_contra apart
      exact goesOn ⟨here, running, apart, .inl rfl⟩
    refine ⟨⟨unlinked.unlinked, unlinked.saved, fun _ goes => by cases goes⟩, ?_⟩
    rintro _ ⟨⟩
    exact inMain

/-- The end of a callback is always possible and always ends the thread. -/
theorem endsMainFunc_exits (unlinked : Unlinked s) (ends : EndsMainFunc s action) :
    ∃ here t, s.control = .running here ∧ here.stack ≠ mainFiber ∧ s.step action = some t ∧
      t.control = .threadExited here.stack := by
  obtain ⟨here, running, apart, ends⟩ := ends
  obtain ⟨cur, inMainFunc⟩ := Option.isSome_iff_exists.mp (unlinked.running here running apart)
  have exits := fun threw => (MainFunc_exits unlinked here.stack cur threw).1
  rcases ends with rfl | rfl
  · exact ⟨here, _, running, apart, by simp only [step, running, finish, inMainFunc], exits false⟩
  · exact ⟨here, _, running, apart, by simp only [step, running, finish, inMainFunc], exits true⟩

theorem exitsInMain_iff (s_fiber_id s_fiber_count : Nat) (actions : List Action) :
    Transition.EveryState step ExitsInMain (start s_fiber_id s_fiber_count) actions ↔
      Transition.StepsMeet step (fun s action => ¬ EndsMainFunc s action)
        (start s_fiber_id s_fiber_count) actions := by
  refine Transition.everyState_iff_stepsMeet (fun s (ended : NoneEnded s) => ended.exits)
    (fun _ _ _ ended stepped goesOn => noneEnded_step ended stepped goesOn) ?_ ?_
    ((start_unlinked s_fiber_id s_fiber_count).noneEnded rfl)
  · intro s action t ended stepped exits ends
    obtain ⟨here, next, -, apart, result, exited⟩ := endsMainFunc_exits ended.unlinked ends
    obtain rfl : next = t := Option.some.inj (result.symm.trans stepped)
    exact apart (exits here.stack exited)
  · intro s action ended blocked ends
    obtain ⟨here, next, -, -, result, -⟩ := endsMainFunc_exits ended.unlinked ends
    rw [blocked] at result
    cases result

/-- Control comes back to the main fibre in a run exactly if no callback ends in
it: no end of a callback ever gives control back. -/
theorem givesControlBack_iff_none_ends (s_fiber_id s_fiber_count : Nat)
    (actions : List Action) :
    GivesControlBack (start s_fiber_id s_fiber_count) actions ↔
      Transition.StepsMeet step (fun s action => ¬ EndsMainFunc s action)
        (start s_fiber_id s_fiber_count) actions := by
  rw [← exitsInMain_iff]
  refine ⟨fun gives => gives.2, fun exits => ⟨?_, exits⟩⟩
  intro before action after s t shape reached stepped ends
  have goesOn := Transition.stepsMeet_iff.mp
    ((exitsInMain_iff s_fiber_id s_fiber_count actions).mp exits)
    before action after s shape reached
  exact absurd ends goesOn

/-- The main fibre makes a fibre and swaps it in; its callback returns at once, and
the thread is gone. -/
theorem returned_callback_ends_thread :
    ¬ GivesControlBack (start 0 0) [.construct, .swapIn 1, .returns] := by
  rintro ⟨-, exits⟩
  have ends : (Transition.run step (start 0 0) [.construct, .swapIn 1, .returns]).map
      (fun s => s.control) = some (.threadExited 1) := by decide
  obtain ⟨final, ran, control⟩ := Option.map_eq_some_iff.mp ends
  exact absurd (exits _ [] final (by simp) ran 1 control) (by decide)

end Chord.FiberSystem
