import ChordServer.FiberThreads
import ChordServer.FiberTracking

set_option autoImplicit false

namespace Chord.FiberThreads

variable {ι : Type} [DecidableEq ι] {s : FiberThreads ι} {i : ι} {f : FiberPtr}

/-- The fibres as one of the threads sees them; `count` is the next address for a fibre. -/
def view (s : FiberThreads ι) (count : Nat) (i : ι) : FiberSystem where
  fibers := s.fibers
  count := count
  s_fiber_id := s.s_fiber_id
  s_fiber_count := s.s_fiber_count
  t_fiber := some (s.threads i).t_fiber
  t_threadFiber := some (s.threads i).t_threadFiber
  cur := s.cur
  control :=
    if (s.threads i).point = .exited then .threadExited (s.threads i).here.stack
    else .running (s.threads i).here

/-- A switch is the one of a single thread. -/
theorem view_swapcontext (s : FiberThreads ι) (count : Nat) (i : ι) (save restore : FiberPtr)
    (yields : Bool) :
    (s.swapcontext i save restore yields).view count i =
      (s.view count i).swapcontext (s.threads i).here save restore := by
  simp only [view, FiberThreads.swapcontext, setThread_self, reduceCtorEq, if_false]
  rfl

theorem run_pair (s : FiberThreads ι) (first second : Action ι) :
    Transition.run step s [first, second] = (s.step first).bind fun t => t.step second := by
  simp only [Transition.run_cons, Transition.run_nil, Option.bind_fun_some]

/-- The steps of a `swapIn` that no other thread disturbs are `swapIn` as one thread
performs it. -/
theorem run_swapIn (count : Nat) (code : (s.threads i).point = .code)
    (made : s.unused f = false) :
    (Transition.run step s [(i, .swapIn f), (i, .next), (i, .next)]).map (view · count i) =
      (s.view count i).swapIn (s.threads i).here f := by
  rw [Transition.run_cons, FiberSystem.swapIn]
  by_cases exec : (s.fibers f).m_state = .EXEC
  · have refused : s.step (i, .swapIn f) = none := by simp [step, call, code, exec]
    rw [refused]
    exact (if_pos exec).symm
  · let checked := s.setThread i { s.threads i with t_fiber := f, point := .checked f }
    have first : s.step (i, .swapIn f) = some checked := by
      simp [step, call, code, made, exec, checked]
    have point : (checked.threads i).point = .checked f := by rw [setThread_self]
    have marked : ((checked.mark i f).threads i).point = .marked f := by
      rw [mark, goto, setThread_self]
    have later : Transition.run step checked [(i, .next), (i, .next)] =
        some ((checked.mark i f).swapcontext i (s.threads i).t_threadFiber f false) := by
      rw [run_pair, step, advance, point, Option.bind_some, step, advance, marked, mark, goto,
        setThread_self]
      simp only [checked, setFiber, setThread_self]
    have seen : (checked.mark i f).view count i =
        ((s.view count i).SetThis (some f)).setState f .EXEC := by
      simp only [view, mark, goto, checked, setFiber, setThread_self, code, reduceCtorEq, if_false]
      rfl
    have here : ((checked.mark i f).threads i).here = (s.threads i).here := by
      rw [mark, goto, setThread_self]
      simp only [checked, setFiber, setThread_self]
    rw [first, Option.bind_some, later, Option.map_some, view_swapcontext, seen, here]
    exact (if_neg exec).symm

/-- So are those of a yield. -/
theorem run_yield (count : Nat) (code : (s.threads i).point = .code) {yield : Call}
    {state : FiberState} (yields : yield.yieldState = some state) :
    (Transition.run step s [(i, yield), (i, .next)]).map (view · count i) =
      (s.view count i).yieldTo (s.threads i).here state := by
  have first : s.step (i, yield) = some (s.yieldTo i state) := by
    cases yield <;> simp [Call.yieldState] at yields <;> simp [step, call, code, ← yields]
  have thread : (s.yieldTo i state).threads i = { s.threads i with
      t_fiber := (s.threads i).t_threadFiber, point := .yielding (s.threads i).t_fiber } :=
    setThread_self _ i _
  have seen : (s.yieldTo i state).view count i = ((s.view count i).setState (s.threads i).t_fiber
      state).SetThis (some (s.threads i).t_threadFiber) := by
    simp only [view, thread, code, reduceCtorEq, if_false]
    rfl
  have current : (s.view count i).GetThis (s.threads i).here =
      (s.view count i, (s.threads i).t_fiber) := FiberSystem.GetThis_of_some rfl
  rw [run_pair, first, Option.bind_some, step, advance, thread, Option.map_some, view_swapcontext,
    seen, thread, FiberSystem.yieldTo, current]
  rfl

/-- So are those of a `reset`. -/
theorem run_reset (count : Nat) (code : (s.threads i).point = .code) (made : s.unused f = false) :
    (Transition.run step s [(i, .reset f), (i, .next), (i, .next)]).map (view · count i) =
      ((s.view count i).reset f).map fun t =>
        { t with control := .running (s.threads i).here.next } := by
  rw [Transition.run_cons]
  unfold FiberSystem.reset
  by_cases idle : (s.fibers f).m_stack = true ∧ ((s.fibers f).m_state = .INIT ∨
      (s.fibers f).m_state = .TERM ∨ (s.fibers f).m_state = .EXCEPT)
  · let resetting := s.goto i (.resetting f)
    have first : s.step (i, .reset f) = some resetting := by
      simp [step, call, code, made, idle, resetting]
    have point : (resetting.threads i).point = .resetting f :=
      congrArg FiberThread.point (setThread_self s i _)
    have remade : (resetting.remake i f).threads i = { s.threads i with point := .remade f } := by
      refine (setThread_self _ i _).trans ?_
      simp only [resetting, goto, setFiber, setThread_self]
    have later : Transition.run step resetting [(i, .next), (i, .next)] =
        some ((resetting.remake i f).reinit i f) := by
      rw [run_pair, step, advance, point, Option.bind_some, step, advance, remade]
    have thread : ((resetting.remake i f).reinit i f).threads i =
        { s.threads i with here := (s.threads i).here.next, point := .code } := by
      refine (setThread_self _ i _).trans ?_
      simp only [setFiber, remade]
    have fibers : ((resetting.remake i f).reinit i f).fibers = Function.update s.fibers f
        { s.fibers f with m_cb := true, m_ctx := FiberSystem.madeContext f, m_state := .INIT } := by
      have made : (resetting.remake i f).fibers f =
          { s.fibers f with m_cb := true, m_ctx := FiberSystem.madeContext f } :=
        setFiber_self resetting f _
      refine (Function.update_idem _ _ _).trans ?_
      rw [made]
      rfl
    rw [first, Option.bind_some, later, Option.map_some]
    dsimp only [view]
    rw [if_pos idle, thread, fibers]
    rfl
  · have refused : s.step (i, .reset f) = none := by simp [step, call, code, idle]
    rw [refused]
    dsimp only [view]
    rw [if_neg idle]
    rfl

end Chord.FiberThreads
