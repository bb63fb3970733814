import ChordServer.FiberThreadsGuarded
import Mathlib.Data.Fintype.Basic

set_option autoImplicit false

namespace Chord.FiberThreads

variable {ι : Type} [DecidableEq ι] {s t : FiberThreads ι} {f : FiberPtr}

omit [DecidableEq ι] in
/-- A fibre that is being entered or reset is away from the thread's own code. -/
theorem Guarded.away (guarded : Guarded s) (i : ι) (about : (s.threads i).point.about = some f) :
    (s.threads i).point ≠ .exited ∧ ((s.threads i).t_threadFiber ≠ f ∧
      (s.threads i).here.stack ≠ f ∧ s.slot i ≠ f) ∧ s.Owns i f ∧
      (s.fibers f).m_stack = true ∧ s.unused f = false := by
  have running := (point_within (.inr about)).1
  have sound := guarded.thread i
  obtain ⟨stack, slot, hasStack, made⟩ := (sound.live running).about f about
  refine ⟨running, ⟨?_, Ne.symm stack, Ne.symm slot⟩, owns_about about, hasStack, made⟩
  rintro rfl
  rw [sound.mainStack] at hasStack
  cases hasStack

theorem Guarded.mark (guarded : Guarded s) (i : ι) (checked : (s.threads i).point = .checked f) :
    Guarded (s.mark i f) := by
  have about : (s.threads i).point.about = some f := by rw [checked]; rfl
  obtain ⟨running, away, owns, hasStack, made⟩ := guarded.away i about
  have thread : (s.mark i f).threads i = { s.threads i with point := .marked f } :=
    setThread_self _ i _
  have self : (s.mark i f).fibers f = { s.fibers f with m_state := .EXEC } :=
    setFiber_self s f _
  have sound := ((guarded.thread i).live running).point
  rw [checked] at sound
  have after : ((s.mark i f).threads i).point.about = some f := by rw [thread]; rfl
  refine guarded.change i f (.inr about) (.inr after) (fun j apart => setThread_other _ _ apart)
    (by rw [thread]) (by rw [thread]) (fun g other => ⟨setFiber_other s _ other, rfl, rfl, rfl⟩)
    rfl away (.inl owns) ?_ made ?_ ?_ fun lost => absurd (owns_about after) lost
  · rw [self]
    exact hasStack
  · rw [self]
    exact (guarded.fiber f).context hasStack
  · rw [thread]
    exact ⟨by rw [thread]; exact sound.1, sound.2, by rw [self]⟩

theorem Guarded.remake (guarded : Guarded s) (i : ι)
    (resetting : (s.threads i).point = .resetting f) : Guarded (s.remake i f) := by
  have about : (s.threads i).point.about = some f := by rw [resetting]; rfl
  obtain ⟨running, away, owns, hasStack, made⟩ := guarded.away i about
  have thread : (s.remake i f).threads i = { s.threads i with point := .remade f } :=
    setThread_self _ i _
  have self : (s.remake i f).fibers f =
      { s.fibers f with m_cb := true, m_ctx := FiberSystem.madeContext f } := setFiber_self s f _
  have slots : (s.remake i f).slot i = s.slot i := by
    rw [slot, slot, thread]
    exact congrArg (fun fiber : Fiber => fiber.m_ctx.context.stack) (setFiber_other s _ away.1)
  have sound := ((guarded.thread i).live running).point
  rw [resetting] at sound
  have after : ((s.remake i f).threads i).point.about = some f := by rw [thread]; rfl
  refine guarded.change i f (.inr about) (.inr after) (fun j apart => setThread_other _ _ apart)
    (by rw [thread]) (by rw [thread]) (fun g other => ⟨setFiber_other s _ other, rfl,
      Function.update_of_ne other _ _, rfl⟩)
    rfl away (.inl owns) ?_ made ?_ ?_ fun lost => absurd (owns_about after) lost
  · rw [self]
    exact hasStack
  · rw [self]
    rfl
  · rw [thread]
    refine ⟨?_, Function.update_self _ _ _⟩
    rw [Tracks, slots, thread]
    exact sound

theorem Guarded.reinit (guarded : Guarded s) (i : ι)
    (remade : (s.threads i).point = .remade f) : Guarded (s.reinit i f) := by
  have about : (s.threads i).point.about = some f := by rw [remade]; rfl
  obtain ⟨running, away, owns, hasStack, made⟩ := guarded.away i about
  have thread : (s.reinit i f).threads i =
      { s.threads i with here := (s.threads i).here.next, point := .code } :=
    setThread_self _ i _
  have self : (s.reinit i f).fibers f = { s.fibers f with m_state := .INIT } :=
    setFiber_self s f _
  have slots : (s.reinit i f).slot i = s.slot i := by
    rw [slot, slot, thread]
    exact congrArg (fun fiber : Fiber => fiber.m_ctx.context.stack) (setFiber_other s _ away.1)
  have sound := ((guarded.thread i).live running).point
  rw [remade] at sound
  refine guarded.change i f (.inr about) (.inl (by rw [thread]))
    (fun j apart => setThread_other _ _ apart) (by rw [thread]; rfl) (by rw [thread])
    (fun g other => ⟨setFiber_other s _ other, rfl, rfl, Function.update_of_ne other _ _⟩)
    rfl away (.inl owns) ?_ made ?_ ?_ fun _ _ => ⟨sound.2, Function.update_self _ _ _⟩
  · rw [self]
    exact hasStack
  · rw [self]
    exact (guarded.fiber f).context hasStack
  · rw [thread]
    show Tracks _ _ _
    rw [Tracks, slots, thread]
    exact sound.1

theorem Guarded.construct (guarded : Guarded s) (i : ι) (code : (s.threads i).point = .code)
    (free : s.unused f = true) : Guarded ((s.construct f).back i) := by
  have running : (s.threads i).point ≠ .exited := code.trans_ne nofun
  have fresh : ∀ g, s.Owns i g → g ≠ f := by
    rintro g owns rfl
    rw [(guarded.thread i).made owns] at free
    cases free
  have away := fresh _ (.inl rfl)
  have thread : ((s.construct f).back i).threads i =
      { s.threads i with here := (s.threads i).here.next, point := .code } :=
    setThread_self _ i _
  have self : ((s.construct f).back i).fibers f =
      { m_id := s.s_fiber_id + 1, m_ctx := FiberSystem.madeContext f, m_stack := true,
        m_cb := true } := setFiber_self s f _
  have slots : ((s.construct f).back i).slot i = s.slot i := by
    rw [slot, slot, thread]
    exact congrArg (fun fiber : Fiber => fiber.m_ctx.context.stack) (setFiber_other s _ away)
  have sound := ((guarded.thread i).live running).point
  rw [code] at sound
  refine guarded.change i f (.inl code) (.inl (by rw [thread]))
    (fun j apart => setThread_other _ _ apart) (by rw [thread]; rfl) (by rw [thread])
    (fun g other => ⟨setFiber_other s _ other, Function.update_of_ne other _ _,
      Function.update_of_ne other _ _, Function.update_of_ne other _ _⟩) rfl
    ⟨away, fresh _ (.inr ⟨running, .inl rfl⟩), fresh _ (.inr ⟨running, .inr (.inl rfl)⟩)⟩
    (.inr free) (by rw [self]) (Function.update_self _ _ _) (by rw [self]; rfl) ?_
    fun _ _ => ⟨Function.update_self _ _ _, Function.update_self _ _ _⟩
  rw [thread]
  show Tracks _ _ _
  rw [Tracks, slots, thread]
  exact sound

theorem Guarded.yield (guarded : Guarded s) (i : ι) (code : (s.threads i).point = .code)
    (state : FiberState) : Guarded (s.yieldTo i state) := by
  have running : (s.threads i).point ≠ .exited := code.trans_ne nofun
  have tracks := ((guarded.thread i).live running).point
  rw [code] at tracks
  have thread : (s.yieldTo i state).threads i =
      { s.threads i with
        t_fiber := (s.threads i).t_threadFiber, point := .yielding (s.threads i).t_fiber } :=
    setThread_self _ i _
  have self : (s.yieldTo i state).fibers (s.threads i).t_fiber =
      { s.fibers (s.threads i).t_fiber with m_state := state } := setFiber_self s _ _
  refine guarded.assign i (s.threads i).t_fiber code (fun j apart => setThread_other _ _ apart)
    (by rw [thread]) (by rw [thread]) (by rw [thread]; rfl) (by rw [thread]; exact nofun)
    (tracks.imp_right And.left) (fun g other => ⟨setFiber_other s _ other, rfl, rfl, rfl⟩) rfl
    (by rw [self]) (by rw [self]) rfl (fun _ notYielding _ same => ?_) (fun _ => rfl)
    fun slots => ?_
  · rw [thread, ← same] at notYielding
    exact notYielding rfl
  · rw [thread]
    refine ⟨by rw [thread], ?_⟩
    rw [Tracks, slots, thread]
    exact tracks

theorem Guarded.MainFunc (guarded : Guarded s) (i : ι) (code : (s.threads i).point = .code)
    {cur : FiberPtr} (inMainFunc : s.cur (s.threads i).here.stack = some cur) (threw : Bool) :
    Guarded (s.MainFunc i cur threw) := by
  obtain rfl := (guarded.fiber _).cur cur inMainFunc
  have thread : (s.MainFunc i (s.threads i).here.stack threw).threads i =
      { s.threads i with point := .ended } := setThread_self _ i _
  have self : (s.MainFunc i (s.threads i).here.stack threw).fibers (s.threads i).here.stack =
      if threw then { s.fibers (s.threads i).here.stack with m_state := .EXCEPT }
      else { s.fibers (s.threads i).here.stack with m_cb := false, m_state := .TERM } :=
    setFiber_self s _ _
  refine guarded.assign i (s.threads i).here.stack code
    (fun j apart => setThread_other _ _ apart) (by rw [thread]) (by rw [thread])
    (by rw [thread]; rfl) (by rw [thread]; exact nofun) (.inr rfl)
    (fun g other => ⟨setFiber_other s _ other, rfl, rfl, Function.update_of_ne other _ _⟩) rfl
    (by rw [self]; split <;> rfl) (by rw [self]; split <;> rfl) rfl
    (fun _ _ notEnded => absurd (by rw [thread]) notEnded)
    (fun notEnded => absurd (by rw [thread]) notEnded) fun _ => ?_
  rw [thread]
  intro _
  rw [thread, Idle, self]
  cases threw <;> simp

theorem Guarded.load (guarded : Guarded s) (i : ι) (marked : (s.threads i).point = .marked f) :
    Guarded (s.swapcontext i (s.threads i).t_threadFiber f false) := by
  obtain ⟨running, away, owns, hasStack, made⟩ := guarded.away i (f := f) (by rw [marked]; rfl)
  have sound := guarded.thread i
  have live := sound.live running
  have point := live.point
  rw [marked] at point
  obtain ⟨current, loadable, exec⟩ := point
  have thread := swapcontext_thread s i (s.threads i).t_threadFiber f false
  rw [if_neg (Ne.symm away.1)] at thread
  have quiet : ∀ {other : FiberPoint}, FiberPoint.marked f ≠ other →
      (s.threads i).point ≠ other := by
    intro other differs
    rwa [marked]
  refine guarded.switch i f (s.threads i).here.stack rfl (.inl rfl) owns
    (by rw [thread]; exact (guarded.fiber f).context hasStack) ?_ owns (.inr ⟨running, .inl rfl⟩)
    (fun _ => exec) (fun other _ => live.stackExec other (quiet nofun) (quiet nofun))
    ⟨loadable.2, (live.alive (quiet nofun)).1⟩ (fun stacked => ?_)
    (fun _ => current) (.inr ⟨current, away.2.1⟩) fun g mine notMain notStack notSlot idle => ?_
  · rw [slot, thread]
    exact congrArg (fun fiber : Fiber => fiber.m_ctx.context.stack) (setFiber_self s _ _)
  · rw [sound.mainStack] at stacked
    cases stacked
  · rcases mine with main | ⟨-, stack | rfl | about⟩
    · exact absurd main notMain
    · exact absurd stack notSlot
    · exact absurd idle (not_idle_of_exec (live.slotExec notMain notSlot))
    · rw [marked] at about
      exact absurd (Option.some.inj about).symm notStack

theorem Guarded.save (guarded : Guarded s) (i : ι) {cur : FiberPtr}
    (yielding : (s.threads i).point = .yielding cur) :
    Guarded (s.swapcontext i cur (s.threads i).t_threadFiber true) := by
  have running : (s.threads i).point ≠ .exited := yielding.trans_ne nofun
  have sound := guarded.thread i
  have live := sound.live running
  have point := live.point
  rw [yielding] at point
  obtain ⟨current, tracks⟩ := point
  have alive := live.alive (yielding.trans_ne nofun)
  have thread := swapcontext_thread s i cur (s.threads i).t_threadFiber true
  by_cases inMain : cur = (s.threads i).t_threadFiber
  · subst inMain
    rw [if_pos rfl] at thread
    have stackOwned : s.Owns i (s.threads i).here.stack := .inr ⟨running, .inl rfl⟩
    refine guarded.switch i (s.threads i).here.stack (s.threads i).here.stack rfl
      (.inl rfl) (.inl rfl) (by rw [thread]; rfl) ?_ stackOwned stackOwned
      (fun other => live.stackExec other ?_ (yielding.trans_ne nofun))
      (fun _ other => absurd rfl other) ⟨alive.1, alive.1⟩ (fun stacked => ?_)
      (fun entry => ?_) (.inl current) fun g mine notMain notStack notSlot idle => ?_
    · rw [slot, thread]
      exact congrArg (fun fiber : Fiber => fiber.m_ctx.context.stack) (setFiber_self s _ _)
    · rw [yielding]
      intro same
      exact other (FiberPoint.yielding.inj same).symm
    · rw [sound.mainStack] at stacked
      cases stacked
    · rw [thread] at entry
      exact absurd entry (Nat.succ_ne_zero _)
    · rcases mine with main | ⟨-, stack | rfl | about⟩
      · exact absurd main notMain
      · exact absurd stack notSlot
      · exact absurd idle (not_idle_of_exec (live.slotExec notMain notSlot))
      · rw [yielding] at about
        cases about
  · obtain ⟨rfl, apart⟩ := tracks.resolve_left inMain
    rw [if_neg (Ne.symm inMain)] at thread
    have slotOwned : s.Owns i (s.slot i) := .inr ⟨running, .inr (.inl rfl)⟩
    refine guarded.switch i (s.slot i) (s.slot i) rfl (.inr ⟨running, .inl rfl⟩)
      (.inl rfl) (by rw [thread]; rfl) ?_ slotOwned slotOwned
      (fun other => live.slotExec other apart) (fun _ other => absurd rfl other)
      ⟨alive.2, alive.2⟩ (fun _ => rfl) (fun entry => ?_) (.inl current)
      fun g mine notMain notStack notSlot idle => ?_
    · rw [slot, thread]
      exact congrArg (fun fiber : Fiber => fiber.m_ctx.context.stack)
        (setFiber_other s _ (Ne.symm inMain))
    · rw [thread] at entry
      exact absurd entry sound.mainPoint
    · rcases mine with main | ⟨-, rfl | slot | about⟩
      · exact absurd main notMain
      · refine ⟨?_, alive.1⟩
        exact (Function.update_of_ne inMain _ _).trans (Function.update_self _ _ _)
      · exact absurd slot notSlot
      · rw [yielding] at about
        cases about

theorem Guarded.swapIn (guarded : Guarded s) (i : ι) (code : (s.threads i).point = .code)
    (made : s.unused f = false) (idle : (s.fibers f).m_state ≠ .EXEC)
    (careful : s.Careful (i, .swapIn f)) :
    Guarded (s.setThread i { s.threads i with t_fiber := f, point := .checked f }) := by
  obtain ⟨hasStack, notTerm, notExcept, none⟩ := careful
  have free := guarded.free hasStack idle none
  have ready : s.Idle f := by
    unfold Idle
    cases state : (s.fibers f).m_state with
    | INIT => exact .inl rfl
    | HOLD => exact .inr (.inl rfl)
    | READY => exact .inr (.inr rfl)
    | EXEC => exact absurd state idle
    | TERM => exact absurd state notTerm
    | EXCEPT => exact absurd state notExcept
  have loadable := guarded.rest f hasStack ready free
  refine guarded.enter i code rfl rfl rfl hasStack made free ?_
  exact ⟨by rw [setThread_self], loadable⟩

theorem Guarded.reset (guarded : Guarded s) (i : ι) (code : (s.threads i).point = .code)
    (made : s.unused f = false) (hasStack : (s.fibers f).m_stack = true)
    (idle : (s.fibers f).m_state ≠ .EXEC) (careful : s.Careful (i, .reset f)) :
    Guarded (s.goto i (.resetting f)) := by
  have running : (s.threads i).point ≠ .exited := code.trans_ne nofun
  have tracks := ((guarded.thread i).live running).point
  rw [code] at tracks
  refine guarded.enter i code rfl rfl rfl hasStack made (guarded.free hasStack idle careful) ?_
  show Tracks _ _ _
  rw [Tracks, slot, setThread_self]
  exact tracks

theorem Guarded.step (guarded : Guarded s) {action : Action ι} (careful : s.Careful action)
    (stepped : s.step action = some t) : Guarded t := by
  obtain ⟨i, call⟩ := action
  cases stepped_of_step stepped with
  | construct code free => exact guarded.construct i code free
  | swapIn code made idle => exact guarded.swapIn i code made idle careful
  | yield code yields => exact guarded.yield i code _
  | reset code made hasStack idle =>
    refine guarded.reset i code made hasStack (fun exec => ?_) careful
    rw [exec] at idle
    rcases idle with init | term | except
    · cases init
    · cases term
    · cases except
  | MainFunc code inMainFunc ends => exact guarded.MainFunc i code inMainFunc _
  | endsThread code outside =>
    have running : (s.threads i).point ≠ .exited := code.trans_ne nofun
    refine guarded.exit i running (by rw [code]; rfl) fun other => not_idle_of_exec ?_
    exact ((guarded.thread i).live running).stackExec other (code.trans_ne nofun)
      (code.trans_ne nofun)
  | mark point => exact guarded.mark i point
  | load point => exact guarded.load i point
  | save point => exact guarded.save i point
  | remake point => exact guarded.remake i point
  | reinit point => exact guarded.reinit i point
  | leave point =>
    have running : (s.threads i).point ≠ .exited := point.trans_ne nofun
    have sound := ((guarded.thread i).live running).point
    rw [point] at sound
    exact guarded.exit i running (by rw [point]; rfl) sound

omit [DecidableEq ι] in
theorem start_guarded (mains : MainFibers ι) : Guarded (start mains) := by
  have owns : ∀ i f, (start mains).Owns i f → f = mains.address i := by
    rintro i f (main | ⟨-, stack | slot | about⟩)
    · exact main
    · exact stack
    · exact slot
    · cases about
  refine ⟨fun i j f first second => ?_, fun i => ?_, fun f => ⟨nofun, nofun⟩, nofun⟩
  · exact mains.injective ((owns i f first).symm.trans (owns j f second))
  · refine ⟨mains.apart i, rfl, Nat.one_ne_zero, fun _ => ?_⟩
    exact ⟨mains.apart i, mains.apart i, fun other => absurd rfl other,
      fun other => absurd rfl other, fun _ => ⟨rfl, rfl⟩, nofun, .inl rfl⟩

/-- Where every `swapIn` and every `reset` is begun while no thread uses the fibre, and no
`swapIn` is of a main fibre or of one that has ended, a body runs on one thread at a time
and never after its end, and every `swapIn` loads what the last yield has saved. -/
theorem run_exclusive (mains : MainFibers ι) {actions : List (Action ι)}
    (careful : Transition.StepsMeet step Careful (start mains) actions) :
    Transition.EveryState step Exclusive (start mains) actions ∧
      Transition.StepsMeet step LoadsSaved (start mains) actions := by
  constructor
  · exact Transition.everyState_of_stepsMeet (fun _ guarded => guarded.exclusive)
      (fun _ _ _ guarded stepped meets => guarded.step meets stepped) (start_guarded mains) careful
  · exact careful.imp_of_invariant (fun _ _ _ guarded meets stepped => guarded.step meets stepped)
      (fun _ action guarded _ => guarded.loadsSaved action) (start_guarded mains)

instance [Fintype ι] (s : FiberThreads ι) (i : ι) (f : FiberPtr) : Decidable (s.Uses i f) :=
  inferInstanceAs (Decidable (_ ∧ (_ ∨ _)))

instance [Fintype ι] (s : FiberThreads ι) : DecidablePred s.Careful
  | (_, .swapIn f) => inferInstanceAs (Decidable (_ ∧ _ ∧ _ ∧ ∀ i, ¬ s.Uses i f))
  | (_, .reset f) => inferInstanceAs (Decidable (∀ i, ¬ s.Uses i f))
  | (_, .construct _) | (_, .YieldToReady) | (_, .YieldToHold) | (_, .returns) | (_, .throws)
  | (_, .next) => .isTrue trivial

/-- Two threads whose main fibres are at 0 and 1. -/
def twoThreads : MainFibers Bool where
  address := fun i => if i then 1 else 0
  injective := by decide
  unused := fun f => 2 ≤ f
  apart := by decide

/-- A fibre is begun by one thread, goes on in the other and ends there. -/
theorem run_exclusive_handed_over :
    Transition.EveryState step Exclusive (start twoThreads)
      [(false, .construct 2), (false, .swapIn 2), (false, .next), (false, .next),
        (false, .YieldToReady), (false, .next), (true, .swapIn 2), (true, .next), (true, .next),
        (true, .returns), (true, .next)] ∧
    Transition.StepsMeet step LoadsSaved (start twoThreads)
      [(false, .construct 2), (false, .swapIn 2), (false, .next), (false, .next),
        (false, .YieldToReady), (false, .next), (true, .swapIn 2), (true, .next), (true, .next),
        (true, .returns), (true, .next)] :=
  run_exclusive twoThreads (by decide)

instance [Fintype ι] (s : FiberThreads ι) : Decidable s.Exclusive :=
  decidable_of_iff ((∀ i j, (s.threads i).point ≠ .exited → (s.threads j).point ≠ .exited →
      (s.threads i).here.stack = (s.threads j).here.stack → i = j) ∧
    ∀ i, (s.threads i).point ≠ .exited → (s.threads i).point ≠ .ended →
      s.finished (s.threads i).here.stack = false)
    ⟨fun ⟨single, alive⟩ => ⟨single, alive⟩, fun ⟨single, alive⟩ => ⟨single, alive⟩⟩

instance [Fintype ι] (s : FiberThreads ι) : DecidablePred s.LoadsSaved := fun action =>
  match shown : (s.threads action.1).point with
  | .marked f =>
      decidable_of_iff (action.2 = .next → s.saved f = true) <| by
        simp [LoadsSaved, shown]
  | .code | .checked _ | .yielding _ | .resetting _ | .remade _ | .ended | .exited =>
      .isTrue fun _ marked => absurd (shown.symm.trans marked) nofun

/-- Both threads pass the assertion before either assigns EXEC, and both run the body; a
thread enters a body whose yield has published its state and not saved its context; and a
body goes on after its end from the context of its last yield. -/
theorem interleaved_runs_fail :
    ¬ Transition.EveryState step Exclusive (start twoThreads)
      [(false, .construct 2), (false, .swapIn 2), (true, .swapIn 2), (false, .next),
        (true, .next), (false, .next), (true, .next)] ∧
    ¬ Transition.StepsMeet step LoadsSaved (start twoThreads)
      [(false, .construct 2), (false, .swapIn 2), (false, .next), (false, .next),
        (false, .YieldToHold), (true, .swapIn 2), (true, .next), (true, .next)] ∧
    ¬ Transition.EveryState step Exclusive (start twoThreads)
      [(false, .construct 2), (false, .swapIn 2), (false, .next), (false, .next),
        (false, .YieldToHold), (false, .next), (false, .swapIn 2), (false, .next),
        (false, .next), (false, .returns), (false, .next), (true, .swapIn 2), (true, .next),
        (true, .next)] := by
  refine ⟨?_, ?_, ?_⟩ <;> decide

end Chord.FiberThreads
