import ChordServer.FiberThreads
import Mathlib.Tactic.Common

set_option autoImplicit false

namespace Chord

/-- The fibre that a call in progress is about, other than the one whose code makes it. -/
def FiberPoint.about : FiberPoint → Option FiberPtr
  | .checked f => some f
  | .marked f => some f
  | .resetting f => some f
  | .remade f => some f
  | _ => none

namespace FiberThreads

variable {ι : Type} [DecidableEq ι]

/-- No two threads execute on one stack, and no code of a callback executes that has ended
and not been reset. -/
structure Exclusive (s : FiberThreads ι) : Prop where
  single : ∀ i j, (s.threads i).point ≠ .exited → (s.threads j).point ≠ .exited →
    (s.threads i).here.stack = (s.threads j).here.stack → i = j
  alive : ∀ i, (s.threads i).point ≠ .exited → (s.threads i).point ≠ .ended →
    s.finished (s.threads i).here.stack = false

/-- A `swapIn` that loads a context loads one that the fibre's last yield has saved, or a
fresh one. -/
def LoadsSaved (s : FiberThreads ι) (action : Action ι) : Prop :=
  ∀ f, (s.threads action.1).point = .marked f → action.2 = .next → s.saved f = true

/-- The thread executes on the fibre's stack or is in a `swapIn` or a `reset` of it. -/
def Uses (s : FiberThreads ι) (i : ι) (f : FiberPtr) : Prop :=
  (s.threads i).point ≠ .exited ∧
    ((s.threads i).here.stack = f ∨ (s.threads i).point.about = some f)

/-- `swapIn` is called on a fibre, not a main fibre, that has not ended, and it and
`reset` are called while no thread uses the fibre. -/
def Careful (s : FiberThreads ι) (action : Action ι) : Prop :=
  match action.2 with
  | .swapIn f => (s.fibers f).m_stack = true ∧ (s.fibers f).m_state ≠ .TERM ∧
      (s.fibers f).m_state ≠ .EXCEPT ∧ ∀ i, ¬ s.Uses i f
  | .reset f => ∀ i, ¬ s.Uses i f
  | _ => True

/-- The stack of the place that is saved in the thread's main fibre. -/
def slot (s : FiberThreads ι) (i : ι) : FiberPtr :=
  (s.fibers (s.threads i).t_threadFiber).m_ctx.context.stack

/-- The fibres that only this thread may change: its main fibre and, until it exits, the
fibre that it executes on, the one that it will go back to, and the one that it is about
to enter or to reset. -/
def Owns (s : FiberThreads ι) (i : ι) (f : FiberPtr) : Prop :=
  f = (s.threads i).t_threadFiber ∨ (s.threads i).point ≠ .exited ∧
    (f = (s.threads i).here.stack ∨ f = s.slot i ∨ (s.threads i).point.about = some f)

/-- The states in which a fibre may be swapped in. -/
def Idle (s : FiberThreads ι) (f : FiberPtr) : Prop :=
  (s.fibers f).m_state = .INIT ∨ (s.fibers f).m_state = .HOLD ∨ (s.fibers f).m_state = .READY

/-- The context may be loaded, and what it continues has not ended. -/
def Loadable (s : FiberThreads ι) (f : FiberPtr) : Prop := s.saved f = true ∧ s.finished f = false

/-- `t_fiber` is the thread's main fibre, or the fibre that runs and will go back to another. -/
def Tracks (s : FiberThreads ι) (i : ι) (cur : FiberPtr) : Prop :=
  cur = (s.threads i).t_threadFiber ∨
    cur = (s.threads i).here.stack ∧ s.slot i ≠ (s.threads i).here.stack

/-- What holds at the point that the thread has reached. -/
def PointSound (s : FiberThreads ι) (i : ι) : FiberPoint → Prop
  | .code => s.Tracks i (s.threads i).t_fiber
  | .checked f => (s.threads i).t_fiber = f ∧ s.Loadable f
  | .marked f => (s.threads i).t_fiber = f ∧ s.Loadable f ∧ (s.fibers f).m_state = .EXEC
  | .yielding cur => (s.threads i).t_fiber = (s.threads i).t_threadFiber ∧ s.Tracks i cur
  | .resetting _ => s.Tracks i (s.threads i).t_fiber
  | .remade f => s.Tracks i (s.threads i).t_fiber ∧ s.saved f = true
  | .ended => (s.threads i).here.stack ≠ (s.threads i).t_threadFiber →
      ¬ s.Idle (s.threads i).here.stack
  | .exited => True

/-- What holds of a thread that has not exited. -/
structure LiveSound (s : FiberThreads ι) (i : ι) : Prop where
  stackMade : s.unused (s.threads i).here.stack = false
  slotMade : s.unused (s.slot i) = false
  stackExec : (s.threads i).here.stack ≠ (s.threads i).t_threadFiber →
    (s.threads i).point ≠ .yielding (s.threads i).here.stack → (s.threads i).point ≠ .ended →
    (s.fibers (s.threads i).here.stack).m_state = .EXEC
  slotExec : s.slot i ≠ (s.threads i).t_threadFiber → s.slot i ≠ (s.threads i).here.stack →
    (s.fibers (s.slot i)).m_state = .EXEC
  alive : (s.threads i).point ≠ .ended →
    s.finished (s.threads i).here.stack = false ∧ s.finished (s.slot i) = false
  about : ∀ f, (s.threads i).point.about = some f → f ≠ (s.threads i).here.stack ∧
    f ≠ s.slot i ∧ (s.fibers f).m_stack = true ∧ s.unused f = false
  point : s.PointSound i (s.threads i).point

structure ThreadSound (s : FiberThreads ι) (i : ι) : Prop where
  mainMade : s.unused (s.threads i).t_threadFiber = false
  mainStack : (s.fibers (s.threads i).t_threadFiber).m_stack = false
  mainPoint : (s.fibers (s.threads i).t_threadFiber).m_ctx.context.point ≠ 0
  live : (s.threads i).point ≠ .exited → s.LiveSound i

/-- The context of a fibre with a stack is a place on it, and the code on a stack belongs
to its fibre. -/
structure FiberSound (s : FiberThreads ι) (f : FiberPtr) : Prop where
  context : (s.fibers f).m_stack = true → (s.fibers f).m_ctx.context.stack = f
  cur : ∀ other, s.cur f = some other → other = f

/-- The threads own different fibres, and a fibre that none of them owns can be swapped in
if its state says so. -/
structure Guarded (s : FiberThreads ι) : Prop where
  apart : ∀ i j f, s.Owns i f → s.Owns j f → i = j
  thread : ∀ i, s.ThreadSound i
  fiber : ∀ f, s.FiberSound f
  rest : ∀ f, (s.fibers f).m_stack = true → s.Idle f → (∀ i, ¬ s.Owns i f) → s.Loadable f

/-- The two states agree about the fibre. -/
structure Same (s t : FiberThreads ι) (f : FiberPtr) : Prop where
  fibers : t.fibers f = s.fibers f
  unused : t.unused f = s.unused f
  saved : t.saved f = s.saved f
  finished : t.finished f = s.finished f

variable {s t : FiberThreads ι} {i j : ι} {f : FiberPtr}

omit [DecidableEq ι] in
theorem Guarded.exclusive (guarded : Guarded s) : Exclusive s := by
  constructor
  · intro i j first second same
    exact guarded.apart i j _ (.inr ⟨first, .inl rfl⟩) (.inr ⟨second, .inl same⟩)
  · intro i running alive
    exact (((guarded.thread i).live running).alive alive).1

omit [DecidableEq ι] in
theorem Guarded.loadsSaved (guarded : Guarded s) (action : Action ι) : LoadsSaved s action := by
  intro f marked _
  have running : (s.threads action.1).point ≠ .exited := by
    rw [marked]
    exact nofun
  have sound := ((guarded.thread action.1).live running).point
  rw [marked] at sound
  exact sound.2.1.1

omit [DecidableEq ι] in
theorem ThreadSound.made (sound : ThreadSound s i) (owns : s.Owns i f) : s.unused f = false := by
  rcases owns with rfl | ⟨running, rfl | rfl | about⟩
  · exact sound.mainMade
  · exact (sound.live running).stackMade
  · exact (sound.live running).slotMade
  · exact ((sound.live running).about f about).2.2.2

omit [DecidableEq ι] in
theorem slot_congr (thread : t.threads j = s.threads j)
    (main : Same s t (s.threads j).t_threadFiber) : t.slot j = s.slot j := by
  rw [slot, slot, thread, main.fibers]

omit [DecidableEq ι] in
theorem owns_congr (thread : t.threads j = s.threads j)
    (main : Same s t (s.threads j).t_threadFiber) : t.Owns j f ↔ s.Owns j f := by
  rw [Owns, Owns, slot_congr thread main, thread]

omit [DecidableEq ι] in
theorem Same.loadable (same : Same s t f) (loadable : s.Loadable f) : t.Loadable f := by
  rw [Loadable, same.saved, same.finished]
  exact loadable

omit [DecidableEq ι] in
theorem PointSound.congr {point : FiberPoint} (sound : s.PointSound j point)
    (thread : t.threads j = s.threads j) (slots : t.slot j = s.slot j)
    (stack : Same s t (s.threads j).here.stack)
    (about : ∀ f, point.about = some f → Same s t f) : t.PointSound j point := by
  have tracks : ∀ cur, s.Tracks j cur → t.Tracks j cur := by
    intro cur holds
    rwa [Tracks, slots, thread]
  cases point with
  | code =>
    show t.Tracks j (t.threads j).t_fiber
    rw [thread]
    exact tracks _ sound
  | checked f => exact ⟨thread ▸ sound.1, (about f rfl).loadable sound.2⟩
  | marked f =>
    refine ⟨thread ▸ sound.1, (about f rfl).loadable sound.2.1, ?_⟩
    rw [(about f rfl).fibers]
    exact sound.2.2
  | yielding cur =>
    refine ⟨?_, tracks _ sound.2⟩
    rw [thread]
    exact sound.1
  | resetting f =>
    show t.Tracks j (t.threads j).t_fiber
    rw [thread]
    exact tracks _ sound
  | remade f =>
    refine ⟨?_, (about f rfl).saved.trans sound.2⟩
    rw [thread]
    exact tracks _ sound.1
  | ended =>
    show (t.threads j).here.stack ≠ (t.threads j).t_threadFiber → ¬ t.Idle (t.threads j).here.stack
    rw [thread, Idle, stack.fibers]
    exact sound
  | exited => trivial

omit [DecidableEq ι] in
/-- What holds of a thread is about its own fibres. -/
theorem ThreadSound.congr (sound : ThreadSound s j) (thread : t.threads j = s.threads j)
    (same : ∀ f, s.Owns j f → Same s t f) : ThreadSound t j := by
  have main := same _ (.inl rfl)
  have slots := slot_congr thread main
  refine ⟨?_, ?_, ?_, fun running => ?_⟩
  · rw [thread, main.unused]
    exact sound.mainMade
  · rw [thread, main.fibers]
    exact sound.mainStack
  · rw [thread, main.fibers]
    exact sound.mainPoint
  rw [thread] at running
  have live := sound.live running
  have stack := same _ (.inr ⟨running, .inl rfl⟩)
  have there := same _ (.inr ⟨running, .inr (.inl rfl)⟩)
  refine ⟨?_, ?_, ?_, ?_, ?_, ?_, ?_⟩
  · rw [thread, stack.unused]
    exact live.stackMade
  · rw [slots, there.unused]
    exact live.slotMade
  · rw [thread, stack.fibers]
    exact live.stackExec
  · rw [slots, thread, there.fibers]
    exact live.slotExec
  · rw [slots, thread, stack.finished, there.finished]
    exact live.alive
  · rw [slots, thread]
    intro f about
    have here := same f (.inr ⟨running, .inr (.inr about)⟩)
    rw [here.fibers, here.unused]
    exact live.about f about
  · rw [thread]
    exact live.point.congr thread slots stack fun f about =>
      same f (.inr ⟨running, .inr (.inr about)⟩)

omit [DecidableEq ι] in
/-- A step of one thread that changes fibres of its own or new ones, and only takes fibres
that are free, keeps the invariant if it does for this thread and for the fibres that are
changed or given up. -/
theorem Guarded.of_step (guarded : Guarded s) (i : ι)
    (others : ∀ j, j ≠ i → t.threads j = s.threads j)
    (changes : ∀ f, Same s t f ∨ s.Owns i f ∨ s.unused f = true)
    (gains : ∀ f, t.Owns i f → s.Owns i f ∨ ∀ j, ¬ s.Owns j f)
    (sound : ThreadSound t i) (fiber : ∀ f, FiberSound t f)
    (released : ∀ f, s.Owns i f ∨ ¬ Same s t f → ¬ t.Owns i f →
      (t.fibers f).m_stack = true → t.Idle f → t.Loadable f) : Guarded t := by
  have same : ∀ j, j ≠ i → ∀ f, s.Owns j f → Same s t f := by
    intro j other f owns
    rcases changes f with same | mine | free
    · exact same
    · exact absurd (guarded.apart j i f owns mine) other
    · rw [(guarded.thread j).made owns] at free
      cases free
  have owned : ∀ j, j ≠ i → ∀ f, t.Owns j f ↔ s.Owns j f := fun j other f =>
    owns_congr (others j other) (same j other _ (.inl rfl))
  have alone : ∀ j, j ≠ i → ∀ f, t.Owns i f → ¬ t.Owns j f := by
    intro j other f mine owns
    rw [owned j other] at owns
    rcases gains f mine with before | free
    · exact other (guarded.apart j i f owns before)
    · exact free j owns
  refine ⟨fun j k f first second => ?_, fun j => ?_, fiber, fun f hasStack idle free => ?_⟩
  · by_cases here : j = i
    · by_cases there : k = i
      · rw [here, there]
      · exact absurd second (alone k there f (here ▸ first))
    · by_cases there : k = i
      · exact absurd first (alone j here f (there ▸ second))
      · exact guarded.apart j k f ((owned j here f).mp first) ((owned k there f).mp second)
  · by_cases here : j = i
    · rwa [here]
    · exact (guarded.thread j).congr (others j here) (same j here)
  · by_cases kept : Same s t f ∧ ¬ s.Owns i f
    · obtain ⟨kept, notMine⟩ := kept
      rw [kept.fibers] at hasStack
      rw [Idle, kept.fibers] at idle
      refine kept.loadable (guarded.rest f hasStack idle fun j owns => ?_)
      by_cases here : j = i
      · exact notMine (here ▸ owns)
      · exact free j ((owned j here f).mpr owns)
    · refine released f ?_ (free i) hasStack idle
      by_cases mine : s.Owns i f
      · exact .inl mine
      · exact .inr fun same => kept ⟨same, mine⟩

omit [DecidableEq ι] in
/-- A fibre that no thread uses is free if its state says that it does not execute. -/
theorem Guarded.free (guarded : Guarded s) (hasStack : (s.fibers f).m_stack = true)
    (idle : (s.fibers f).m_state ≠ .EXEC) (none : ∀ i, ¬ s.Uses i f) (j : ι) : ¬ s.Owns j f := by
  have notMain : f ≠ (s.threads j).t_threadFiber := by
    rintro rfl
    rw [(guarded.thread j).mainStack] at hasStack
    cases hasStack
  rintro (main | ⟨running, stack | slot | about⟩)
  · exact notMain main
  · exact none j ⟨running, .inl stack.symm⟩
  · have live := (guarded.thread j).live running
    by_cases here : s.slot j = (s.threads j).here.stack
    · exact none j ⟨running, .inl (here.symm.trans slot.symm)⟩
    · exact idle (slot ▸ live.slotExec (slot ▸ notMain) here)
  · exact none j ⟨running, .inr about⟩

omit [DecidableEq ι] in
/-- A step inside a call that leaves the thread on its stack. -/
theorem LiveSound.moved (live : LiveSound s i)
    (stack : (t.threads i).here.stack = (s.threads i).here.stack)
    (main : (t.threads i).t_threadFiber = (s.threads i).t_threadFiber)
    (slots : t.slot i = s.slot i) (sameStack : Same s t (s.threads i).here.stack)
    (sameSlot : Same s t (s.slot i)) (alive : (s.threads i).point ≠ .ended)
    (quiet : ∀ cur, (s.threads i).point ≠ .yielding cur)
    (about : ∀ f, (t.threads i).point.about = some f → f ≠ (s.threads i).here.stack ∧
      f ≠ s.slot i ∧ (t.fibers f).m_stack = true ∧ t.unused f = false)
    (point : t.PointSound i (t.threads i).point) : LiveSound t i := by
  refine ⟨?_, ?_, ?_, ?_, ?_, ?_, point⟩
  · rw [stack, sameStack.unused]
    exact live.stackMade
  · rw [slots, sameSlot.unused]
    exact live.slotMade
  · rw [stack, main, sameStack.fibers]
    exact fun other _ _ => live.stackExec other (quiet _) alive
  · rw [slots, stack, main, sameSlot.fibers]
    exact live.slotExec
  · rw [slots, stack, sameStack.finished, sameSlot.finished]
    exact fun _ => live.alive alive
  · rw [slots, stack]
    exact about

/-- The checks at the beginning of a call have found a free fibre. -/
theorem Guarded.enter (guarded : Guarded s) (i : ι) {thread : FiberThread}
    (code : (s.threads i).point = .code) (here : thread.here = (s.threads i).here)
    (main : thread.t_threadFiber = (s.threads i).t_threadFiber)
    (about : thread.point.about = some f) (hasStack : (s.fibers f).m_stack = true)
    (made : s.unused f = false) (free : ∀ j, ¬ s.Owns j f)
    (point : (s.setThread i thread).PointSound i thread.point) :
    Guarded (s.setThread i thread) := by
  have running : (s.threads i).point ≠ .exited := code.trans_ne nofun
  have slots : (s.setThread i thread).slot i = s.slot i := by
    rw [slot, slot, setThread_self, main]
    rfl
  have sound := guarded.thread i
  have kept : ∀ g, Same s (s.setThread i thread) g := fun g => ⟨rfl, rfl, rfl, rfl⟩
  refine guarded.of_step i (fun j apart => setThread_other s thread apart)
    (fun g => .inl (kept g)) (fun g owns => ?_) ?_ (fun g => ⟨(guarded.fiber g).context,
      (guarded.fiber g).cur⟩) fun g changed lost => ?_
  · rw [Owns, slots, setThread_self, here, main, about] at owns
    rcases owns with mine | ⟨-, stack | slot | new⟩
    · exact .inl (.inl mine)
    · exact .inl (.inr ⟨running, .inl stack⟩)
    · exact .inl (.inr ⟨running, .inr (.inl slot)⟩)
    · exact .inr (Option.some.inj new ▸ free)
  · refine ⟨?_, ?_, ?_, fun _ => ?_⟩
    · rw [setThread_self, main]
      exact sound.mainMade
    · rw [setThread_self, main]
      exact sound.mainStack
    · rw [setThread_self, main]
      exact sound.mainPoint
    · refine (sound.live running).moved (by rw [setThread_self, here])
        (by rw [setThread_self, main]) slots (kept _) (kept _) (code.trans_ne nofun)
        (fun _ => code.trans_ne nofun) (fun g new => ?_) (by rwa [setThread_self])
      rw [setThread_self, about] at new
      obtain rfl := Option.some.inj new
      exact ⟨fun same => free i (.inr ⟨running, .inl same⟩),
        fun same => free i (.inr ⟨running, .inr (.inl same)⟩), hasStack, made⟩
  · have mine : s.Owns i g := changed.resolve_right fun differs => differs (kept g)
    refine absurd ?_ lost
    rw [Owns, slots, setThread_self, here, main, about]
    have goes : thread.point ≠ .exited := by
      intro exits
      rw [exits] at about
      cases about
    rcases mine with main | ⟨-, stack | slot | old⟩
    · exact .inl main
    · exact .inr ⟨goes, .inl stack⟩
    · exact .inr ⟨goes, .inr (.inl slot)⟩
    · rw [code] at old
      cases old

omit [DecidableEq ι] in
theorem not_idle_of_exec (exec : (s.fibers f).m_state = .EXEC) : ¬ s.Idle f := by
  rw [Idle, exec]
  simp

/-- A thread that exits gives up its stack, which has ended, and the one it would have gone
back to, which stays in EXEC. -/
theorem Guarded.exit (guarded : Guarded s) (i : ι) (running : (s.threads i).point ≠ .exited)
    (quiet : (s.threads i).point.about = none)
    (settled : (s.threads i).here.stack ≠ (s.threads i).t_threadFiber →
      ¬ s.Idle (s.threads i).here.stack) : Guarded (s.goto i .exited) := by
  have kept : ∀ g, Same s (s.goto i .exited) g := fun g => ⟨rfl, rfl, rfl, rfl⟩
  have sound := guarded.thread i
  have thread : (s.goto i .exited).threads i = { s.threads i with point := .exited } :=
    setThread_self s i _
  refine guarded.of_step i (fun j apart => setThread_other s _ apart) (fun g => .inl (kept g))
    (fun g owns => ?_) ?_ (fun g => ⟨(guarded.fiber g).context, (guarded.fiber g).cur⟩)
    fun g changed lost hasStack idle => ?_
  · rw [Owns, thread] at owns
    rcases owns with main | ⟨exits, -⟩
    · exact .inl (.inl main)
    · exact absurd rfl exits
  · refine ⟨?_, ?_, ?_, fun runs => ?_⟩
    · rw [thread]
      exact sound.mainMade
    · rw [thread]
      exact sound.mainStack
    · rw [thread]
      exact sound.mainPoint
    · rw [thread] at runs
      exact absurd rfl runs
  · have mine : s.Owns i g := changed.resolve_right fun differs => differs (kept g)
    have notMain : g ≠ (s.threads i).t_threadFiber := by
      rintro rfl
      refine lost (.inl ?_)
      rw [thread]
    have live := sound.live running
    rcases mine with main | ⟨-, stack | slot | about⟩
    · exact absurd main notMain
    · subst stack
      exact absurd idle (settled notMain)
    · subst slot
      by_cases here : s.slot i = (s.threads i).here.stack
      · exact absurd (here ▸ idle) (settled (here ▸ notMain))
      · exact absurd idle (not_idle_of_exec (live.slotExec notMain here))
    · rw [quiet] at about
      cases about

theorem point_within {point : FiberPoint} (within : point = .code ∨ point.about = some f) :
    point ≠ .exited ∧ point ≠ .ended ∧ (∀ cur, point ≠ .yielding cur) ∧
      ∀ g, point.about = some g → g = f := by
  rcases within with rfl | about
  · exact ⟨nofun, nofun, nofun, nofun⟩
  · refine ⟨?_, ?_, fun cur => ?_, fun g same => Option.some.inj (same.symm.trans about)⟩
    · rintro rfl
      cases about
    · rintro rfl
      cases about
    · rintro rfl
      cases about

omit [DecidableEq ι] in
theorem owns_about (about : (s.threads i).point.about = some f) : s.Owns i f :=
  .inr ⟨(point_within (.inr about)).1, .inr (.inr about)⟩

omit [DecidableEq ι] in
/-- A step that changes one fibre only, which is the one that the call is about and neither
the thread's main fibre nor one whose code the thread executes or goes back to. -/
theorem Guarded.change (guarded : Guarded s) (i : ι) (f : FiberPtr)
    (before : (s.threads i).point = .code ∨ (s.threads i).point.about = some f)
    (after : (t.threads i).point = .code ∨ (t.threads i).point.about = some f)
    (others : ∀ j, j ≠ i → t.threads j = s.threads j)
    (stack : (t.threads i).here.stack = (s.threads i).here.stack)
    (main : (t.threads i).t_threadFiber = (s.threads i).t_threadFiber)
    (kept : ∀ g, g ≠ f → Same s t g) (curs : t.cur = s.cur)
    (away : (s.threads i).t_threadFiber ≠ f ∧ (s.threads i).here.stack ≠ f ∧ s.slot i ≠ f)
    (mine : s.Owns i f ∨ s.unused f = true) (hasStack : (t.fibers f).m_stack = true)
    (made : t.unused f = false) (context : (t.fibers f).m_ctx.context.stack = f)
    (point : t.PointSound i (t.threads i).point)
    (rest : ¬ t.Owns i f → t.Idle f → t.Loadable f) : Guarded t := by
  obtain ⟨running, alive, quiet, aboutBefore⟩ := point_within before
  obtain ⟨goes, -, -, aboutAfter⟩ := point_within after
  have sound := guarded.thread i
  have sameMain := kept _ away.1
  have slots : t.slot i = s.slot i := by
    rw [slot, slot, main, sameMain.fibers]
  have free : s.Owns i f ∨ ∀ j, ¬ s.Owns j f := by
    refine mine.imp_right fun unmade j owns => ?_
    rw [(guarded.thread j).made owns] at unmade
    cases unmade
  refine guarded.of_step i others (fun g => ?_) (fun g owns => ?_) ⟨?_, ?_, ?_, fun _ => ?_⟩
    (fun g => ⟨fun stacked => ?_, ?_⟩) fun g changed lost _ idle => ?_
  · by_cases here : g = f
    · exact .inr (here ▸ mine)
    · exact .inl (kept g here)
  · rw [Owns, slots, stack, main] at owns
    rcases owns with mainly | ⟨-, stack | slot | about⟩
    · exact .inl (.inl mainly)
    · exact .inl (.inr ⟨running, .inl stack⟩)
    · exact .inl (.inr ⟨running, .inr (.inl slot)⟩)
    · exact aboutAfter g about ▸ free
  · rw [main, sameMain.unused]
    exact sound.mainMade
  · rw [main, sameMain.fibers]
    exact sound.mainStack
  · rw [main, sameMain.fibers]
    exact sound.mainPoint
  · refine (sound.live running).moved stack main slots (kept _ away.2.1) (kept _ away.2.2) alive
      quiet (fun g about => ?_) point
    obtain rfl := aboutAfter g about
    exact ⟨Ne.symm away.2.1, Ne.symm away.2.2, hasStack, made⟩
  · by_cases here : g = f
    · rw [here]
      exact context
    · rw [(kept g here).fibers] at stacked ⊢
      exact (guarded.fiber g).context stacked
  · rw [curs]
    exact (guarded.fiber g).cur
  · by_cases here : g = f
    · subst here
      exact rest lost idle
    · have owned := changed.resolve_right fun differs => differs (kept g here)
      refine absurd ?_ lost
      rw [Owns, slots, stack, main]
      rcases owned with mainly | ⟨-, stack | slot | about⟩
      · exact .inl mainly
      · exact .inr ⟨goes, .inl stack⟩
      · exact .inr ⟨goes, .inr (.inl slot)⟩
      · exact absurd (aboutBefore g about) here

omit [DecidableEq ι] in
/-- The code of a thread changes the state of its own fibre or of its main fibre, and
stays where it is. -/
theorem Guarded.assign (guarded : Guarded s) (i : ι) (cur : FiberPtr)
    (code : (s.threads i).point = .code)
    (others : ∀ j, j ≠ i → t.threads j = s.threads j)
    (stack : (t.threads i).here.stack = (s.threads i).here.stack)
    (main : (t.threads i).t_threadFiber = (s.threads i).t_threadFiber)
    (quiet : (t.threads i).point.about = none) (goes : (t.threads i).point ≠ .exited)
    (mine : cur = (s.threads i).t_threadFiber ∨ cur = (s.threads i).here.stack)
    (kept : ∀ g, g ≠ cur → Same s t g) (curs : t.cur = s.cur)
    (context : (t.fibers cur).m_ctx = (s.fibers cur).m_ctx)
    (hasStack : (t.fibers cur).m_stack = (s.fibers cur).m_stack)
    (unused : t.unused = s.unused)
    (stackExec : (s.threads i).here.stack ≠ (s.threads i).t_threadFiber →
      (t.threads i).point ≠ .yielding (s.threads i).here.stack → (t.threads i).point ≠ .ended →
      (s.threads i).here.stack ≠ cur)
    (finished : (t.threads i).point ≠ .ended → t.finished = s.finished)
    (point : t.slot i = s.slot i → t.PointSound i (t.threads i).point) : Guarded t := by
  have running : (s.threads i).point ≠ .exited := code.trans_ne nofun
  have sound := guarded.thread i
  have live := sound.live running
  have contexts : ∀ g, (t.fibers g).m_ctx = (s.fibers g).m_ctx := by
    intro g
    by_cases here : g = cur
    · rw [here, context]
    · rw [(kept g here).fibers]
  have stackKept : ∀ g, (t.fibers g).m_stack = (s.fibers g).m_stack := by
    intro g
    by_cases here : g = cur
    · rw [here, hasStack]
    · rw [(kept g here).fibers]
  have slots : t.slot i = s.slot i := by
    rw [slot, slot, main, contexts]
  have owns : ∀ g, t.Owns i g ↔ s.Owns i g := by
    intro g
    rw [Owns, Owns, slots, stack, main, quiet, code]
    simp [FiberPoint.about, goes]
  have owned : s.Owns i cur := by
    rcases mine with main | stack
    · exact .inl main
    · exact .inr ⟨running, .inl stack⟩
  refine guarded.of_step i others (fun g => ?_) (fun g holds => .inl ((owns g).mp holds))
    ⟨?_, ?_, ?_, fun _ => ⟨?_, ?_, ?_, ?_, ?_, ?_, point slots⟩⟩ (fun g => ⟨fun stacked => ?_, ?_⟩)
    fun g changed lost _ _ => ?_
  · by_cases here : g = cur
    · exact .inr (.inl (here ▸ owned))
    · exact .inl (kept g here)
  · rw [main, unused]
    exact sound.mainMade
  · rw [main, stackKept]
    exact sound.mainStack
  · rw [main, contexts]
    exact sound.mainPoint
  · rw [stack, unused]
    exact live.stackMade
  · rw [slots, unused]
    exact live.slotMade
  · rw [stack, main]
    intro other notYielding notEnded
    rw [(kept _ (stackExec other notYielding notEnded)).fibers]
    exact live.stackExec other (code.trans_ne nofun) (code.trans_ne nofun)
  · rw [slots, stack, main]
    intro notMain notStack
    have away : s.slot i ≠ cur := by
      rcases mine with main | stack
      · exact main ▸ notMain
      · exact stack ▸ notStack
    rw [(kept _ away).fibers]
    exact live.slotExec notMain notStack
  · rw [slots, stack]
    intro notEnded
    rw [finished notEnded]
    exact live.alive (code.trans_ne nofun)
  · intro g about
    rw [quiet] at about
    cases about
  · rw [stackKept] at stacked
    rw [contexts]
    exact (guarded.fiber g).context stacked
  · rw [curs]
    exact (guarded.fiber g).cur
  · refine absurd ((owns g).mpr ?_) lost
    rcases changed with holds | differs
    · exact holds
    · by_cases here : g = cur
      · exact here ▸ owned
      · exact absurd (kept g here) differs

/-- A switch goes to the saved place of the other fibre, or on if there is none. -/
theorem swapcontext_thread (s : FiberThreads ι) (i : ι) (save restore : FiberPtr)
    (yields : Bool) :
    (s.swapcontext i save restore yields).threads i =
      { s.threads i with
        here := if restore = save then (s.threads i).here.next
          else (s.fibers restore).m_ctx.context
        point := .code } := by
  rw [FiberThreads.swapcontext]
  show (FiberThreads.setThread _ i _).threads i = _
  rw [setThread_self]
  by_cases same : restore = save
  · rw [if_pos same, same, setFiber_self]
  · rw [if_neg same, setFiber_other s _ same]

/-- A switch writes to no fibre but the one it leaves, and there it saves the place. -/
theorem swapcontext_fibers (s : FiberThreads ι) (i : ι) (save restore : FiberPtr)
    (yields : Bool) :
    (s.swapcontext i save restore yields).fibers = Function.update s.fibers save
      { s.fibers save with
        m_ctx := { (s.fibers save).m_ctx with context := (s.threads i).here.next } } := rfl

theorem swapcontext_m_state (s : FiberThreads ι) (i : ι) (save restore : FiberPtr)
    (yields : Bool) (g : FiberPtr) :
    ((s.swapcontext i save restore yields).fibers g).m_state = (s.fibers g).m_state := by
  rw [swapcontext_fibers]
  by_cases here : g = save
  · rw [here, Function.update_self]
  · rw [Function.update_of_ne here]

theorem swapcontext_m_stack (s : FiberThreads ι) (i : ι) (save restore : FiberPtr)
    (yields : Bool) (g : FiberPtr) :
    ((s.swapcontext i save restore yields).fibers g).m_stack = (s.fibers g).m_stack := by
  rw [swapcontext_fibers]
  by_cases here : g = save
  · rw [here, Function.update_self]
  · rw [Function.update_of_ne here]

theorem swapcontext_same (s : FiberThreads ι) (i : ι) {save restore g : FiberPtr}
    (yields : Bool) (notSave : g ≠ save) (notRestore : g ≠ restore) :
    Same s (s.swapcontext i save restore yields) g := by
  refine ⟨?_, rfl, ?_, rfl⟩
  · rw [swapcontext_fibers, Function.update_of_ne notSave]
  · exact (Function.update_of_ne notRestore _ _).trans (Function.update_of_ne notSave _ _)

/-- The entry of `MainFunc` makes the thread's current fibre the one that its stack works for. -/
theorem swapcontext_cur (s : FiberThreads ι) (i : ι) (save restore : FiberPtr) (yields : Bool) :
    (s.swapcontext i save restore yields).cur =
      if ((s.swapcontext i save restore yields).threads i).here.point = 0 then
        Function.update s.cur ((s.swapcontext i save restore yields).threads i).here.stack
          (some (s.threads i).t_fiber)
      else s.cur := by
  simp only [FiberThreads.swapcontext, setThread_self]

/-- A switch between two of the thread's own fibres, to the stack `stack` and with a place
on `slot` in the main fibre. -/
theorem Guarded.switch (guarded : Guarded s) (i : ι) {save restore : FiberPtr}
    (stack slot : FiberPtr) {yields : Bool} (after : t = s.swapcontext i save restore yields)
    (saves : s.Owns i save) (restores : s.Owns i restore)
    (newStack : (t.threads i).here.stack = stack) (slots : t.slot i = slot)
    (ownsStack : s.Owns i stack) (ownsSlot : s.Owns i slot)
    (stackExec : stack ≠ (s.threads i).t_threadFiber → (s.fibers stack).m_state = .EXEC)
    (slotExec : slot ≠ (s.threads i).t_threadFiber → slot ≠ stack →
      (s.fibers slot).m_state = .EXEC)
    (alive : s.finished stack = false ∧ s.finished slot = false)
    (context : (s.fibers save).m_stack = true → (s.threads i).here.stack = save)
    (enters : (t.threads i).here.point = 0 → (s.threads i).t_fiber = stack)
    (tracks : (s.threads i).t_fiber = (s.threads i).t_threadFiber ∨
      (s.threads i).t_fiber = stack ∧ slot ≠ stack)
    (released : ∀ g, s.Owns i g → g ≠ (s.threads i).t_threadFiber → g ≠ stack → g ≠ slot →
      s.Idle g → t.Loadable g) :
    Guarded t := by
  have sound := guarded.thread i
  have fibers := swapcontext_fibers s i save restore yields
  have state := swapcontext_m_state s i save restore yields
  have hasStack := swapcontext_m_stack s i save restore yields
  have thread := swapcontext_thread s i save restore yields
  have curs := swapcontext_cur s i save restore yields
  rw [← after] at fibers state hasStack thread curs
  have unused : t.unused = s.unused := by
    rw [after]
    rfl
  have finished : t.finished = s.finished := by
    rw [after]
    rfl
  have code : (t.threads i).point = .code := by rw [thread]
  have main : (t.threads i).t_threadFiber = (s.threads i).t_threadFiber := by rw [thread]
  have current : (t.threads i).t_fiber = (s.threads i).t_fiber := by rw [thread]
  have changes : ∀ g, Same s t g ∨ s.Owns i g := by
    intro g
    by_cases first : g = save
    · exact .inr (first ▸ saves)
    by_cases second : g = restore
    · exact .inr (second ▸ restores)
    · exact .inl (after ▸ swapcontext_same s i yields first second)
  refine guarded.of_step i (fun j apart => ?_) (fun g => (changes g).imp_right .inl)
    (fun g owns => .inl ?_) ⟨?_, ?_, ?_, fun _ => ⟨?_, ?_, ?_, ?_, ?_, ?_, ?_⟩⟩
    (fun g => ⟨fun stacked => ?_, fun other holds => ?_⟩) fun g changed lost stacked idle => ?_
  · rw [after]
    exact setThread_other _ _ apart
  · rw [Owns, newStack, slots, main, code] at owns
    rcases owns with mainly | ⟨-, rfl | rfl | about⟩
    · exact .inl mainly
    · exact ownsStack
    · exact ownsSlot
    · cases about
  · rw [main, unused]
    exact sound.mainMade
  · rw [main, hasStack]
    exact sound.mainStack
  · rw [main, fibers]
    by_cases here : (s.threads i).t_threadFiber = save
    · rw [here, Function.update_self]
      exact Nat.succ_ne_zero _
    · rw [Function.update_of_ne here]
      exact sound.mainPoint
  · rw [newStack, unused]
    exact sound.made ownsStack
  · rw [slots, unused]
    exact sound.made ownsSlot
  · rw [newStack, main, state]
    exact fun notMain _ _ => stackExec notMain
  · rw [slots, newStack, main, state]
    exact slotExec
  · rw [slots, newStack, finished]
    exact fun _ => alive
  · rw [code]
    exact nofun
  · rw [code]
    show t.Tracks i _
    rw [Tracks, slots, newStack, main, current]
    exact tracks
  · rw [hasStack] at stacked
    rw [fibers]
    by_cases here : g = save
    · subst here
      rw [Function.update_self]
      exact context stacked
    · rw [Function.update_of_ne here]
      exact (guarded.fiber g).context stacked
  · by_cases entry : (t.threads i).here.point = 0
    · rw [curs, if_pos entry, newStack] at holds
      by_cases here : g = stack
      · rw [here, Function.update_self] at holds
        rw [here, ← enters entry]
        exact (Option.some.inj holds).symm
      · rw [Function.update_of_ne here] at holds
        exact (guarded.fiber g).cur other holds
    · rw [curs, if_neg entry] at holds
      exact (guarded.fiber g).cur other holds
  · have mine : s.Owns i g := changed.elim id fun differs =>
      (changes g).resolve_left differs
    rw [Idle, state] at idle
    refine released g mine (fun same => lost (.inl (same.trans main.symm)))
      (fun same => lost ?_) (fun same => lost ?_) idle
    · rw [Owns, newStack, main, code]
      exact .inr ⟨nofun, .inl same⟩
    · rw [Owns, slots, main, code]
      exact .inr ⟨nofun, .inr (.inl same)⟩

end FiberThreads

end Chord
