import ChordServer.FiberOwners
import ChordServer.FiberCoroutines
import Mathlib.Data.Nat.Count

set_option autoImplicit false

namespace Chord.SharedFibers

open FiberSystem (Action mainFiber)

/-- Every fibre is destroyed that does not execute and has no owner outside the fibres'
stacks, so that the others are what `s_fiber_count` counts, besides the `base` fibres of
other threads. -/
structure AbandonedDestroyed (base : Nat) (s : SharedFibers) : Prop where
  destroyed : ∀ f < s.system.count, ¬ s.Executes f → ¬ s.Owned f → s.destroyed f = true
  counted : s.system.s_fiber_count =
    base + Nat.count (fun f => s.Executes f ∨ s.Owned f) s.system.count

/-- Exactly those fibres are destroyed that do not execute, have no owner outside the
fibres' stacks and are not suspended, and `s_fiber_count` counts the others. -/
structure Accounted (base : Nat) (s : SharedFibers) : Prop where
  destroyed : ∀ f < s.system.count,
    s.destroyed f = true ↔ ¬ s.Executes f ∧ ¬ s.Owned f ∧ ¬ s.Suspended f
  counted : s.system.s_fiber_count =
    base + Nat.count (fun f => s.Executes f ∨ s.Owned f ∨ s.Suspended f) s.system.count

/-- The main fibre's code makes, resets and swaps in the fibres and handles the
`shared_ptr`s to them. -/
def ByMain (s : SharedFibers) (call : Call) : Prop :=
  ∀ here, s.system.control = .running here →
    call ∈ [.code .YieldToReady, .code .YieldToHold, .code .returns, .code .throws] ∨
      here.stack = mainFiber

/-- The last owner of a fibre that does not execute is dropped before its first `swapIn`. -/
def DropsUnentered (s : SharedFibers) (call : Call) : Prop :=
  ∀ here, s.system.control = .running here →
    ∀ f, call = .drop f → f ≠ here.stack → s.owners f = 1 → (s.system.fibers f).m_state = .INIT

/-- How far a fibre other than main has got, with the `shared_ptr`s to it. In a `clean` run
no suspended fibre is abandoned. -/
inductive Phase (clean : Prop) (s : SharedFibers) (here : Context) (f : FiberPtr) : Prop
  | fresh (apart : f ≠ here.stack) (state : (s.system.fibers f).m_state = .INIT)
      (entry : (s.system.fibers f).m_ctx.context.point = 0) (count : s.use_count f = s.owners f)
      (quiet : s.held f = none) (destroyed : s.destroyed f = true ↔ s.owners f = 0)
  | executing (here : f = here.stack) (state : (s.system.fibers f).m_state = .EXEC)
      (cur : s.system.cur f = some f) (count : s.use_count f = s.owners f + 1)
      (quiet : s.held f = none) (owned : 0 < s.owners f) (kept : s.destroyed f = false)
  | suspended (apart : f ≠ here.stack) (state : s.Suspended f)
      (entered : (s.system.fibers f).m_ctx.context.point ≠ 0) (cur : s.system.cur f = some f)
      (count : s.use_count f = s.owners f + 2) (held : s.held f = some f)
      (owned : clean → 0 < s.owners f) (kept : s.destroyed f = false)

structure FiberTidy (clean : Prop) (s : SharedFibers) (here : Context) (f : FiberPtr) : Prop where
  hasStack : (s.system.fibers f).m_stack = true
  place : (s.system.fibers f).m_ctx.context.stack = f
  unlinked : (s.system.fibers f).m_ctx.uc_link = none
  phase : Phase clean s here f

structure MainTidy (s : SharedFibers) (here : Context) : Prop where
  bare : (s.system.fibers mainFiber).m_stack = false ∧ (s.system.fibers mainFiber).m_cb = false
  place : here.stack ≠ mainFiber → (s.system.fibers mainFiber).m_ctx.context.stack = mainFiber ∧
    (s.system.fibers mainFiber).m_ctx.context.point ≠ 0
  cur : s.system.cur mainFiber = none
  count : s.use_count mainFiber = s.owners mainFiber + 1
  quiet : s.held mainFiber = none
  kept : s.destroyed mainFiber = false

/-- The invariant while the code at `here` executes. -/
structure Tidy (clean : Prop) (s : SharedFibers) (here : Context) : Prop where
  current : s.system.t_fiber = some here.stack
  thread : s.system.t_threadFiber = some mainFiber
  made : mainFiber < s.system.count
  bound : here.stack < s.system.count
  main : MainTidy s here
  unmade : ∀ f, s.system.count ≤ f → s.owners f = 0
  fiber : ∀ f, f ≠ mainFiber → f < s.system.count → FiberTidy clean s here f

/-- What holds in every state of a run by the main fibre, also after its thread has
exited. -/
structure Sound (clean : Prop) (base : Nat) (s : SharedFibers) : Prop where
  counted : s.system.s_fiber_count =
    base + Nat.count (fun f => s.destroyed f = false) s.system.count
  destroyed : ∀ f < s.system.count,
    s.destroyed f = true ↔ ¬ s.Executes f ∧ ¬ s.Owned f ∧ ¬ s.Suspended f
  owned : clean → ∀ f < s.system.count, s.Suspended f → ¬ s.Executes f → s.Owned f
  running : ∀ here, s.system.control = .running here → Tidy clean s here

variable {clean : Prop} {base : Nat} {s t : SharedFibers} {here : Context} {f : FiberPtr}

theorem executes_iff (running : s.system.control = .running here) :
    s.Executes f ↔ here.stack = f := by
  rw [Executes, running]

theorem count_congr {p q : Nat → Prop} [DecidablePred p] [DecidablePred q] {n : Nat}
    (same : ∀ k < n, p k ↔ q k) : Nat.count p n = Nat.count q n :=
  Nat.le_antisymm (Nat.count_mono_left fun k inside => (same k inside).mp)
    (Nat.count_mono_left fun k inside => (same k inside).mpr)

theorem Sound.accounted (sound : Sound clean base s) : Accounted base s := by
  refine ⟨sound.destroyed, sound.counted.trans (congrArg (base + ·) ?_)⟩
  refine count_congr fun f inside => ?_
  rw [← Bool.not_eq_true, sound.destroyed f inside, ← not_or, ← not_or, not_not]

theorem Sound.abandonedDestroyed (sound : Sound True base s) : AbandonedDestroyed base s := by
  have owned : ∀ f < s.system.count, s.Suspended f → s.Executes f ∨ s.Owned f := by
    intro f inside suspended
    by_cases executes : s.Executes f
    · exact .inl executes
    · exact .inr (sound.owned trivial f inside suspended executes)
  refine ⟨fun f inside idle unowned => ?_, sound.accounted.counted.trans ?_⟩
  · refine (sound.destroyed f inside).mpr ⟨idle, unowned, fun suspended => ?_⟩
    exact (owned f inside suspended).elim idle unowned
  · refine congrArg (base + ·) (count_congr fun f inside => ?_)
    rw [← or_assoc, or_iff_left_of_imp (owned f inside)]

/-- The phases say which fibres are destroyed. -/
theorem Tidy.sound (tidy : Tidy clean s here) (running : s.system.control = .running here)
    (counted : s.system.s_fiber_count =
      base + Nat.count (fun f => s.destroyed f = false) s.system.count) : Sound clean base s := by
  have mainOwned : s.Owned mainFiber := .inr tidy.thread
  refine ⟨counted, fun f inside => ?_, fun cleanly f inside suspended idle => ?_,
    fun place goes => ?_⟩
  · by_cases main : f = mainFiber
    · rw [main, tidy.main.kept]
      exact ⟨nofun, fun gone => absurd mainOwned gone.2.1⟩
    · have unowned : s.Owned f ↔ 0 < s.owners f := by
        refine ⟨fun owned => owned.resolve_right fun thread => main ?_, .inl⟩
        exact (Option.some.inj (tidy.thread.symm.trans thread)).symm
      rw [executes_iff running, unowned]
      cases (tidy.fiber f main inside).phase with
      | fresh apart state entry count quiet destroyed =>
        rw [destroyed, Suspended, state]
        refine ⟨fun none => ⟨Ne.symm apart, ?_, nofun⟩, fun gone => ?_⟩
        · rw [none]
          exact Nat.lt_irrefl 0
        · exact Nat.eq_zero_of_not_pos gone.2.1
      | executing self state cur count quiet owned kept =>
        rw [kept]
        exact ⟨nofun, fun gone => absurd self.symm gone.1⟩
      | suspended apart state entered cur count held owned kept =>
        rw [kept]
        exact ⟨nofun, fun gone => absurd state gone.2.2⟩
  · by_cases main : f = mainFiber
    · exact main ▸ mainOwned
    · rw [executes_iff running] at idle
      cases (tidy.fiber f main inside).phase with
      | fresh apart state entry count quiet destroyed =>
        rw [Suspended, state] at suspended
        rcases suspended with hold | ready
        · cases hold
        · cases ready
      | executing self state cur count quiet owned kept => exact absurd self.symm idle
      | suspended apart state entered cur count held owned kept => exact .inl (owned cleanly)
  · obtain rfl := Control.running.inj (running.symm.trans goes)
    exact tidy

/-- The two states agree about the fibre and its `shared_ptr`s. -/
structure Same (s t : SharedFibers) (f : FiberPtr) : Prop where
  fibers : t.system.fibers f = s.system.fibers f
  cur : t.system.cur f = s.system.cur f
  use_count : t.use_count f = s.use_count f
  owners : t.owners f = s.owners f
  held : t.held f = s.held f
  destroyed : t.destroyed f = s.destroyed f

theorem FiberTidy.congr {next : Context} (tidy : FiberTidy clean s here f) (same : Same s t f)
    (stack : f = next.stack ↔ f = here.stack) : FiberTidy clean t next f := by
  obtain ⟨hasStack, place, unlinked, phase⟩ := tidy
  rw [← same.fibers] at hasStack place unlinked
  refine ⟨hasStack, place, unlinked, ?_⟩
  cases phase with
  | fresh apart state entry count quiet destroyed =>
    rw [← same.fibers] at state entry
    rw [← same.use_count, ← same.owners] at count
    rw [← same.destroyed, ← same.owners] at destroyed
    exact .fresh (fun here => apart (stack.mp here)) state entry count (same.held.trans quiet)
      destroyed
  | executing self state cur count quiet owned kept =>
    rw [← same.fibers] at state
    rw [← same.use_count, ← same.owners] at count
    rw [← same.owners] at owned
    exact .executing (stack.mpr self) state (same.cur.trans cur) count (same.held.trans quiet)
      owned (same.destroyed.trans kept)
  | suspended apart state entered cur count held owned kept =>
    rw [Suspended, ← same.fibers] at state
    rw [← same.fibers] at entered
    rw [← same.use_count, ← same.owners] at count
    rw [← same.owners] at owned
    exact .suspended (fun here => apart (stack.mp here)) state entered (same.cur.trans cur) count
      (same.held.trans held) owned (same.destroyed.trans kept)

theorem MainTidy.congr {next : Context} (tidy : MainTidy s here) (same : Same s t mainFiber)
    (place : next.stack ≠ mainFiber → here.stack ≠ mainFiber) : MainTidy t next := by
  obtain ⟨bare, saved, cur, count, quiet, kept⟩ := tidy
  rw [← same.fibers] at bare saved
  rw [← same.use_count, ← same.owners] at count
  exact ⟨bare, fun apart => saved (place apart), same.cur.trans cur, count, same.held.trans quiet,
    same.destroyed.trans kept⟩

/-- A step that stays on its stack and is about one fibre. -/
theorem Tidy.change {next : Context} (tidy : Tidy clean s here)
    (inside : f < s.system.count) (stack : next.stack = here.stack)
    (current : t.system.t_fiber = s.system.t_fiber)
    (thread : t.system.t_threadFiber = s.system.t_threadFiber)
    (count : t.system.count = s.system.count) (others : ∀ g, g ≠ f → Same s t g)
    (main : f = mainFiber → MainTidy t next)
    (fiber : f ≠ mainFiber → FiberTidy clean t next f) :
    Tidy clean t next := by
  refine ⟨?_, thread.trans tidy.thread, ?_, ?_, ?_, fun g beyond => ?_, fun g apart made => ?_⟩
  · rw [current, stack]
    exact tidy.current
  · rw [count]
    exact tidy.made
  · rw [count, stack]
    exact tidy.bound
  · by_cases self : mainFiber = f
    · exact main self.symm
    · exact tidy.main.congr (others _ self) fun apart => stack ▸ apart
  · rw [count] at beyond
    have other : g ≠ f := fun self => Nat.not_lt_of_le beyond (self ▸ inside)
    exact (others g other).owners.trans (tidy.unmade g beyond)
  · rw [count] at made
    by_cases self : g = f
    · rw [self] at apart ⊢
      exact fiber apart
    · exact (tidy.fiber g apart made).congr (others g self) (by rw [stack])

theorem Tidy.inside (tidy : Tidy clean s here) (owned : 0 < s.owners f) :
    f < s.system.count := by
  by_contra beyond
  rw [tidy.unmade f (Nat.le_of_not_lt beyond)] at owned
  cases owned

theorem Sound.own (sound : Sound clean base s) (running : s.system.control = .running here)
    (shared : f = mainFiber ∨ 0 < s.owners f) : Sound clean base (s.own f) := by
  have tidy := sound.running here running
  have count : (s.own f).use_count f = s.use_count f + 1 := Function.update_self _ _ _
  have owners : (s.own f).owners f = s.owners f + 1 := Function.update_self _ _ _
  have inside : f < s.system.count := by
    rcases shared with main | owned
    · exact main ▸ tidy.made
    · exact tidy.inside owned
  refine Tidy.sound ?_ running sound.counted
  refine tidy.change inside rfl rfl rfl rfl (fun g other => ⟨rfl, rfl,
    Function.update_of_ne other _ _, Function.update_of_ne other _ _, rfl, rfl⟩) ?_
    fun apart => ?_
  · rintro rfl
    obtain ⟨bare, place, cur, counts, quiet, kept⟩ := tidy.main
    exact ⟨bare, place, cur, by rw [count, owners, counts], quiet, kept⟩
  · have owned := shared.resolve_left apart
    obtain ⟨hasStack, place, unlinked, phase⟩ := tidy.fiber f apart inside
    refine ⟨hasStack, place, unlinked, ?_⟩
    cases phase with
    | fresh apart state entry counts quiet destroyed =>
      refine .fresh apart state entry (by rw [count, owners, counts]) quiet ?_
      rw [owners]
      refine (iff_of_false (fun gone => ?_) (Nat.succ_ne_zero _))
      exact Nat.ne_of_gt owned (destroyed.mp gone)
    | executing self state cur counts quiet owned kept =>
      exact .executing self state cur (by rw [count, owners, counts]) quiet
        (by rw [owners]; exact Nat.succ_pos _) kept
    | suspended apart state entered cur counts held owned kept =>
      exact .suspended apart state entered cur (by rw [count, owners, counts]) held
        (fun _ => by rw [owners]; exact Nat.succ_pos _) kept

theorem release_shared (shared : 1 < s.use_count f) :
    s.release f =
      some { s with use_count := Function.update s.use_count f (s.use_count f - 1) } :=
  if_neg (Nat.sub_ne_zero_of_lt shared)

theorem release_last (last : s.use_count f = 1) :
    s.release f =
      { s with use_count := Function.update s.use_count f (s.use_count f - 1) }.destroy f :=
  if_pos (by rw [last])

/-- One fibre less is counted after it has been destroyed. -/
theorem count_destroyed {destroyed : FiberPtr → Bool} {n : Nat} (inside : f < n)
    (kept : destroyed f = false) :
    Nat.count (fun g => Function.update destroyed f true g = false) n + 1 =
      Nat.count (fun g => destroyed g = false) n := by
  induction n with
  | zero => exact absurd inside (Nat.not_lt_zero f)
  | succ n ih =>
    rw [Nat.count_succ, Nat.count_succ]
    rcases Nat.lt_succ_iff_lt_or_eq.mp inside with before | rfl
    · rw [Function.update_of_ne (Nat.ne_of_gt before), ← ih before]
      omega
    · have same : Nat.count (fun g => Function.update destroyed f true g = false) f =
          Nat.count (fun g => destroyed g = false) f :=
        count_congr fun g earlier => by rw [Function.update_of_ne (Nat.ne_of_lt earlier)]
      rw [same, Function.update_self, kept]
      simp

theorem uncounted (counted : s.system.s_fiber_count =
      base + Nat.count (fun g => s.destroyed g = false) s.system.count)
    (inside : f < s.system.count) (kept : s.destroyed f = false) :
    s.system.s_fiber_count - 1 =
      base + Nat.count (fun g => Function.update s.destroyed f true g = false) s.system.count := by
  have fewer := count_destroyed inside kept
  omega

theorem Sound.drop (sound : Sound clean base s) (running : s.system.control = .running here)
    (byMain : here.stack = mainFiber) (owned : 0 < s.owners f)
    (drops : clean → f ≠ here.stack → s.owners f = 1 → (s.system.fibers f).m_state = .INIT)
    (dropped : s.drop f = some t) : Sound clean base t := by
  have tidy := sound.running here running
  have inside := tidy.inside owned
  unfold SharedFibers.drop at dropped
  by_cases main : f = mainFiber
  · subst main
    obtain ⟨bare, place, cur, counts, quiet, kept⟩ := tidy.main
    rw [release_shared (by show 1 < s.use_count mainFiber; omega)] at dropped
    cases dropped
    refine Tidy.sound ?_ running sound.counted
    refine tidy.change inside rfl rfl rfl rfl (fun g other => ⟨rfl, rfl,
      Function.update_of_ne other _ _, Function.update_of_ne other _ _, rfl, rfl⟩) (fun _ => ?_)
      fun apart => absurd rfl apart
    refine ⟨bare, place, cur, ?_, quiet, kept⟩
    simp only [Function.update_self]
    omega
  obtain ⟨hasStack, place, unlinked, phase⟩ := tidy.fiber f main inside
  have apart : f ≠ here.stack := byMain ▸ main
  cases phase with
  | executing self => exact absurd self apart
  | suspended _ state entered cur counts held _ kept =>
    rw [release_shared (by show 1 < s.use_count f; omega)] at dropped
    cases dropped
    refine Tidy.sound ?_ running sound.counted
    refine tidy.change inside rfl rfl rfl rfl (fun g other => ⟨rfl, rfl,
      Function.update_of_ne other _ _, Function.update_of_ne other _ _, rfl, rfl⟩)
      (fun same => absurd same main) fun _ => ⟨hasStack, place, unlinked, ?_⟩
    refine .suspended apart state entered cur ?_ held (fun cleanly => ?_) kept
    · simp only [Function.update_self]
      omega
    · simp only [Function.update_self]
      by_contra last
      have fresh := drops cleanly apart (by omega)
      rw [Suspended, fresh] at state
      rcases state with hold | ready
      · cases hold
      · cases ready
  | fresh _ state entry counts quiet destroyed =>
    have kept : s.destroyed f = false := by
      rw [← Bool.not_eq_true, destroyed]
      exact Nat.ne_of_gt owned
    by_cases last : s.owners f = 1
    · rw [release_last (by show s.use_count f = 1; omega), destroy] at dropped
      simp only [hasStack, state, if_true, reduceCtorEq, true_or, or_true] at dropped
      cases dropped
      refine Tidy.sound ?_ running ?_
      · refine tidy.change inside rfl rfl rfl rfl (fun g other => ⟨rfl, rfl,
          Function.update_of_ne other _ _, Function.update_of_ne other _ _, rfl,
          Function.update_of_ne other _ _⟩) (fun same => absurd same main)
          fun _ => ⟨hasStack, place, unlinked, ?_⟩
        refine .fresh apart state entry ?_ quiet ?_
        · simp only [Function.update_self, counts]
        · simp only [Function.update_self, last]
      · exact uncounted sound.counted inside kept
    · rw [release_shared (by show 1 < s.use_count f; omega)] at dropped
      cases dropped
      refine Tidy.sound ?_ running sound.counted
      refine tidy.change inside rfl rfl rfl rfl (fun g other => ⟨rfl, rfl,
        Function.update_of_ne other _ _, Function.update_of_ne other _ _, rfl, rfl⟩)
        (fun same => absurd same main) fun _ => ⟨hasStack, place, unlinked, ?_⟩
      refine .fresh apart state entry ?_ quiet ?_
      · simp only [Function.update_self, counts]
      · simp only [Function.update_self, kept]
        exact iff_of_false nofun (by omega)

theorem Sound.make (sound : Sound clean base s) (running : s.system.control = .running here)
    (byMain : here.stack = mainFiber) {next : FiberSystem}
    (stepped : s.system.step .construct = some next) : Sound clean base (s.make next) := by
  have tidy := sound.running here running
  rw [FiberSystem.step, running] at stepped
  cases stepped
  have old : ∀ g, g < s.system.count → Same s
      (s.make { s.system.construct with control := .running here.next }) g := by
    intro g inside
    have other := Nat.ne_of_lt inside
    exact ⟨Function.update_of_ne other _ _, rfl, Function.update_of_ne other _ _,
      Function.update_of_ne other _ _, Function.update_of_ne other _ _,
      Function.update_of_ne other _ _⟩
  refine Tidy.sound ?_ rfl ?_
  · refine ⟨tidy.current, tidy.thread, Nat.lt_succ_of_lt tidy.made, Nat.lt_succ_of_lt tidy.bound,
      tidy.main.congr (old _ tidy.made) id, fun g beyond => ?_, fun g apart inside => ?_⟩
    · have other : g ≠ s.system.count := Nat.ne_of_gt beyond
      exact (Function.update_of_ne other _ _).trans (tidy.unmade g (Nat.le_of_succ_le beyond))
    · rcases Nat.lt_succ_iff_lt_or_eq.mp inside with before | rfl
      · exact (tidy.fiber g apart before).congr (old g before) Iff.rfl
      · have fiber :
            (s.make { s.system.construct with control := .running here.next }).system.fibers
              s.system.count =
            { m_id := s.system.s_fiber_id + 1, m_ctx := FiberSystem.madeContext s.system.count,
              m_stack := true, m_cb := true } := Function.update_self _ _ _
        refine ⟨by rw [fiber], by rw [fiber]; rfl, by rw [fiber]; rfl, ?_⟩
        refine .fresh (byMain ▸ apart) (by rw [fiber]) (by rw [fiber]; rfl) ?_
          (Function.update_self _ _ _) ?_
        · simp only [SharedFibers.make, Function.update_self]
        · simp only [SharedFibers.make, Function.update_self]
          exact iff_of_false Bool.false_ne_true Nat.one_ne_zero
  · have same : Nat.count (fun g => Function.update s.destroyed s.system.count false g = false)
        s.system.count = Nat.count (fun g => s.destroyed g = false) s.system.count :=
      count_congr fun g earlier => by rw [Function.update_of_ne (Nat.ne_of_lt earlier)]
    show s.system.s_fiber_count + 1 = base + Nat.count
      (fun g => Function.update s.destroyed s.system.count false g = false) (s.system.count + 1)
    rw [Nat.count_succ, same, Function.update_self, if_pos rfl, sound.counted]
    rfl

theorem Sound.reset (sound : Sound clean base s) (running : s.system.control = .running here)
    (owned : 0 < s.owners f) {next : FiberSystem}
    (stepped : s.system.step (.reset f) = some next) :
    Sound clean base { s with system := next } := by
  have tidy := sound.running here running
  have inside := tidy.inside owned
  obtain ⟨place, goes, reset⟩ := FiberSystem.stepped_of_step stepped
  obtain rfl := Control.running.inj (running.symm.trans goes)
  cases reset with
  | yield yields => cases yields
  | endsMainFunc inMainFunc ends => rcases ends with same | same <;> cases same
  | reset made hasStack idle =>
    have notMain : f ≠ mainFiber := by
      rintro rfl
      rw [tidy.main.bare.1] at hasStack
      cases hasStack
    refine Tidy.sound ?_ rfl sound.counted
    refine tidy.change inside rfl rfl rfl rfl (fun g other => ⟨Function.update_of_ne other _ _,
      rfl, rfl, rfl, rfl, rfl⟩) (fun same => absurd same notMain) fun _ => ?_
    obtain ⟨-, -, -, phase⟩ := tidy.fiber f notMain inside
    refine ⟨?_, ?_, ?_, ?_⟩
    · simp only [FiberSystem.setFiber_fibers, Function.update_self, hasStack]
    · simp only [FiberSystem.setFiber_fibers, Function.update_self, FiberSystem.madeContext]
    · simp only [FiberSystem.setFiber_fibers, Function.update_self, FiberSystem.madeContext]
    cases phase with
    | fresh apart state entry counts quiet destroyed =>
      refine .fresh apart ?_ ?_ counts quiet destroyed
      · simp only [FiberSystem.setFiber_fibers, Function.update_self]
      · simp only [FiberSystem.setFiber_fibers, Function.update_self, FiberSystem.madeContext]
    | executing self state cur counts quiet owned kept => simp [state] at idle
    | suspended apart state entered cur counts held owned kept =>
      rcases state with hold | ready
      · simp [hold] at idle
      · simp [ready] at idle

theorem swapcontext_cur {system : FiberSystem} {save restore : FiberPtr} {place : Context}
    (goes : (system.swapcontext here save restore).control = .running place) :
    (system.swapcontext here save restore).cur =
      if place.point = 0 then Function.update system.cur place.stack system.t_fiber
      else system.cur := by
  obtain rfl := Control.running.inj goes
  rfl

theorem share_self (s : SharedFibers) (f : FiberPtr) :
    (s.share f).use_count f = s.use_count f + 1 := Function.update_self _ _ _

theorem share_other (s : SharedFibers) {g : FiberPtr} (other : g ≠ f) :
    (s.share f).use_count g = s.use_count g := Function.update_of_ne other _ _

theorem next_entered (here : Context) : here.next.point ≠ 0 := Nat.succ_ne_zero _

theorem arrive_entry {place : Context} (goes : s.system.control = .running place)
    (entry : place.point = 0) (current : s.system.t_fiber = some f) :
    s.arrive = some (s.share f) := by
  rw [arrive, goes]
  simp only [entry, if_true, current, Option.map_some]

theorem arrive_quiet {place : Context} (goes : s.system.control = .running place)
    (entered : place.point ≠ 0) (quiet : s.held place.stack = none) : s.arrive = some s := by
  rw [arrive, goes]
  simp only [if_neg entered, quiet]

/-- A yield that returns destroys its `cur`, which is not the last `shared_ptr`. -/
theorem arrive_held {place : Context} (goes : s.system.control = .running place)
    (entered : place.point ≠ 0) (held : s.held place.stack = some f) (shared : 1 < s.use_count f) :
    s.arrive = some { s with
      use_count := Function.update s.use_count f (s.use_count f - 1)
      held := Function.update s.held place.stack none } := by
  rw [arrive, goes]
  simp only [if_neg entered, held]
  exact release_shared shared

/-- The main fibre may only swap itself in after a yield of its own, and goes on. -/
theorem Sound.swapIn_main (sound : Sound clean base s)
    (running : s.system.control = .running here) (byMain : here.stack = mainFiber)
    (arrived : { s with system := ((s.system.SetThis (some mainFiber)).setState mainFiber
      .EXEC).swapcontext here mainFiber mainFiber }.arrive = some t) : Sound clean base t := by
  have tidy := sound.running here running
  have goes : (((s.system.SetThis (some mainFiber)).setState mainFiber .EXEC).swapcontext here
      mainFiber mainFiber).control = .running here.next :=
    FiberSystem.swapcontext_control_self _ _ _
  rw [arrive_quiet goes (next_entered here)
    (by rw [Context.next_stack, byMain]; exact tidy.main.quiet)] at arrived
  cases arrived
  have curs := swapcontext_cur goes
  rw [if_neg (next_entered here)] at curs
  refine Tidy.sound ?_ goes sound.counted
  refine tidy.change tidy.made rfl ?_ rfl rfl (fun g other => ⟨?_, congrFun curs g, rfl, rfl, rfl,
    rfl⟩) (fun _ => ?_) fun apart => absurd rfl apart
  · exact (congrArg some byMain).symm.trans tidy.current.symm
  · exact (Function.update_of_ne other _ _).trans (Function.update_of_ne other _ _)
  · obtain ⟨bare, place, cur, counts, quiet, kept⟩ := tidy.main
    refine ⟨?_, fun apart => absurd byMain apart, (congrFun curs mainFiber).trans cur, counts,
      quiet, kept⟩
    simpa [FiberSystem.swapcontext_fibers] using bare

/-- A switch between the main fibre and the fibre `f`. -/
theorem Tidy.switch {next : Context} (tidy : Tidy clean s here) (inside : f < s.system.count)
    (leaves : here.stack = mainFiber ∨ here.stack = f)
    (enters : next.stack = mainFiber ∨ next.stack = f)
    (current : t.system.t_fiber = some next.stack)
    (thread : t.system.t_threadFiber = s.system.t_threadFiber)
    (count : t.system.count = s.system.count) (owners : t.owners = s.owners)
    (others : ∀ g, g ≠ mainFiber → g ≠ f → Same s t g) (main : MainTidy t next)
    (fiber : FiberTidy clean t next f) : Tidy clean t next := by
  refine ⟨current, thread.trans tidy.thread, by rw [count]; exact tidy.made, ?_, main,
    fun g beyond => ?_, fun g apart made => ?_⟩
  · rw [count]
    rcases enters with same | same
    · exact same ▸ tidy.made
    · exact same ▸ inside
  · rw [count] at beyond
    rw [owners]
    exact tidy.unmade g beyond
  · rw [count] at made
    by_cases self : g = f
    · exact self ▸ fiber
    · refine (tidy.fiber g apart made).congr (others g apart self) (iff_of_false ?_ ?_)
      · rintro rfl
        exact enters.elim apart self
      · rintro rfl
        exact leaves.elim apart self

/-- The main fibre swaps another one in, which enters `MainFunc` or goes on after its last
yield. -/
theorem Sound.swapIn_other (sound : Sound clean base s)
    (running : s.system.control = .running here) (byMain : here.stack = mainFiber)
    (main : f ≠ mainFiber) (owned : 0 < s.owners f) {next : FiberSystem} {place : Context}
    (saved : (s.system.fibers f).m_ctx.context = place) (loads : next.control = .running place)
    (fibers : ∀ g, next.fibers g =
      if g = mainFiber then
        { s.system.fibers mainFiber with
          m_ctx := { (s.system.fibers mainFiber).m_ctx with context := here.next } }
      else if g = f then { s.system.fibers f with m_state := .EXEC }
      else s.system.fibers g)
    (curs : next.cur = if place.point = 0 then Function.update s.system.cur place.stack (some f)
      else s.system.cur)
    (current : next.t_fiber = some f) (thread : next.t_threadFiber = s.system.t_threadFiber)
    (count : next.count = s.system.count)
    (counter : next.s_fiber_count = s.system.s_fiber_count)
    (arrived : { s with system := next }.arrive = some t) : Sound clean base t := by
  have tidy := sound.running here running
  have inside := tidy.inside owned
  obtain ⟨hasStack, stack, unlinked, phase⟩ := tidy.fiber f main inside
  rw [saved] at stack
  have self : next.fibers f = { s.system.fibers f with m_state := .EXEC } := by
    rw [fibers, if_neg main, if_pos rfl]
  have others : ∀ g, g ≠ mainFiber → g ≠ f → next.fibers g = s.system.fibers g := by
    intro g notMain other
    rw [fibers, if_neg notMain, if_neg other]
  have curOther : ∀ g, g ≠ f → next.cur g = s.system.cur g := by
    intro g other
    rw [curs, stack]
    split
    · exact Function.update_of_ne other _ _
    · rfl
  have curSelf : place.point ≠ 0 → s.system.cur f = some f → next.cur f = some f := by
    intro entered cur
    rw [curs, if_neg entered, cur]
  have mainTidy : ∀ counts held, counts mainFiber = s.use_count mainFiber →
      held mainFiber = s.held mainFiber →
      MainTidy { s with system := next, use_count := counts, held := held } place := by
    intro counts held sameCount sameHeld
    have savedMain := fibers mainFiber
    rw [if_pos rfl] at savedMain
    obtain ⟨bare, -, cur, before, quiet, kept⟩ := tidy.main
    refine ⟨?_, fun _ => ?_, (curOther _ (Ne.symm main)).trans cur, sameCount.trans before,
      sameHeld.trans quiet, kept⟩
    · rw [savedMain]
      exact bare
    · rw [savedMain]
      exact ⟨byMain, next_entered here⟩
  have runs : ∀ counts held, counts f = s.owners f + 1 → held f = none →
      next.cur f = some f → s.destroyed f = false →
      FiberTidy clean { s with system := next, use_count := counts, held := held } place f := by
    intro counts held count quiet cur kept
    refine ⟨?_, ?_, ?_, .executing stack.symm ?_ cur count quiet owned kept⟩
    · rw [self]
      exact hasStack
    · rw [self]
      exact saved ▸ stack
    · rw [self]
      exact unlinked
    · rw [self]
  cases phase with
  | executing same => exact absurd (same.trans byMain) main
  | fresh apart state entry counts quiet destroyed =>
    rw [saved] at entry
    rw [if_pos entry, stack] at curs
    rw [arrive_entry loads entry current] at arrived
    cases arrived
    refine Tidy.sound ?_ loads (counter ▸ count ▸ sound.counted)
    refine tidy.switch inside (.inl byMain) (.inr stack) (stack.symm ▸ current) thread count rfl
      (fun g notMain other => ⟨others g notMain other, curOther g other,
        Function.update_of_ne other _ _, rfl, rfl, rfl⟩)
      (mainTidy _ _ (Function.update_of_ne (Ne.symm main) _ _) rfl)
      (runs _ _ ?_ quiet ?_ ?_)
    · exact (Function.update_self _ _ _).trans (congrArg Nat.succ counts)
    · rw [curs, Function.update_self]
    · rw [← Bool.not_eq_true, destroyed]
      exact Nat.ne_of_gt owned
  | suspended apart state entered cur counts held _ kept =>
    rw [saved] at entered
    have heldThere : s.held place.stack = some f := by rw [stack, held]
    have shared : 1 < s.use_count f := by omega
    rw [arrive_held (s := { s with system := next }) loads entered heldThere shared] at arrived
    cases arrived
    refine Tidy.sound ?_ loads (counter ▸ count ▸ sound.counted)
    refine tidy.switch inside (.inl byMain) (.inr stack) (stack.symm ▸ current) thread count rfl
      (fun g notMain other => ⟨others g notMain other, curOther g other,
        Function.update_of_ne other _ _, rfl, ?_, rfl⟩)
      (mainTidy _ _ (Function.update_of_ne (Ne.symm main) _ _) ?_)
      (runs _ _ ?_ ?_ (curSelf entered cur) kept)
    · exact Function.update_of_ne (stack ▸ other) _ _
    · exact Function.update_of_ne (stack ▸ Ne.symm main) _ _
    · rw [Function.update_self]
      show s.use_count f - 1 = _
      omega
    · rw [stack, Function.update_self]

theorem Sound.swapIn (sound : Sound clean base s) (running : s.system.control = .running here)
    (byMain : here.stack = mainFiber) (owned : 0 < s.owners f) {next : FiberSystem}
    (stepped : s.system.step (.swapIn f) = some next)
    (arrived : { s with system := next }.arrive = some t) : Sound clean base t := by
  have tidy := sound.running here running
  have inside := tidy.inside owned
  obtain ⟨place, goes, swapped⟩ := FiberSystem.stepped_of_step stepped
  obtain rfl := Control.running.inj (running.symm.trans goes)
  cases swapped with
  | yield yields => cases yields
  | endsMainFunc inMainFunc ends => rcases ends with same | same <;> cases same
  | swapIn made idle thread =>
    obtain rfl := Option.some.inj (tidy.thread.symm.trans thread)
    by_cases main : f = mainFiber
    · subst main
      exact sound.swapIn_main running byMain arrived
    set next := ((s.system.SetThis (some f)).setState f .EXEC).swapcontext here mainFiber f
      with swaps
    have loads : next.control = .running (s.system.fibers f).m_ctx.context := by
      rw [swaps, FiberSystem.swapcontext_control _ _ main]
      simp only [FiberSystem.setState_fibers, Function.update_self]
      rfl
    have fibers := FiberSystem.swapIn_fibers s.system here main
    have curs := swapcontext_cur (swaps ▸ loads)
    rw [← swaps] at fibers curs
    exact sound.swapIn_other running byMain main owned rfl loads fibers curs rfl rfl rfl rfl arrived

/-- A yield of the main fibre goes on at once. -/
theorem Sound.yield_main (sound : Sound clean base s)
    (running : s.system.control = .running here) (byMain : here.stack = mainFiber)
    (state : FiberState)
    (arrived : { s.share mainFiber with
      held := Function.update s.held mainFiber (some mainFiber)
      system := s.system.yielded here state }.arrive = some t) : Sound clean base t := by
  have tidy := sound.running here running
  obtain ⟨bare, place, cur, counts, quiet, kept⟩ := tidy.main
  have goes := FiberSystem.yielded_control s.system here state
  rw [if_pos byMain] at goes
  have fibers := FiberSystem.yielded_fibers s.system here state
  have curs := swapcontext_cur goes
  rw [if_neg (next_entered here)] at curs
  have held : Function.update s.held mainFiber (some mainFiber) here.next.stack =
      some mainFiber := by
    rw [Context.next_stack, byMain, Function.update_self]
  have count := share_self s mainFiber
  have shared : 1 < (s.share mainFiber).use_count mainFiber := by omega
  rw [arrive_held (s := { s.share mainFiber with
    held := Function.update s.held mainFiber (some mainFiber)
    system := s.system.yielded here state }) goes (next_entered here) held shared] at arrived
  cases arrived
  refine Tidy.sound ?_ goes sound.counted
  refine tidy.change tidy.made rfl ?_ rfl rfl (fun g other => ⟨?_, congrFun curs g, ?_, rfl, ?_,
    rfl⟩) (fun _ => ⟨?_, fun apart => absurd byMain apart, (congrFun curs mainFiber).trans cur,
    ?_, ?_, kept⟩) fun apart => absurd rfl apart
  · exact (congrArg some byMain).symm.trans tidy.current.symm
  · show (s.system.yielded here state).fibers g = _
    rw [fibers, byMain, if_neg other]
  · exact (Function.update_of_ne other _ _).trans (share_other s other)
  · rw [Context.next_stack, byMain]
    exact (Function.update_of_ne other _ _).trans (Function.update_of_ne other _ _)
  · show ((s.system.yielded here state).fibers mainFiber).m_stack = _ ∧
      ((s.system.yielded here state).fibers mainFiber).m_cb = _
    rw [fibers, byMain, if_pos rfl]
    exact bare
  · show Function.update (s.share mainFiber).use_count mainFiber _ mainFiber = _
    rw [Function.update_self, count]
    exact counts
  · show Function.update (Function.update s.held mainFiber (some mainFiber)) here.next.stack none
      mainFiber = none
    rw [Context.next_stack, byMain, Function.update_self]

/-- A yield of another fibre, whose `cur` stays on its stack. -/
theorem Sound.yield_other (sound : Sound clean base s)
    (running : s.system.control = .running here) (notMain : here.stack ≠ mainFiber)
    {state : FiberState} (yields : state = .HOLD ∨ state = .READY)
    (arrived : { s.share here.stack with
      held := Function.update s.held here.stack (some here.stack)
      system := s.system.yielded here state }.arrive = some t) : Sound clean base t := by
  have tidy := sound.running here running
  obtain ⟨bare, place, mainCur, mainCount, mainQuiet, mainKept⟩ := tidy.main
  obtain ⟨stack, entered⟩ := place notMain
  have goes := FiberSystem.yielded_control s.system here state
  rw [if_neg notMain] at goes
  have fibers := FiberSystem.yielded_fibers s.system here state
  have curs := swapcontext_cur goes
  rw [if_neg entered] at curs
  have quiet : Function.update s.held here.stack (some here.stack)
      (s.system.fibers mainFiber).m_ctx.context.stack = none := by
    rw [stack, Function.update_of_ne (Ne.symm notMain), mainQuiet]
  rw [arrive_quiet (s := { s.share here.stack with
    held := Function.update s.held here.stack (some here.stack)
    system := s.system.yielded here state }) goes entered quiet] at arrived
  cases arrived
  refine Tidy.sound ?_ goes sound.counted
  refine tidy.switch tidy.bound (.inr rfl) (.inl stack) ?_ rfl rfl rfl
    (fun g _ other => ⟨?_, congrFun curs g, share_other s other, rfl,
      Function.update_of_ne other _ _, rfl⟩)
    ⟨?_, fun apart => absurd stack apart, (congrFun curs mainFiber).trans mainCur, ?_, ?_, mainKept⟩
    ?_
  · exact (congrArg some stack).symm
  · show (s.system.yielded here state).fibers g = _
    rw [fibers, if_neg other]
  · show ((s.system.yielded here state).fibers mainFiber).m_stack = _ ∧
      ((s.system.yielded here state).fibers mainFiber).m_cb = _
    rw [fibers, if_neg (Ne.symm notMain)]
    exact bare
  · exact (share_other s (Ne.symm notMain)).trans mainCount
  · exact (Function.update_of_ne (Ne.symm notMain) _ _).trans mainQuiet
  · have self := fibers here.stack
    rw [if_pos rfl] at self
    obtain ⟨hasStack, -, unlinked, phase⟩ := tidy.fiber here.stack notMain tidy.bound
    refine ⟨(congrArg Fiber.m_stack self).trans hasStack,
      (congrArg (fun fiber : Fiber => fiber.m_ctx.context.stack) self),
      (congrArg (fun fiber : Fiber => fiber.m_ctx.uc_link) self).trans unlinked, ?_⟩
    cases phase with
    | fresh apart => exact absurd rfl apart
    | suspended apart => exact absurd rfl apart
    | executing _ _ cur count _ owned kept =>
      have point := congrArg (fun fiber : Fiber => fiber.m_ctx.context.point) self
      refine .suspended (fun same => notMain (same.trans stack)) ?_ ?_
        ((congrFun curs here.stack).trans cur) ?_ (Function.update_self _ _ _) (fun _ => owned) kept
      · have left : ((s.system.yielded here state).fibers here.stack).m_state = state :=
          congrArg Fiber.m_state self
        exact yields.imp left.trans left.trans
      · exact fun entry => absurd (point.symm.trans entry) (next_entered here)
      · exact (share_self s here.stack).trans (congrArg Nat.succ count)

theorem Sound.yieldTo (sound : Sound clean base s) (running : s.system.control = .running here)
    {action : Action} {state : FiberState} (yields : action.yieldState = some state)
    (yielded : s.yieldTo here action = some t) : Sound clean base t := by
  have tidy := sound.running here running
  simp only [SharedFibers.yieldTo, tidy.current, Option.bind_some, Option.bind_eq_some_iff]
    at yielded
  obtain ⟨next, stepped, arrived⟩ := yielded
  have stepped : s.system.step action = some next := stepped
  obtain ⟨place, goes, swapped⟩ := FiberSystem.stepped_of_step stepped
  obtain rfl := Control.running.inj (running.symm.trans goes)
  cases swapped with
  | construct => cases yields
  | reset => cases yields
  | swapIn => cases yields
  | endsMainFunc inMainFunc ends => rcases ends with rfl | rfl <;> cases yields
  | endsThread => cases yields
  | @yield _ left main same thread =>
    rw [FiberSystem.GetThis_of_some tidy.current] at thread arrived
    obtain rfl := Option.some.inj (tidy.thread.symm.trans thread)
    by_cases byMain : here.stack = mainFiber
    · rw [byMain] at arrived
      refine sound.yield_main running byMain left ?_
      rwa [FiberSystem.yielded, byMain]
    · refine sound.yield_other running byMain ?_ arrived
      cases action <;> simp [FiberSystem.Action.yieldState] at same <;> simp [← same]

theorem Sound.of_exited {stack : FiberPtr} (exited : s.system.control = .threadExited stack)
    (thread : s.system.t_threadFiber = none)
    (counted : s.system.s_fiber_count =
      base + Nat.count (fun f => s.destroyed f = false) s.system.count)
    (fiber : ∀ f < s.system.count, (s.destroyed f = true ↔ s.owners f = 0 ∧ ¬ s.Suspended f) ∧
      (clean → s.Suspended f → 0 < s.owners f)) : Sound clean base s := by
  have idle : ∀ f, ¬ s.Executes f := by
    intro f
    rw [Executes, exited]
    exact id
  have owned : ∀ f, s.Owned f ↔ 0 < s.owners f := by
    intro f
    rw [Owned, thread]
    exact or_iff_left nofun
  refine ⟨counted, fun f inside => ?_, fun cleanly f inside suspended _ => ?_, fun here goes => ?_⟩
  · rw [and_iff_right (idle f), owned, Nat.pos_iff_ne_zero, not_not]
    exact (fiber f inside).1
  · exact (owned f).mpr ((fiber f inside).2 cleanly suspended)
  · rw [exited] at goes
    cases goes

/-- When the thread exits `t_threadFiber` is destroyed, and the main fibre with it if the
code has no `shared_ptr` to it left. -/
theorem Sound.exitThread (ended : s.exitThread = some t) (made : mainFiber < s.system.count)
    {stack : FiberPtr}
    (exited : s.system.control = .threadExited stack)
    (thread : s.system.t_threadFiber = some mainFiber)
    (bare : (s.system.fibers mainFiber).m_stack = false ∧
      (s.system.fibers mainFiber).m_cb = false)
    (count : s.use_count mainFiber = s.owners mainFiber + 1)
    (kept : s.destroyed mainFiber = false)
    (counted : s.system.s_fiber_count =
      base + Nat.count (fun f => s.destroyed f = false) s.system.count)
    (others : ∀ f, f ≠ mainFiber → f < s.system.count →
      (s.destroyed f = true ↔ s.owners f = 0 ∧ ¬ s.Suspended f) ∧
      (clean → s.Suspended f → 0 < s.owners f)) : Sound clean base t := by
  simp only [SharedFibers.exitThread, thread] at ended
  by_cases last : s.owners mainFiber = 0
  · rw [release_last (by show s.use_count mainFiber = 1; omega), destroy] at ended
    simp only [bare, Bool.false_eq_true, if_false] at ended
    cases ended
    refine Sound.of_exited exited rfl (uncounted counted made kept) fun f inside => ?_
    by_cases main : f = mainFiber
    · subst main
      have settled : ¬ Suspended { s with
          system := FiberSystem.setState s.system mainFiber .EXEC } mainFiber := by
        rw [Suspended, FiberSystem.setState_fibers, Function.update_self]
        simp
      have gone : Function.update s.destroyed mainFiber true mainFiber = true :=
        Function.update_self _ _ _
      exact ⟨iff_of_true gone ⟨last, settled⟩, fun _ suspended => absurd suspended settled⟩
    · have same : Suspended { s with
          system := FiberSystem.setState s.system mainFiber .EXEC } f ↔ s.Suspended f := by
        rw [Suspended, FiberSystem.setState_fibers, Function.update_of_ne main]
        rfl
      have unchanged : Function.update s.destroyed mainFiber true f = s.destroyed f :=
        Function.update_of_ne main _ _
      have before := others f main inside
      rw [← same, ← unchanged] at before
      exact before
  · rw [release_shared (by show 1 < s.use_count mainFiber; omega)] at ended
    cases ended
    refine Sound.of_exited exited rfl counted fun f inside => ?_
    by_cases main : f = mainFiber
    · subst main
      refine ⟨?_, fun _ _ => Nat.pos_of_ne_zero last⟩
      rw [kept]
      exact ⟨nofun, fun gone => absurd gone.1 last⟩
    · exact others f main inside

/-- The end of a callback leaves its fibre in TERM or EXCEPT, and the thread exits. -/
theorem MainFunc_ends {system : FiberSystem} {stack : FiberPtr}
    (unlinked : (system.fibers stack).m_ctx.uc_link = none) (threw : Bool) :
    ∃ fiber : Fiber, (fiber.m_state = .TERM ∨ fiber.m_state = .EXCEPT) ∧
      system.MainFunc stack stack threw =
        { system.setFiber stack fiber with control := .threadExited stack } := by
  cases threw with
  | true =>
    refine ⟨{ system.fibers stack with m_state := .EXCEPT }, .inr rfl, ?_⟩
    simp only [FiberSystem.MainFunc, FiberSystem.endStack, if_true, FiberSystem.setFiber_fibers,
      Function.update_self, unlinked]
  | false =>
    refine ⟨{ system.fibers stack with m_cb := false, m_state := .TERM }, .inl rfl, ?_⟩
    simp only [FiberSystem.MainFunc, FiberSystem.endStack, Bool.false_eq_true, if_false,
      FiberSystem.setFiber_fibers, Function.update_self, unlinked]

theorem Tidy.settled (tidy : Tidy clean s here) (main : f ≠ mainFiber) (other : f ≠ here.stack)
    (inside : f < s.system.count) :
    (s.destroyed f = true ↔ s.owners f = 0 ∧ ¬ s.Suspended f) ∧
      (clean → s.Suspended f → 0 < s.owners f) := by
  cases (tidy.fiber f main inside).phase with
  | fresh _ state entry count quiet destroyed =>
    have settled : ¬ s.Suspended f := by
      rw [Suspended, state]
      simp
    exact ⟨destroyed.trans (and_iff_left settled).symm,
      fun _ suspended => absurd suspended settled⟩
  | executing self => exact absurd self other
  | suspended _ state entered cur count held owned kept =>
    refine ⟨?_, fun cleanly _ => owned cleanly⟩
    rw [kept]
    exact ⟨nofun, fun gone => absurd state gone.2⟩

theorem Sound.finish (sound : Sound clean base s) (running : s.system.control = .running here)
    {action : Action} (ends : action = .returns ∨ action = .throws)
    (finished : s.finish here action = some t) : Sound clean base t := by
  have tidy := sound.running here running
  obtain ⟨bare, -, mainCur, mainCount, -, mainKept⟩ := tidy.main
  simp only [SharedFibers.finish, Option.bind_eq_some_iff] at finished
  obtain ⟨next, stepped, released, left, exits⟩ := finished
  obtain ⟨place, goes, ended⟩ := FiberSystem.stepped_of_step stepped
  obtain rfl := Control.running.inj (running.symm.trans goes)
  cases ended with
  | construct => rcases ends with same | same <;> cases same
  | reset => rcases ends with same | same <;> cases same
  | swapIn => rcases ends with same | same <;> cases same
  | yield yields => rcases ends with rfl | rfl <;> cases yields
  | endsThread outside =>
    have byMain : here.stack = mainFiber := by
      by_contra main
      cases (tidy.fiber here.stack main tidy.bound).phase with
      | fresh apart => exact apart rfl
      | suspended apart => exact apart rfl
      | executing _ _ cur => rw [outside] at cur; cases cur
    rw [outside] at left
    cases left
    dsimp only at exits
    exact Sound.exitThread exits tidy.made rfl tidy.thread bare mainCount mainKept sound.counted
      fun f main inside => tidy.settled main (byMain.symm ▸ main) inside
  | @endsMainFunc _ cur inMainFunc _ =>
    have main : here.stack ≠ mainFiber := by
      intro byMain
      rw [byMain, mainCur] at inMainFunc
      cases inMainFunc
    obtain ⟨hasStack, -, unlinked, phase⟩ := tidy.fiber here.stack main tidy.bound
    cases phase with
    | fresh apart => exact absurd rfl apart
    | suspended apart => exact absurd rfl apart
    | executing _ _ self count quiet owned kept =>
      obtain rfl : here.stack = cur := Option.some.inj (self.symm.trans inMainFunc)
      obtain ⟨fiber, state, after⟩ := MainFunc_ends unlinked (action == .throws)
      rw [after] at left exits
      rw [inMainFunc] at left
      have shared : 1 < s.use_count here.stack := by omega
      simp only [Option.elim_some] at left
      rw [release_shared (s := { s with
        system := { s.system.setFiber here.stack fiber with
          control := .threadExited here.stack } }) shared] at left
      cases left
      dsimp only at exits
      have others : ∀ g, g ≠ here.stack →
          (s.system.setFiber here.stack fiber).fibers g = s.system.fibers g :=
        fun g other => Function.update_of_ne other _ _
      refine Sound.exitThread exits tidy.made rfl tidy.thread ?_ ?_ mainKept sound.counted
        fun f notMain inside => ?_
      · exact (others mainFiber (Ne.symm main)).symm ▸ bare
      · exact (Function.update_of_ne (Ne.symm main) _ _).trans mainCount
      by_cases same : f = here.stack
      · subst same
        have settled : ¬ Suspended { s with
            system := s.system.setFiber here.stack fiber } here.stack := by
          rw [Suspended, FiberSystem.setFiber_fibers, Function.update_self]
          rcases state with term | except
          · simp [term]
          · simp [except]
        refine ⟨iff_of_false ?_ fun gone => Nat.ne_of_gt owned gone.1,
          fun _ suspended => absurd suspended settled⟩
        show ¬ s.destroyed here.stack = true
        rw [kept]
        exact Bool.false_ne_true
      · have before := tidy.settled notMain same inside
        rw [Suspended, ← others f same] at before
        exact before

theorem Sound.step (sound : Sound clean base s) {call : Call} (byMain : ByMain s call)
    (drops : clean → DropsUnentered s call) (stepped : s.step call = some t) :
    Sound clean base t := by
  cases running : s.system.control with
  | threadExited stack => simp [SharedFibers.step, running] at stepped
  | running here =>
    have onMain := (byMain here running).resolve_left
    have dropped := fun cleanly => drops cleanly here running
    simp only [SharedFibers.step, running] at stepped
    match call with
    | .GetThis =>
      rw [(sound.running here running).current] at stepped
      cases stepped
      exact sound.own running (.inl (onMain (by simp)))
    | .copy f =>
      obtain ⟨owned, same⟩ := Option.ite_none_right_eq_some.mp stepped
      cases same
      exact sound.own running (.inr owned)
    | .drop f =>
      obtain ⟨owned, result⟩ := Option.ite_none_right_eq_some.mp stepped
      exact sound.drop running (onMain (by simp)) owned (fun cleanly => dropped cleanly f rfl)
        result
    | .code .construct =>
      obtain ⟨next, made, rfl⟩ := Option.map_eq_some_iff.mp stepped
      exact sound.make running (onMain (by simp)) made
    | .code (.reset f) =>
      obtain ⟨owned, result⟩ := Option.ite_none_right_eq_some.mp stepped
      obtain ⟨next, reset, rfl⟩ := Option.map_eq_some_iff.mp result
      exact sound.reset running owned reset
    | .code (.swapIn f) =>
      obtain ⟨owned, result⟩ := Option.ite_none_right_eq_some.mp stepped
      obtain ⟨next, swapped, arrived⟩ := Option.bind_eq_some_iff.mp result
      exact sound.swapIn running (onMain (by simp)) owned swapped arrived
    | .code .YieldToReady => exact sound.yieldTo running rfl stepped
    | .code .YieldToHold => exact sound.yieldTo running rfl stepped
    | .code .returns => exact sound.finish running (.inl rfl) stepped
    | .code .throws => exact sound.finish running (.inr rfl) stepped

theorem start_sound (clean : Prop) (s_fiber_id s_fiber_count : Nat) :
    Sound clean s_fiber_count (start s_fiber_id s_fiber_count) := by
  refine Tidy.sound ?_ rfl ?_
  · refine ⟨rfl, rfl, Nat.zero_lt_one, Nat.zero_lt_one, ⟨⟨rfl, rfl⟩, fun apart => absurd rfl apart,
      rfl, rfl, rfl, rfl⟩, fun _ _ => rfl, fun f apart inside => ?_⟩
    exact absurd (Nat.lt_one_iff.mp inside) apart
  · show s_fiber_count + 1 = s_fiber_count + Nat.count (fun _ => false = false) 1
    rw [Nat.count_one, if_pos rfl]

/-- Dropping the last owner of a suspended fibre does not destroy it. -/
theorem Tidy.drop_suspended (tidy : Tidy clean s here) (running : s.system.control = .running here)
    (main : f ≠ mainFiber) (other : f ≠ here.stack) (last : s.owners f = 1)
    (entered : (s.system.fibers f).m_state ≠ .INIT) :
    s.destroyed f = false ∧ s.step (.drop f) = some { s with
      owners := Function.update s.owners f 0
      use_count := Function.update s.use_count f (s.use_count f - 1) } := by
  have owned : 0 < s.owners f := by omega
  cases (tidy.fiber f main (tidy.inside owned)).phase with
  | fresh _ state => exact absurd state entered
  | executing self => exact absurd self other
  | suspended _ state _ cur count held _ kept =>
    refine ⟨kept, ?_⟩
    simp only [SharedFibers.step, running, SharedFibers.drop, last]
    exact release_shared (by show 1 < s.use_count f; omega)

theorem Sound.dropsUnentered (sound : Sound clean base s) {call : Call} (byMain : ByMain s call)
    (kept : ∀ t, s.step call = some t → AbandonedDestroyed base t) : DropsUnentered s call := by
  rintro here running f rfl other last
  have tidy := sound.running here running
  have onMain : here.stack = mainFiber := (byMain here running).resolve_left (by simp)
  have main : f ≠ mainFiber := onMain ▸ other
  have owned : 0 < s.owners f := by omega
  by_contra entered
  obtain ⟨alive, stepped⟩ := tidy.drop_suspended running main other last entered
  have gone := (kept _ stepped).destroyed f (tidy.inside owned) ?_ ?_
  · exact absurd (alive.symm.trans gone) Bool.false_ne_true
  · exact fun executes => other ((executes_iff running).mp executes).symm
  · rintro (more | thread)
    · exact Nat.not_lt_zero _ (Nat.lt_of_lt_of_eq more (Function.update_self _ _ _))
    · exact main (Option.some.inj (tidy.thread.symm.trans thread)).symm

/-- In every run by the main fibre a fibre is destroyed when it neither executes nor has an
owner outside the fibres' stacks nor is suspended; and no abandoned fibre is left in a run
exactly if every fibre loses its last owner before its first `swapIn`. -/
theorem run_accounted (s_fiber_id s_fiber_count : Nat) {calls : List Call}
    (byMain : Transition.StepsMeet step ByMain (start s_fiber_id s_fiber_count) calls) :
    Transition.EveryState step (Accounted s_fiber_count) (start s_fiber_id s_fiber_count) calls ∧
      (Transition.EveryState step (AbandonedDestroyed s_fiber_count)
          (start s_fiber_id s_fiber_count) calls ↔
        Transition.StepsMeet step DropsUnentered (start s_fiber_id s_fiber_count) calls) := by
  constructor
  · exact Transition.everyState_of_stepsMeet (fun _ sound => Sound.accounted sound)
      (fun _ _ _ sound stepped main => sound.step main nofun stepped)
      (start_sound False s_fiber_id s_fiber_count) byMain
  · refine Transition.everyState_iff_of_given (fun _ sound => Sound.abandonedDestroyed sound)
      (fun _ _ _ sound main stepped drops => sound.step main (fun _ => drops) stepped)
      (fun s call t sound main stepped kept => ?_) (fun s call sound main stuck => ?_)
      (start_sound True s_fiber_id s_fiber_count) byMain
    · refine sound.dropsUnentered main fun other same => ?_
      obtain rfl := Option.some.inj (stepped.symm.trans same)
      exact kept
    · refine sound.dropsUnentered main fun other same => ?_
      rw [stuck] at same
      cases same

instance (s : SharedFibers) : DecidablePred s.ByMain := fun call =>
  match running : s.system.control with
  | .threadExited _ => .isTrue fun _ runs => absurd (running.symm.trans runs) nofun
  | .running place =>
      decidable_of_iff (call ∈ [.code .YieldToReady, .code .YieldToHold, .code .returns,
          .code .throws] ∨ place.stack = mainFiber)
        ⟨fun allowed _ runs => Control.running.inj (running.symm.trans runs) ▸ allowed,
          fun all => all place running⟩

instance (base : Nat) : DecidablePred (AbandonedDestroyed base) := fun s =>
  decidable_of_iff ((∀ f < s.system.count, ¬ s.Executes f → ¬ s.Owned f → s.destroyed f = true) ∧
      s.system.s_fiber_count =
        base + Nat.count (fun f => s.Executes f ∨ s.Owned f) s.system.count)
    ⟨fun ⟨destroyed, counted⟩ => ⟨destroyed, counted⟩,
      fun ⟨destroyed, counted⟩ => ⟨destroyed, counted⟩⟩

/-- One fibre yields twice and the other is dropped before it has run. -/
theorem run_accounted_two_fibers :
    Transition.EveryState step (Accounted 0) (start 0 0)
        [.code .construct, .code .construct, .code (.swapIn 1), .code .YieldToReady, .drop 2,
          .code (.swapIn 1), .code .YieldToHold] ∧
      (Transition.EveryState step (AbandonedDestroyed 0) (start 0 0)
          [.code .construct, .code .construct, .code (.swapIn 1), .code .YieldToReady, .drop 2,
            .code (.swapIn 1), .code .YieldToHold] ↔
        Transition.StepsMeet step DropsUnentered (start 0 0)
          [.code .construct, .code .construct, .code (.swapIn 1), .code .YieldToReady, .drop 2,
            .code (.swapIn 1), .code .YieldToHold]) :=
  run_accounted 0 0 (by decide)

/-- The main fibre drops its only `shared_ptr` to a fibre that has yielded: the `cur` of
`MainFunc` and that of the yield keep the fibre. -/
theorem suspended_fiber_is_kept :
    Transition.StepsMeet step ByMain (start 0 0)
        [.code .construct, .code (.swapIn 1), .code .YieldToHold, .drop 1] ∧
      ¬ Transition.EveryState step (AbandonedDestroyed 0) (start 0 0)
        [.code .construct, .code (.swapIn 1), .code .YieldToHold, .drop 1] := by
  constructor
  · decide
  · decide

end Chord.SharedFibers
