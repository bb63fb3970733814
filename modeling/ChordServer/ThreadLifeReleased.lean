import ChordServer.ThreadLife

set_option autoImplicit false

namespace Chord

namespace ThreadStart

variable {κ : Type} {cb : Option κ} {s t : ThreadStart κ}

/-- What a step does to the handle and to the constructor. -/
theorem step_handle {action : Action κ} (stepped : s.step action = some t) :
    (t.creator = s.creator ∧ t.thread.m_thread = s.thread.m_thread) ∨
    (∃ m_thread id, action = .create m_thread id ∧ s.creator = .creating ∧
      t.creator = .waiting ∧ t.thread.m_thread = m_thread) ∨
    (s.creator = .waiting ∧ t.creator = .returned ∧
      t.thread.m_thread = s.thread.m_thread) ∨
    s.creator ≠ .returned ∧ t.creator.hasThrown = true := by
  cases action with
  | create m_thread id =>
    obtain ⟨creating, same⟩ := Option.ite_none_right_eq_some.mp stepped
    cases same
    exact .inr (.inl ⟨m_thread, id, rfl, creating, rfl, rfl⟩)
  | createFails =>
    obtain ⟨creating, same⟩ := Option.ite_none_right_eq_some.mp stepped
    cases same
    exact .inr (.inr (.inr ⟨by rw [creating]; exact nofun, rfl⟩))
  | wait =>
    obtain ⟨waiting, result⟩ := Option.ite_none_right_eq_some.mp stepped
    obtain ⟨value, -, rfl⟩ := Option.map_eq_some_iff.mp result
    exact .inr (.inr (.inl ⟨waiting, rfl, rfl⟩))
  | interrupted =>
    obtain ⟨waiting, same⟩ := Option.ite_none_right_eq_some.mp stepped
    cases same
    exact .inr (.inr (.inr ⟨by rw [waiting]; exact nofun, rfl⟩))
  | run stale =>
    apply Or.inl
    simp only [step, runNext, pointee, store] at stepped
    cases point : s.run <;> simp only [point] at stepped
    case notStarted | returned => cases stepped
    case notified =>
      obtain ⟨callback, -, rfl⟩ := Option.map_eq_some_iff.mp stepped
      exact ⟨rfl, rfl⟩
    case entry | calling =>
      cases stepped
      exact ⟨rfl, rfl⟩
    all_goals
      cases stepped
      split <;> exact ⟨rfl, rfl⟩
  | SetName name =>
    obtain ⟨-, same⟩ := Option.ite_none_right_eq_some.mp stepped
    cases same
    apply Or.inl
    unfold SetName store
    split_ifs <;> exact ⟨rfl, rfl⟩

theorem step_returned {action : Action κ} (stepped : s.step action = some t)
    (returned : s.run = .returned) (constructed : s.creator = .returned) : t.run = .returned := by
  cases action with
  | create m_thread id => simp [step, constructed] at stepped
  | createFails => simp [step, constructed] at stepped
  | wait => simp [step, constructed] at stepped
  | interrupted => simp [step, constructed] at stepped
  | run stale => simp [step, runNext, returned] at stepped
  | SetName name => simp [step, returned] at stepped

/-- After the semaphore is posted `run` neither reads nor writes the object. -/
theorem runNext_posted (posted : s.run.hasPosted = true) (thread stale stale' : Thread κ) :
    (({ s with thread := thread } : ThreadStart κ).runNext stale).map
      (fun next => { next with thread := s.thread }) = s.runNext stale' := by
  unfold runNext
  cases point : s.run <;> simp only [point, RunPoint.hasPosted, Bool.false_eq_true] at posted
  case notified => simp [Option.map_map, Function.comp_def]
  case calling => rfl
  case returned => rfl

theorem Sound.named (sound : Sound cb s) (name : String) :
    Sound cb { s with t_thread_name := name } :=
  ⟨sound.current, sound.uncalled, sound.once, sound.creating, sound.waiting, sound.returned,
    sound.threw, fun alive => ⟨(sound.lives alive).id, (sound.lives alive).unmoved,
      (sound.lives alive).moved, (sound.lives alive).unposted⟩⟩

theorem Sound.cleared (sound : Sound cb s) :
    Sound cb { s with thread := { s.thread with m_thread := 0 } } :=
  ⟨sound.current, sound.uncalled, sound.once, sound.creating, sound.waiting, sound.returned,
    sound.threw, fun alive => ⟨(sound.lives alive).id, (sound.lives alive).unmoved,
      (sound.lives alive).moved, (sound.lives alive).unposted⟩⟩

/-- Of what `SetName` does, all but the name of the thread is in the object. -/
theorem SetName_restored (s : ThreadStart κ) (name : String) :
    ({ s.SetName name with thread := s.thread } : ThreadStart κ) =
      { s with t_thread_name := if name = "" then s.t_thread_name else name } := by
  unfold SetName store
  split_ifs <;> rfl

end ThreadStart

namespace ThreadLife

variable {κ : Type} {cb : Option κ} {s t : ThreadLife κ}

theorem startStep_alive (alive : s.destroyed = false) (action : ThreadStart.Action κ) :
    s.startStep action = s.start.step action := by
  have found : s.found action = s.start := by
    cases action with
    | run stale => simp [ThreadLife.found, alive]
    | _ => rfl
  rw [startStep, found, alive]
  simp

/-- What a step of the constructor or of the started thread does to the handle. -/
theorem startStep_handle {action : ThreadStart.Action κ} {start : ThreadStart κ}
    (constructed : s.destroyed = true → s.start.creator = .returned)
    (stepped : s.startStep action = some start) :
    (start.creator = s.start.creator ∧ start.thread.m_thread = s.start.thread.m_thread) ∨
    (∃ m_thread id, action = .create m_thread id ∧ s.start.creator = .creating ∧
      start.creator = .waiting ∧ start.thread.m_thread = m_thread) ∨
    (s.start.creator = .waiting ∧ start.creator = .returned ∧
      start.thread.m_thread = s.start.thread.m_thread) ∨
    s.start.creator ≠ .returned ∧ start.creator.hasThrown = true := by
  cases destroyed : s.destroyed with
  | false =>
    rw [startStep_alive destroyed] at stepped
    exact ThreadStart.step_handle stepped
  | true =>
    obtain ⟨next, ran, rfl⟩ := Option.map_eq_some_iff.mp stepped
    have creator : (s.found action).creator = s.start.creator := by
      cases action with
      | run stale => simp [found, destroyed]
      | _ => rfl
    have returned := constructed destroyed
    rw [if_pos destroyed]
    rcases ThreadStart.step_handle ran with same | ⟨_, _, -, creating, -⟩ | waits | thrown
    · exact .inl ⟨same.1.trans creator, rfl⟩
    · rw [creator, returned] at creating
      cases creating
    · rw [creator, returned] at waits
      cases waits.1
    · rw [creator] at thrown
      exact absurd returned thrown.1

theorem startStep_returned {action : ThreadStart.Action κ} {start : ThreadStart κ}
    (stepped : s.startStep action = some start) (returned : s.start.run = .returned)
    (constructed : s.start.creator = .returned) : start.run = .returned := by
  obtain ⟨next, ran, rfl⟩ := Option.map_eq_some_iff.mp stepped
  have same : (s.found action).run = s.start.run ∧
      (s.found action).creator = s.start.creator := by
    cases action with
    | run stale => cases destroyed : s.destroyed <;> simp [found, destroyed]
    | _ => exact ⟨rfl, rfl⟩
  have ended := ThreadStart.step_returned ran (same.1.trans returned)
    (same.2.trans constructed)
  split <;> exact ended

/-- After the destruction there is only the callback, and what it does with the name. -/
theorem startStep_destroyed {action : ThreadStart.Action κ} {start : ThreadStart κ}
    (destroyed : s.destroyed = true) (returned : s.start.creator = .returned)
    (posted : s.start.run.hasPosted = true) (stepped : s.startStep action = some start) :
    (∃ stale, action = .run stale ∧ s.start.runNext stale = some start) ∨
    ∃ name, action = .SetName name ∧ s.start.run = .calling ∧
      start = { s.start with
        t_thread_name := if name = "" then s.start.t_thread_name else name } := by
  obtain ⟨next, ran, rfl⟩ := Option.map_eq_some_iff.mp stepped
  rw [if_pos destroyed]
  cases action with
  | create m_thread id => simp [found, ThreadStart.step, returned] at ran
  | createFails => simp [found, ThreadStart.step, returned] at ran
  | wait => simp [found, ThreadStart.step, returned] at ran
  | interrupted => simp [found, ThreadStart.step, returned] at ran
  | run stale =>
    refine .inl ⟨stale, rfl, ?_⟩
    have untouched := ThreadStart.runNext_posted posted stale stale stale
    have ran : ({ s.start with thread := stale } : ThreadStart κ).runNext stale = some next := by
      rw [found, if_pos destroyed] at ran
      exact ran
    rw [ran, Option.map_some] at untouched
    exact untouched.symm
  | SetName name =>
    obtain ⟨calling, same⟩ := Option.ite_none_right_eq_some.mp ran
    cases same
    exact .inr ⟨name, rfl, calling, s.start.SetName_restored name⟩

/-- What the started thread does is as safe after the destruction as before it. -/
theorem startStep_sound {action : ThreadStart.Action κ} {start : ThreadStart κ}
    (sound : ThreadStart.Sound cb s.start)
    (constructed : s.destroyed = true → s.start.creator = .returned)
    (quiet : s.start.Uninterrupted action) (stepped : s.startStep action = some start) :
    ThreadStart.Sound cb start := by
  cases destroyed : s.destroyed with
  | false =>
    rw [startStep_alive destroyed] at stepped
    exact sound.step quiet stepped
  | true =>
    have returned := constructed destroyed
    rcases startStep_destroyed destroyed returned (sound.returned returned) stepped with
      ⟨stale, -, ran⟩ | ⟨name, -, -, rfl⟩
    · exact sound.run ran
    · exact sound.named _

/-- Who sees to the handle while all calls are in turn: the constructor, the object, a call of
`join()` before and after `pthread_join` returns, or nobody any more. -/
inductive Custody
  | constructor
  | object
  | waits (caller : Nat)
  | joined (caller : Nat)
  | cleared
  | destroyed (how : Release)

namespace Custody

def joins : Custody → Nat → JoinPoint
  | .waits caller, i => if i = caller then .waiting else .idle
  | .joined caller, i => if i = caller then .joined else .idle
  | _, _ => .idle

def released : Custody → List Release
  | .joined _ | .cleared => [.joined]
  | .destroyed how => [how]
  | _ => []

def gone : Custody → Bool
  | .destroyed _ => true
  | _ => false

/-- `m_thread` is not 0. -/
def held : Custody → Bool
  | .object | .waits _ | .joined _ => true
  | _ => false

end Custody

/-- The state is as the custody says. -/
structure Holds (cb : Option κ) (s : ThreadLife κ) (custody : Custody) : Prop where
  sound : ThreadStart.Sound cb s.start
  joins : ∀ i, s.joins i = custody.joins i
  released : s.released = custody.released
  destroyed : s.destroyed = custody.gone
  constructed : s.start.creator = .returned ↔ custody ≠ .constructor
  created : s.start.creator = .waiting → s.start.thread.m_thread ≠ 0
  held : custody.held = true → s.start.thread.m_thread ≠ 0
  cleared : custody = .cleared → s.start.thread.m_thread = 0
  ended : .joined ∈ custody.released → s.start.run = .returned

variable {custody : Custody}

theorem Holds.waiting_iff (holds : s.Holds cb custody) {caller : Nat} :
    s.joins caller = .waiting ↔ custody = .waits caller := by
  rw [holds.joins]
  cases custody with
  | waits i | joined i =>
    simp only [Custody.joins]
    split <;> simp_all [eq_comm]
  | _ => simp [Custody.joins]

theorem Holds.joined_iff (holds : s.Holds cb custody) {caller : Nat} :
    s.joins caller = .joined ↔ custody = .joined caller := by
  rw [holds.joins]
  cases custody with
  | waits i | joined i =>
    simp only [Custody.joins]
    split <;> simp_all [eq_comm]
  | _ => simp [Custody.joins]

/-- With all calls in turn, nobody is in `join()` when a call of it or the destructor begins. -/
theorem Holds.idle_iff (holds : s.Holds cb custody) :
    (∀ i, s.joins i = .idle) ↔ ∀ i, custody ≠ .waits i ∧ custody ≠ .joined i := by
  refine forall_congr' fun i => ?_
  have waiting : s.joins i = .waiting ↔ custody = .waits i := holds.waiting_iff
  have joined : s.joins i = .joined ↔ custody = .joined i := holds.joined_iff
  cases point : s.joins i <;> simp_all

theorem Holds.returned_of_destroyed (holds : s.Holds cb custody) (destroyed : s.destroyed = true) :
    s.start.creator = .returned := by
  apply holds.constructed.mpr
  rintro rfl
  cases holds.destroyed.symm.trans destroyed

/-- A step of the constructor or of the started thread leaves the custody as it is, or ends that
of the constructor. -/
theorem Holds.startStep (holds : s.Holds cb custody) {action : ThreadStart.Action κ}
    (undisturbed : s.Undisturbed (.start action)) {start : ThreadStart κ}
    (stepped : s.startStep action = some start) :
    ∃ next, ({ s with start := start } : ThreadLife κ).Holds cb next := by
  have constructed := holds.returned_of_destroyed
  have quiet : s.start.Uninterrupted action := by
    cases action with
    | create m_thread id => trivial
    | _ => exact undisturbed
  have sound := startStep_sound holds.sound constructed quiet stepped
  have ended : .joined ∈ custody.released → start.run = .returned := by
    intro member
    apply startStep_returned stepped (holds.ended member)
    apply holds.constructed.mpr
    rintro rfl
    cases member
  have unconstructed : s.start.creator ≠ .returned → custody = .constructor := fun before =>
    not_not.mp fun apart => before (holds.constructed.mpr apart)
  rcases startStep_handle constructed stepped with ⟨creator, m_thread⟩ |
    ⟨m_thread, id, rfl, creating, creator, handle⟩ | ⟨waiting, creator, handle⟩ |
    ⟨before, thrown⟩
  · refine ⟨custody, sound, holds.joins, holds.released, holds.destroyed, ?_, ?_, ?_, ?_, ended⟩
    · rw [creator]
      exact holds.constructed
    · rw [creator, m_thread]
      exact holds.created
    · rw [m_thread]
      exact holds.held
    · rw [m_thread]
      exact holds.cleared
  · obtain rfl := unconstructed (by rw [creating]; exact nofun)
    refine ⟨.constructor, sound, holds.joins, holds.released, holds.destroyed, ?_, ?_, nofun, nofun,
      nofun⟩
    · rw [creator]
      exact iff_of_false nofun fun apart => apart rfl
    · rw [handle]
      exact fun _ => undisturbed
  · obtain rfl := unconstructed (by rw [waiting]; exact nofun)
    refine ⟨.object, sound, holds.joins, holds.released, holds.destroyed, ?_, ?_, ?_, nofun, nofun⟩
    · exact iff_of_true creator nofun
    · rw [creator]
      exact nofun
    · rw [handle]
      exact fun _ => holds.created waiting
  · obtain rfl := unconstructed before
    have unreturned : start.creator ≠ .returned ∧ start.creator ≠ .waiting := by
      constructor <;> intro same <;> rw [same] at thrown <;> cases thrown
    exact ⟨.constructor, sound, holds.joins, holds.released, holds.destroyed,
      iff_of_false unreturned.1 fun apart => apart rfl, fun waits => absurd waits unreturned.2,
      nofun, nofun, nofun⟩

/-- With all calls in turn a step hands the handle on. -/
theorem Holds.step (holds : s.Holds cb custody) {action : Action κ}
    (undisturbed : s.Undisturbed action) (inTurn : s.InTurn action)
    (stepped : s.step action = some t) : ∃ next, t.Holds cb next := by
  cases action with
  | start action =>
    obtain ⟨start, ran, rfl⟩ := Option.map_eq_some_iff.mp stepped
    exact holds.startStep undisturbed ran
  | join caller =>
    obtain ⟨⟨returned, alive, -⟩, result⟩ := Option.ite_none_right_eq_some.mp stepped
    have idle := holds.idle_iff.mp inTurn.2
    by_cases handle : s.start.thread.m_thread = 0
    · rw [if_neg (not_not.mpr handle)] at result
      cases result
      exact ⟨custody, holds⟩
    · rw [if_pos handle] at result
      cases result
      have joins : ∀ i, s.joins i = .idle := inTurn.2
      have unreleased : s.released = [] := by
        rw [holds.released]
        cases custody with
        | joined i => exact absurd rfl (idle i).2
        | cleared => exact absurd (holds.cleared rfl) handle
        | destroyed how => cases holds.destroyed.symm.trans alive
        | _ => rfl
      refine ⟨.waits caller, holds.sound, fun i => ?_, unreleased, alive,
        iff_of_true returned nofun, holds.created, fun _ => handle, nofun, nofun⟩
      show Function.update s.joins caller .waiting i = _
      simp only [Function.update_apply, Custody.joins, joins]
  | joined caller =>
    obtain ⟨⟨waiting, ended⟩, result⟩ := Option.ite_none_right_eq_some.mp stepped
    cases result
    obtain rfl := holds.waiting_iff.mp waiting
    refine ⟨.joined caller, holds.sound, fun i => ?_, ?_, holds.destroyed,
      iff_of_true (holds.constructed.mpr nofun) nofun, holds.created, fun _ => holds.held rfl,
      nofun, fun _ => ended⟩
    · show Function.update s.joins caller .joined i = _
      simp only [Function.update_apply, Custody.joins, holds.joins]
      split <;> rfl
    · show s.released ++ [.joined] = [.joined]
      rw [holds.released]
      rfl
  | joinFails caller =>
    obtain ⟨waiting, result⟩ := Option.ite_none_right_eq_some.mp stepped
    cases result
    obtain rfl := holds.waiting_iff.mp waiting
    refine ⟨.object, holds.sound, fun i => ?_, holds.released, holds.destroyed,
      iff_of_true (holds.constructed.mpr nofun) nofun, holds.created, fun _ => holds.held rfl,
      nofun, nofun⟩
    show Function.update s.joins caller .idle i = _
    simp only [Function.update_apply, Custody.joins, holds.joins]
    split <;> rfl
  | clear caller =>
    obtain ⟨joined, result⟩ := Option.ite_none_right_eq_some.mp stepped
    cases result
    obtain rfl := holds.joined_iff.mp joined
    have alive : s.destroyed = false := holds.destroyed
    have returned := holds.constructed.mpr nofun
    have cleared : (s.clear caller).start =
        { s.start with thread := { s.start.thread with m_thread := 0 } } := by
      simp [clear, alive]
    refine ⟨.cleared, ?_, fun i => ?_, holds.released, alive, ?_, ?_, nofun, ?_, ?_⟩
    · rw [cleared]
      exact holds.sound.cleared
    · show Function.update s.joins caller .idle i = _
      simp only [Function.update_apply, Custody.joins, holds.joins]
      split <;> rfl
    · rw [cleared]
      exact iff_of_true returned nofun
    · rw [cleared]
      exact fun waiting => absurd (returned.symm.trans waiting) nofun
    · rw [cleared]
      exact fun _ => rfl
    · rw [cleared]
      exact fun _ => holds.ended List.mem_cons_self
  | destroy =>
    obtain ⟨⟨returned, alive⟩, result⟩ := Option.ite_none_right_eq_some.mp stepped
    cases result
    have idle := holds.idle_iff.mp inTurn.2
    have joins : ∀ i, s.joins i = .idle := inTurn.2
    cases custody with
    | constructor => exact absurd rfl (holds.constructed.mp returned)
    | object =>
      refine ⟨.destroyed .detached, holds.sound, joins, ?_, rfl, iff_of_true returned nofun,
        holds.created, nofun, nofun, nofun⟩
      simp [destroy, holds.held rfl, holds.released, Custody.released]
    | waits i => exact absurd rfl (idle i).1
    | joined i => exact absurd rfl (idle i).2
    | cleared =>
      refine ⟨.destroyed .joined, holds.sound, joins, ?_, rfl, iff_of_true returned nofun,
        holds.created, nofun, nofun, fun _ => holds.ended List.mem_cons_self⟩
      simp [destroy, holds.cleared rfl, holds.released, Custody.released]
    | destroyed how => cases holds.destroyed.symm.trans alive

theorem Holds.kept (holds : s.Holds cb custody) : s.Kept := by
  have ended := holds.ended
  refine ⟨?_, fun member => ended (holds.released ▸ member), fun before => ?_, ?_, ?_⟩
  · rw [holds.released]
    cases custody <;> simp [Custody.released]
  · have constructor : custody = .constructor :=
      not_not.mp fun apart => before (holds.constructed.mpr apart)
    rw [holds.released, constructor]
    rfl
  · intro returned alive joins
    have idle := holds.idle_iff.mp joins
    rw [holds.released]
    cases custody with
    | constructor => exact absurd rfl (holds.constructed.mp returned)
    | object => exact iff_of_true (holds.held rfl) rfl
    | waits i => exact absurd rfl (idle i).1
    | joined i => exact absurd rfl (idle i).2
    | cleared => exact iff_of_false (fun held => held (holds.cleared rfl)) nofun
    | destroyed how => cases holds.destroyed.symm.trans alive
  · intro destroyed
    rw [holds.destroyed] at destroyed
    rw [holds.released]
    cases custody with
    | destroyed how => exact ⟨how, rfl⟩
    | _ => cases destroyed

end ThreadLife

end Chord
