import ChordServer.ThreadStart
import Mathlib.Tactic.Common

set_option autoImplicit false

namespace Chord

/-- `m_id` has been assigned. -/
def RunPoint.hasId : RunPoint → Bool
  | .identified | .titled | .swapped | .notified | .calling | .returned => true
  | _ => false

/-- `m_cb` has been moved out. -/
def RunPoint.hasCallback : RunPoint → Bool
  | .swapped | .notified | .calling | .returned => true
  | _ => false

/-- The semaphore has been posted. -/
def RunPoint.hasPosted : RunPoint → Bool
  | .notified | .calling | .returned => true
  | _ => false

/-- The callback has been called. -/
def RunPoint.hasCalled : RunPoint → Bool
  | .calling | .returned => true
  | _ => false

namespace ThreadStart

variable {κ : Type}

/-- What the statements of `run` so far have done to an object that lives. -/
structure RunSound (cb : Option κ) (s : ThreadStart κ) : Prop where
  id : s.run.hasId = true → s.thread.m_id = s.id
  unmoved : s.run.hasCallback = false → s.thread.m_cb = cb
  moved : s.run.hasCallback = true → s.thread.m_cb = none ∧ s.cb = cb
  unposted : s.run.hasPosted = false → s.thread.m_semaphore = 0

/-- The invariant of the runs in which no wait is interrupted too early. -/
structure Sound (cb : Option κ) (s : ThreadStart κ) : Prop where
  current : s.run ≠ .notStarted → s.run ≠ .entry → s.t_thread = true
  uncalled : s.run.hasCalled = false → s.invoked = []
  once : s.invoked.length ≤ 1
  creating : s.creator = .creating → s.run = .notStarted
  waiting : s.creator = .waiting → s.run ≠ .notStarted
  returned : s.creator = .returned → s.run.hasPosted = true
  threw : s.creator.hasThrown = true → s.run = .notStarted ∨ s.Finished
  lives : s.creator.hasThrown = false → RunSound cb s

variable {cb : Option κ} {s t : ThreadStart κ}

theorem start_sound (cb : Option κ) (name : String) : Sound cb (start cb name) :=
  ⟨fun apart => absurd rfl apart, fun _ => rfl, Nat.zero_le 1, fun _ => rfl, nofun, nofun, nofun,
    fun _ => ⟨nofun, fun _ => rfl, nofun, fun _ => rfl⟩⟩

/-- A thread that has not been started, or is finished, takes no step. -/
theorem runNext_eq_none (rests : s.run = .notStarted ∨ s.Finished) (stale : Thread κ) :
    s.runNext stale = none := by
  rcases rests with unstarted | returned | ⟨notified, empty⟩
  · rw [runNext, unstarted]
  · rw [runNext, returned]
  · simp only [runNext, notified, empty, Option.map_none]

/-- A statement of `run` on an object that lives. -/
theorem Sound.advance (sound : Sound cb s) (alive : s.creator.hasThrown = false)
    (begun : s.run ≠ .notStarted) (creator : t.creator = s.creator)
    (goes : t.run ≠ .notStarted) (current : t.run ≠ .entry → t.t_thread = true)
    (posted : s.run.hasPosted = true → t.run.hasPosted = true)
    (uncalled : t.run.hasCalled = false → t.invoked = []) (once : t.invoked.length ≤ 1)
    (lives : RunSound cb t) : Sound cb t := by
  refine ⟨fun _ => current, uncalled, once, fun creating => ?_, fun _ => goes,
    fun returned => ?_, fun thrown => ?_, fun _ => lives⟩
  · exact absurd (sound.creating (creator.symm.trans creating)) begun
  · exact posted (sound.returned (creator.symm.trans returned))
  · rw [creator, alive] at thrown
    cases thrown

theorem Sound.run (sound : Sound cb s) {stale : Thread κ} (stepped : s.runNext stale = some t) :
    Sound cb t := by
  have alive : s.creator.hasThrown = false := by
    by_contra thrown
    rw [runNext_eq_none (sound.threw (eq_true_of_ne_false thrown))] at stepped
    cases stepped
  obtain ⟨id, unmoved, moved, unposted⟩ := sound.lives alive
  have current := sound.current
  have uncalled := sound.uncalled
  simp only [runNext, pointee, store, alive, Bool.false_eq_true, if_false] at stepped
  cases point : s.run with
  | notStarted => simp [point] at stepped
  | returned => simp [point] at stepped
  | entry =>
    simp only [point] at stepped id unmoved moved unposted current uncalled
    cases stepped
    exact sound.advance alive (by rw [point]; exact nofun) rfl nofun (fun _ => rfl)
      (by rw [point]; exact nofun) (fun _ => uncalled rfl) sound.once
      ⟨nofun, fun _ => unmoved rfl, nofun, fun _ => unposted rfl⟩
  | current =>
    simp only [point] at stepped id unmoved moved unposted current uncalled
    cases stepped
    exact sound.advance alive (by rw [point]; exact nofun) rfl nofun (fun _ => current nofun nofun)
      (by rw [point]; exact nofun) (fun _ => uncalled rfl) sound.once
      ⟨nofun, fun _ => unmoved rfl, nofun, fun _ => unposted rfl⟩
  | named =>
    simp only [point] at stepped id unmoved moved unposted current uncalled
    cases stepped
    exact sound.advance alive (by rw [point]; exact nofun) rfl nofun (fun _ => current nofun nofun)
      (by rw [point]; exact nofun) (fun _ => uncalled rfl) sound.once
      ⟨fun _ => rfl, fun _ => unmoved rfl, nofun, fun _ => unposted rfl⟩
  | identified =>
    simp only [point] at stepped id unmoved moved unposted current uncalled
    cases stepped
    exact sound.advance alive (by rw [point]; exact nofun) rfl nofun (fun _ => current nofun nofun)
      (by rw [point]; exact nofun) (fun _ => uncalled rfl) sound.once
      ⟨fun _ => id rfl, fun _ => unmoved rfl, nofun, fun _ => unposted rfl⟩
  | titled =>
    simp only [point] at stepped id unmoved moved unposted current uncalled
    cases stepped
    exact sound.advance alive (by rw [point]; exact nofun) rfl nofun (fun _ => current nofun nofun)
      (by rw [point]; exact nofun) (fun _ => uncalled rfl) sound.once
      ⟨fun _ => id rfl, nofun, fun _ => ⟨rfl, unmoved rfl⟩, fun _ => unposted rfl⟩
  | swapped =>
    simp only [point] at stepped id unmoved moved unposted current uncalled
    cases stepped
    exact sound.advance alive (by rw [point]; exact nofun) rfl nofun (fun _ => current nofun nofun)
      (fun _ => rfl) (fun _ => uncalled rfl) sound.once
      ⟨fun _ => id rfl, nofun, fun _ => moved rfl, nofun⟩
  | notified =>
    simp only [point] at stepped id unmoved moved unposted current uncalled
    obtain ⟨callback, -, rfl⟩ := Option.map_eq_some_iff.mp stepped
    refine sound.advance alive (by rw [point]; exact nofun) rfl nofun
      (fun _ => current nofun nofun) (fun _ => rfl) nofun ?_
      ⟨fun _ => id rfl, nofun, fun _ => moved rfl, nofun⟩
    rw [uncalled rfl]
    exact Nat.le_refl 1
  | calling =>
    simp only [point] at stepped id unmoved moved unposted current uncalled
    cases stepped
    exact sound.advance alive (by rw [point]; exact nofun) rfl nofun (fun _ => current nofun nofun)
      (fun _ => rfl) nofun sound.once ⟨fun _ => id rfl, nofun, fun _ => moved rfl, nofun⟩

/-- What the callback does with the name changes nothing that matters here. -/
theorem SetName_spec (s : ThreadStart κ) (name : String) :
    (s.SetName name).run = s.run ∧ (s.SetName name).creator = s.creator ∧
      (s.SetName name).invoked = s.invoked ∧ (s.SetName name).t_thread = s.t_thread ∧
      (s.SetName name).id = s.id ∧ (s.SetName name).cb = s.cb ∧
      (s.SetName name).thread.m_id = s.thread.m_id ∧
      (s.SetName name).thread.m_cb = s.thread.m_cb ∧
      (s.SetName name).thread.m_semaphore = s.thread.m_semaphore := by
  unfold SetName store
  split_ifs <;> exact ⟨rfl, rfl, rfl, rfl, rfl, rfl, rfl, rfl, rfl⟩

theorem Sound.setName (sound : Sound cb s) (name : String) : Sound cb (s.SetName name) := by
  obtain ⟨run, creator, invoked, thread, id, callback, m_id, m_cb, value⟩ := SetName_spec s name
  refine ⟨?_, ?_, ?_, ?_, ?_, ?_, ?_, fun alive => ?_⟩
  · rw [run, thread]
    exact sound.current
  · rw [run, invoked]
    exact sound.uncalled
  · rw [invoked]
    exact sound.once
  · rw [creator, run]
    exact sound.creating
  · rw [creator, run]
    exact sound.waiting
  · rw [creator, run]
    exact sound.returned
  · rw [creator, Finished, run, callback]
    exact sound.threw
  · rw [creator] at alive
    obtain ⟨identified, unmoved, moved, unposted⟩ := sound.lives alive
    rw [← run, ← m_id, ← id] at identified
    rw [← run, ← m_cb] at unmoved moved
    rw [← callback] at moved
    rw [← run, ← value] at unposted
    exact ⟨identified, unmoved, moved, unposted⟩

theorem Sound.step (sound : Sound cb s) {action : Action κ} (quiet : s.Uninterrupted action)
    (stepped : s.step action = some t) : Sound cb t := by
  cases action with
  | create m_thread id =>
    obtain ⟨creating, same⟩ := Option.ite_none_right_eq_some.mp stepped
    cases same
    have unstarted := sound.creating creating
    obtain ⟨-, unmoved, -, unposted⟩ := sound.lives (by rw [creating]; rfl)
    rw [unstarted] at unmoved unposted
    have uncalled := sound.uncalled
    rw [unstarted] at uncalled
    exact ⟨fun _ apart => absurd rfl apart, fun _ => uncalled rfl, sound.once, nofun,
      fun _ => nofun, nofun, nofun,
      fun _ => ⟨nofun, fun _ => unmoved rfl, nofun, fun _ => unposted rfl⟩⟩
  | createFails =>
    obtain ⟨creating, same⟩ := Option.ite_none_right_eq_some.mp stepped
    cases same
    exact ⟨sound.current, sound.uncalled, sound.once, nofun, nofun, nofun,
      fun _ => .inl (sound.creating creating), nofun⟩
  | wait =>
    obtain ⟨waiting, result⟩ := Option.ite_none_right_eq_some.mp stepped
    obtain ⟨value, taken, rfl⟩ := Option.map_eq_some_iff.mp result
    obtain ⟨positive, -⟩ := Option.ite_none_right_eq_some.mp taken
    obtain ⟨id, unmoved, moved, unposted⟩ := sound.lives (by rw [waiting]; rfl)
    have posted : s.run.hasPosted = true := by
      by_contra before
      rw [unposted (eq_false_of_ne_true before)] at positive
      cases positive
    refine ⟨sound.current, sound.uncalled, sound.once, nofun, nofun, fun _ => posted, nofun,
      fun _ => ⟨id, unmoved, moved, fun before => ?_⟩⟩
    exact absurd (posted.symm.trans before) nofun
  | interrupted =>
    obtain ⟨waiting, same⟩ := Option.ite_none_right_eq_some.mp stepped
    cases same
    exact ⟨sound.current, sound.uncalled, sound.once, nofun, nofun, nofun,
      fun _ => .inr (quiet waiting), nofun⟩
  | run stale => exact sound.run stepped
  | SetName name =>
    obtain ⟨calling, same⟩ := Option.ite_none_right_eq_some.mp stepped
    cases same
    exact sound.setName name

/-- Once the semaphore is posted and the constructor has returned, `run` leaves the object
alone. -/
theorem never_runAccesses (returned : s.creator = .returned) (posted : s.run.hasPosted = true) :
    Never RunAccesses s := by
  have keeps : ∀ (u : ThreadStart κ) (action : Action κ) (v : ThreadStart κ),
      u.creator = .returned ∧ u.run.hasPosted = true → u.step action = some v →
      v.creator = .returned ∧ v.run.hasPosted = true := by
    rintro u action v ⟨returned, posted⟩ stepped
    cases action with
    | create m_thread id => simp [step, returned] at stepped
    | createFails => simp [step, returned] at stepped
    | wait => simp [step, returned] at stepped
    | interrupted => simp [step, returned] at stepped
    | SetName name =>
      obtain ⟨-, same⟩ := Option.ite_none_right_eq_some.mp stepped
      cases same
      obtain ⟨run, creator, -⟩ := SetName_spec u name
      rw [run, creator]
      exact ⟨returned, posted⟩
    | run stale =>
      simp only [step, runNext] at stepped
      cases point : u.run with
      | notified =>
        simp only [point] at stepped
        obtain ⟨callback, -, rfl⟩ := Option.map_eq_some_iff.mp stepped
        exact ⟨returned, rfl⟩
      | calling =>
        simp only [point] at stepped
        cases stepped
        exact ⟨returned, rfl⟩
      | returned => simp [point] at stepped
      | _ => simp [point, RunPoint.hasPosted] at posted
  refine Transition.stepsMeet_of_invariant keeps (fun u action held touches => ?_)
    ⟨returned, posted⟩
  cases action with
  | run stale =>
    have touches : u.run.touches = true := touches
    cases point : u.run <;> simp [point, RunPoint.hasPosted, RunPoint.touches] at held touches
  | _ => exact touches

/-- Nothing happens any more after the constructor has thrown and the thread is finished. -/
theorem never_accesses (thrown : s.creator.hasThrown = true)
    (rests : s.run = .notStarted ∨ s.Finished) : Never Accesses s := by
  have quiet : s.run ≠ .calling ∧ s.run.touches = false := by
    rcases rests with point | point | ⟨point, -⟩ <;> rw [point] <;> exact ⟨nofun, rfl⟩
  have stuck : ∀ action, s.step action = none := by
    have ended : s.creator ≠ .creating ∧ s.creator ≠ .waiting := by
      constructor <;> intro same <;> rw [same] at thrown <;> cases thrown
    intro action
    cases action with
    | create m_thread id => exact if_neg ended.1
    | createFails => exact if_neg ended.1
    | wait => exact if_neg ended.2
    | interrupted => exact if_neg ended.2
    | run stale => exact runNext_eq_none rests stale
    | SetName name => exact if_neg quiet.1
  intro actions
  cases actions with
  | nil => trivial
  | cons action rest =>
    have ends : ∀ next, s.step action ≠ some next := fun next stepped =>
      absurd ((stuck action).symm.trans stepped) nofun
    refine ⟨fun accesses => ?_, fun next stepped => absurd stepped (ends next)⟩
    cases action with
    | run stale =>
      have touches : s.run.touches = true := accesses
      rw [quiet.2] at touches
      cases touches
    | SetName name => exact quiet.1 accesses.1
    | _ => exact accesses

theorem Sound.safe (sound : Sound cb s) : Safe cb s := by
  refine ⟨fun returned => ?_, fun thrown => never_accesses thrown (sound.threw thrown), sound.once⟩
  have posted := sound.returned returned
  obtain ⟨id, -, moved, -⟩ := sound.lives (by rw [returned]; rfl)
  have later : s.run.hasId = true ∧ s.run.hasCallback = true := by
    cases point : s.run <;> simp [point, RunPoint.hasPosted] at posted <;> exact ⟨rfl, rfl⟩
  exact ⟨id later.1, (moved later.2).1, (moved later.2).2, never_runAccesses returned posted⟩

/-- A thread that has been started and is not finished can access the object. -/
theorem Sound.finished_of_never (sound : Sound cb s) (started : s.run ≠ .notStarted)
    (never : Never Accesses t) (same : t.run = s.run ∧ t.cb = s.cb ∧ t.t_thread = s.t_thread) :
    s.Finished := by
  obtain ⟨run, callback, thread⟩ := same
  cases point : s.run with
  | notStarted => exact absurd point started
  | returned => exact .inl point
  | entry =>
    rw [point] at run
    have stepped : t.step (.run t.thread) = some { t with t_thread := true, run := .current } := by
      simp only [ThreadStart.step, runNext, run]
    exact absurd rfl ((never [.run t.thread, .run t.thread]).2 _ stepped).1
  | calling =>
    have known := sound.current (by rw [point]; exact nofun) (by rw [point]; exact nofun)
    exact absurd ⟨run.trans point, thread.trans known, by decide⟩ (never [.SetName "name"]).1
  | notified =>
    rw [point] at run
    have known := sound.current (by rw [point]; exact nofun) (by rw [point]; exact nofun)
    cases function : s.cb with
    | none => exact .inr ⟨point, function⟩
    | some cb =>
      have stepped : t.step (.run t.thread) =
          some { t with invoked := t.invoked ++ [cb], run := .calling } := by
        simp only [ThreadStart.step, runNext, run, callback, function, Option.map_some]
      exact absurd ⟨rfl, thread.trans known, by decide⟩
        ((never [.run t.thread, .SetName "name"]).2 _ stepped).1
  | _ =>
    rw [point] at run
    have accesses : Accesses t (.run t.thread) := congrArg RunPoint.touches run
    exact absurd accesses (never [.run t.thread]).1

/-- The start of a thread is safe in every state of a run exactly if `sem_wait` is nowhere
interrupted before the started thread is finished. -/
theorem safe_iff_uninterrupted (cb : Option κ) (name : String) (actions : List (Action κ)) :
    Transition.EveryState step (Safe cb) (start cb name) actions ↔
      Transition.StepsMeet step Uninterrupted (start cb name) actions := by
  refine Transition.everyState_iff_stepsMeet (fun _ sound => Sound.safe sound)
    (fun _ _ _ sound stepped quiet => sound.step quiet stepped)
    (fun s action t sound stepped safe => ?_) (fun s action sound blocked => ?_)
    (start_sound cb name)
  · cases action with
    | interrupted =>
      intro waiting
      rw [step, if_pos waiting] at stepped
      cases stepped
      exact sound.finished_of_never (sound.waiting waiting) (safe.threw rfl) ⟨rfl, rfl, rfl⟩
    | _ => trivial
  · cases action with
    | interrupted =>
      intro waiting
      rw [step, if_pos waiting] at blocked
      cases blocked
    | _ => trivial

/-- A signal interrupts the wait when the thread has just been started: the constructor
throws and the members are destroyed, and `run` has not even read its name. -/
theorem interrupted_wait_is_unsafe :
    ¬ Transition.EveryState step (Safe (some ())) (start (some ()) "worker")
      [.create 1 7, .interrupted] := by
  intro every
  have thrown := (every [.create 1 7, .interrupted] [] { start (some ()) "worker" with
      thread := { (start (some ()) "worker").thread with m_thread := 1 }
      creator := .threw "sem_wait error", run := .entry, id := 7 } rfl rfl).threw rfl
  have stale : Thread Unit := { m_cb := none, m_name := "" }
  exact ((thrown [.run stale, .run stale]).2 _ rfl).1 rfl

end ThreadStart

end Chord
