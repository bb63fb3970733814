import ChordServer.ThreadLifeReleased

set_option autoImplicit false

namespace Chord

/-- `t_thread_name` has been assigned. -/
def RunPoint.hasName : RunPoint → Bool
  | .notStarted | .entry | .current => false
  | _ => true

/-- The system has been told the name. -/
def RunPoint.hasTitle : RunPoint → Bool
  | .notStarted | .entry | .current | .named | .identified => false
  | _ => true

namespace ThreadStart

variable {κ : Type} {cb : Option κ} {s t : ThreadStart κ} {name : String} {lives : Prop}

/-- The names of a started thread whose constructor got `name`. -/
structure Called (name : String) (lives : Prop) (s : ThreadStart κ) : Prop where
  first : s.run.hasCalled = false → lives → s.thread.m_name = name
  current : s.run.hasName = true → lives → s.t_thread_name = s.thread.m_name
  title : s.run.hasTitle = true → s.title = name.toUTF8.toList.take 15

/-- No statement of `run` but those that assign them changes the names. -/
theorem Called.run (called : s.Called name lives) (alive : s.creator.hasThrown = false)
    (unposted : s.run.hasPosted = false → lives) {stale : Thread κ}
    (stepped : s.runNext stale = some t) : t.Called name lives := by
  obtain ⟨first, current, title⟩ := called
  simp only [runNext, pointee, store, alive, Bool.false_eq_true, if_false] at stepped
  cases point : s.run with
  | notStarted => simp [point] at stepped
  | returned => simp [point] at stepped
  | notified =>
    simp only [point] at stepped first current title
    obtain ⟨callback, -, rfl⟩ := Option.map_eq_some_iff.mp stepped
    exact ⟨by rintro ⟨⟩, fun _ => current rfl, fun _ => title rfl⟩
  | calling =>
    simp only [point] at stepped first current title
    cases stepped
    exact ⟨by rintro ⟨⟩, fun _ => current rfl, fun _ => title rfl⟩
  | entry =>
    simp only [point] at stepped first
    cases stepped
    exact ⟨fun _ => first rfl, by rintro ⟨⟩, by rintro ⟨⟩⟩
  | current =>
    simp only [point] at stepped first
    cases stepped
    exact ⟨fun _ => first rfl, fun _ _ => rfl, by rintro ⟨⟩⟩
  | named =>
    simp only [point] at stepped first current
    cases stepped
    exact ⟨fun _ => first rfl, fun _ => current rfl, by rintro ⟨⟩⟩
  | identified =>
    simp only [point] at stepped first current unposted
    cases stepped
    refine ⟨fun _ => first rfl, fun _ => current rfl, fun _ => ?_⟩
    rw [← first rfl (unposted rfl)]
  | titled =>
    simp only [point] at stepped first current title
    cases stepped
    exact ⟨fun _ => first rfl, fun _ => current rfl, fun _ => title rfl⟩
  | swapped =>
    simp only [point] at stepped first current title
    cases stepped
    exact ⟨fun _ => first rfl, fun _ => current rfl, fun _ => title rfl⟩

/-- `SetName` gives both names to the thread that calls it, and none to the system. -/
theorem Called.setName (called : s.Called name lives) (calling : s.run = .calling)
    (known : s.t_thread = true) (alive : s.creator.hasThrown = false) (other : String) :
    (s.SetName other).Called name lives := by
  have title := called.title
  have current := called.current
  rw [calling] at title current
  unfold SetName store
  by_cases empty : other = ""
  · rw [if_pos empty]
    exact called
  · rw [if_neg empty, if_pos known, if_neg (by simp [alive])]
    refine ⟨fun uncalled => ?_, fun _ _ => rfl, fun _ => title rfl⟩
    rw [show s.run = .calling from calling] at uncalled
    cases uncalled

theorem Called.imp (called : s.Called name lives) {lives' : Prop} (still : lives' → lives) :
    s.Called name lives' :=
  ⟨fun uncalled lives => called.first uncalled (still lives),
    fun assigned lives => called.current assigned (still lives), called.title⟩

/-- The steps of the constructor, of `run` and of the callback keep to the names. -/
theorem Called.step (called : s.Called name (s.creator.hasThrown = false)) (sound : Sound cb s)
    {action : Action κ} (stepped : s.step action = some t) :
    t.Called name (t.creator.hasThrown = false) := by
  have resting : s.creator.hasThrown = true →
      s.run ≠ .calling ∧ ∀ stale, s.runNext stale = none := by
    intro thrown
    have rests := sound.threw thrown
    refine ⟨?_, runNext_eq_none rests⟩
    rcases rests with point | point | ⟨point, -⟩ <;> rw [point] <;> exact nofun
  cases action with
  | create m_thread id =>
    obtain ⟨creating, same⟩ := Option.ite_none_right_eq_some.mp stepped
    cases same
    have unstarted : s.run.hasCalled = false := by rw [sound.creating creating]; rfl
    exact ⟨fun _ _ => called.first unstarted (by rw [creating]; rfl), nofun, nofun⟩
  | createFails =>
    obtain ⟨-, same⟩ := Option.ite_none_right_eq_some.mp stepped
    cases same
    exact ⟨nofun, nofun, called.title⟩
  | wait =>
    obtain ⟨waiting, result⟩ := Option.ite_none_right_eq_some.mp stepped
    obtain ⟨value, -, rfl⟩ := Option.map_eq_some_iff.mp result
    have alive : s.creator.hasThrown = false := by rw [waiting]; rfl
    exact ⟨fun uncalled _ => called.first uncalled alive,
      fun assigned _ => called.current assigned alive, called.title⟩
  | interrupted =>
    obtain ⟨-, same⟩ := Option.ite_none_right_eq_some.mp stepped
    cases same
    exact ⟨nofun, nofun, called.title⟩
  | run stale =>
    have alive : s.creator.hasThrown = false := by
      by_contra thrown
      cases ((resting (eq_true_of_ne_false thrown)).2 stale).symm.trans stepped
    exact (called.run alive (fun _ => alive) stepped).imp fun _ => alive
  | SetName other =>
    obtain ⟨calling, same⟩ := Option.ite_none_right_eq_some.mp stepped
    cases same
    have alive : s.creator.hasThrown = false := by
      by_contra thrown
      exact (resting (eq_true_of_ne_false thrown)).1 calling
    have known : s.t_thread = true := sound.current (by rw [calling]; exact nofun)
      (by rw [calling]; exact nofun)
    exact (called.setName calling known alive other).imp fun _ => alive

end ThreadStart

namespace ThreadLife

variable {κ : Type} {cb : Option κ} {s t : ThreadLife κ} {name : String}

/-- The name that the constructor stores. -/
def givenName (name : String) : String := if name = "" then "UNKNOW" else name

/-- What the callback finds out about its thread: `GetThis()` is the object, `GetName()` is what
`getName()` says as long as there is one, `getId()` is `GetThreadId()`, and the system shows the
first 15 bytes of the name that the constructor got. -/
structure Named (name : String) (s : ThreadLife κ) : Prop where
  this : s.start.run = .calling → s.start.t_thread = true
  current : s.start.run = .calling → s.Lives → s.start.t_thread_name = s.start.thread.m_name
  id : s.start.run = .calling → s.Lives → s.start.thread.m_id = s.start.id
  title : s.start.run = .calling → s.start.title = (givenName name).toUTF8.toList.take 15

/-- The invariant, which says nothing about the calls of `join()`. -/
structure Steady (cb : Option κ) (name : String) (s : ThreadLife κ) : Prop where
  sound : ThreadStart.Sound cb s.start
  constructed : s.destroyed = true → s.start.creator = .returned
  called : s.start.Called (givenName name) s.Lives

theorem Steady.start (steady : s.Steady cb name) {action : ThreadStart.Action κ}
    (undisturbed : s.Undisturbed (.start action)) {start : ThreadStart κ}
    (stepped : s.startStep action = some start) :
    ({ s with start := start } : ThreadLife κ).Steady cb name := by
  obtain ⟨sound, constructed, called⟩ := steady
  have quiet : s.start.Uninterrupted action := by
    cases action with
    | create m_thread id => trivial
    | _ => exact undisturbed
  have kept := startStep_sound sound constructed quiet stepped
  rcases Bool.eq_false_or_eq_true s.destroyed with destroyed | destroyed
  · have returned := constructed destroyed
    have alive : s.start.creator.hasThrown = false := by rw [returned]; rfl
    have posted := sound.returned returned
    have gone : ∀ start, ¬ ({ s with start := start } : ThreadLife κ).Lives :=
      fun start lives => absurd (lives.1.symm.trans destroyed) nofun
    rcases startStep_destroyed destroyed returned posted stepped with
      ⟨stale, -, ran⟩ | ⟨other, -, calling, rfl⟩
    · have later := called.run alive (fun before => nomatch posted.symm.trans before) ran
      refine ⟨kept, fun _ => ?_, later.imp fun lives => absurd lives (gone start)⟩
      rcases startStep_handle constructed stepped with same | ⟨_, _, -, creating, -⟩ |
        ⟨waiting, -⟩ | ⟨before, -⟩
      · exact same.1.trans returned
      · cases creating.symm.trans returned
      · cases waiting.symm.trans returned
      · exact absurd returned before
    · exact ⟨kept, fun _ => returned, fun _ lives => absurd lives (gone _),
        fun _ lives => absurd lives (gone _), called.title⟩
  · rw [startStep_alive destroyed] at stepped
    have before : s.start.Called (givenName name) (s.start.creator.hasThrown = false) :=
      called.imp fun alive => ⟨destroyed, alive⟩
    exact ⟨kept, fun gone => absurd (destroyed.symm.trans gone) nofun,
      (before.step sound stepped).imp And.right⟩

/-- What the callers and the destructor do changes no name. -/
theorem Steady.step (steady : s.Steady cb name) {action : Action κ}
    (undisturbed : s.Undisturbed action) (stepped : s.step action = some t) :
    t.Steady cb name := by
  cases action with
  | start action =>
    obtain ⟨start, ran, rfl⟩ := Option.map_eq_some_iff.mp stepped
    exact steady.start undisturbed ran
  | join caller =>
    obtain ⟨-, result⟩ := Option.ite_none_right_eq_some.mp stepped
    split at result
    all_goals
      cases result
      exact ⟨steady.sound, steady.constructed, steady.called⟩
  | joined caller =>
    obtain ⟨-, result⟩ := Option.ite_none_right_eq_some.mp stepped
    cases result
    exact ⟨steady.sound, steady.constructed, steady.called⟩
  | joinFails caller =>
    obtain ⟨-, result⟩ := Option.ite_none_right_eq_some.mp stepped
    cases result
    exact ⟨steady.sound, steady.constructed, steady.called⟩
  | clear caller =>
    obtain ⟨-, result⟩ := Option.ite_none_right_eq_some.mp stepped
    cases result
    rcases Bool.eq_false_or_eq_true s.destroyed with destroyed | destroyed
    · have same : (s.clear caller).start = s.start := by simp [clear, destroyed]
      refine ⟨same ▸ steady.sound, fun _ => same ▸ steady.constructed destroyed, ?_⟩
      rw [same]
      exact steady.called.imp fun lives => ⟨lives.1, same ▸ lives.2⟩
    · have cleared : (s.clear caller).start =
          { s.start with thread := { s.start.thread with m_thread := 0 } } := by
        simp [clear, destroyed]
      have lives : (s.clear caller).Lives → s.Lives := fun lives =>
        ⟨destroyed, congrArg (fun start => start.creator.hasThrown) cleared ▸ lives.2⟩
      refine ⟨cleared ▸ steady.sound.cleared,
        fun gone => absurd (destroyed.symm.trans gone) Bool.false_ne_true, ?_⟩
      rw [cleared]
      exact ⟨fun uncalled still => steady.called.first uncalled (lives still),
        fun assigned still => steady.called.current assigned (lives still), steady.called.title⟩
  | destroy =>
    obtain ⟨⟨returned, -⟩, result⟩ := Option.ite_none_right_eq_some.mp stepped
    cases result
    exact ⟨steady.sound, fun _ => returned,
      steady.called.imp fun lives => absurd lives.1.symm Bool.false_ne_true⟩

theorem Steady.named (steady : s.Steady cb name) : s.Named name := by
  have called := steady.called
  constructor
  · intro calling
    apply steady.sound.current <;> rw [calling] <;> exact nofun
  · intro calling lives
    exact called.current (by rw [calling]; rfl) lives
  · intro calling lives
    exact (steady.sound.lives lives.2).id (by rw [calling]; rfl)
  · intro calling
    exact called.title (by rw [calling]; rfl)

end ThreadLife

end Chord
