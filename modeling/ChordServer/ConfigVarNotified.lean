import ChordServer.ConfigVarThreads

set_option autoImplicit false

namespace Chord

variable {ι T φ σ : Type}

/-- Every old value is the new value of the call before. -/
def Chain (initial : T) : List (T × T) → Prop
  | [] => True
  | (old, new) :: later => old = initial ∧ Chain new later

/-- The new value of the last call. -/
def lastTold (initial : T) : List (T × T) → T
  | [] => initial
  | (_, new) :: later => lastTold new later

theorem lastTold_concat (initial : T) (calls : List (T × T)) (old new : T) :
    lastTold initial (calls ++ [(old, new)]) = new := by
  induction calls generalizing initial with
  | nil => rfl
  | cons call later ih => exact ih call.2

theorem chain_concat {initial : T} {calls : List (T × T)} {old new : T} :
    Chain initial (calls ++ [(old, new)]) ↔
      Chain initial calls ∧ old = lastTold initial calls := by
  induction calls generalizing initial with
  | nil => simp [Chain, lastTold]
  | cons call later ih => simp only [List.cons_append, Chain, ih, lastTold, and_assoc]

namespace SetValuePoint

/-- The value that the listener under the key has been told and that is not stored yet. -/
def pending (key : Nat) : SetValuePoint T → Option T
  | .loop val rest => if key ∈ rest then none else some val
  | .callback val rest => if key ∈ rest then none else some val
  | .between val => some val
  | .store val => some val
  | _ => none

/-- The point lies in the section of the read lock. -/
def Reading : SetValuePoint T → Prop
  | .compare _ => True
  | .loop _ _ => True
  | .callback _ _ => True
  | _ => False

/-- The point lies in the section of the write lock. -/
def Writing : SetValuePoint T → Prop
  | .store _ => True
  | .stored => True
  | _ => False

/-- The value and the listeners of a loop that is under way. -/
def looping : SetValuePoint T → Option (T × List Nat)
  | .loop val rest => some (val, rest)
  | .callback val rest => some (val, rest)
  | _ => none

theorem Reading.of_looping {point : SetValuePoint T} {loop : T × List Nat}
    (looping : point.looping = some loop) : point.Reading := by
  cases point with
  | loop => trivial
  | callback => trivial
  | _ => cases looping

end SetValuePoint

theorem ConfigVar.keys_nodup (var : ConfigVar T φ σ) : var.keys.Nodup :=
  List.pairwise_map.mpr (var.m_cbs.sorted.imp fun less => less.ne)

namespace ConfigVarThreads

/-- What the listeners have been told is a chain from the initial value, and while no
call is under way the variable has the last value of it. -/
structure Agrees (initial : T) (s : ConfigVarThreads ι T φ σ) : Prop where
  chain : ∀ key ∈ s.var.keys, Chain initial (s.told key)
  value : (∀ thread, s.points thread = .outside) →
    ∀ key ∈ s.var.keys, s.var.m_val = lastTold initial (s.told key)

/-- A listener is only called while no other call has told it a value and not stored it. -/
def NotifiesAlone (s : ConfigVarThreads ι T φ σ) : Action ι T → Prop
  | .call _ _ => True
  | .next thread => ∀ val key rest, s.points thread = .loop val (key :: rest) →
      ∀ other, (s.points other).pending key = none

variable [BEq T]

/-- A thread holds the lock of the section it is in, and its loop tells every listener
once of a value other than the stored one. -/
structure SoundAt (m_mutex : RWMutex ι) (var : ConfigVar T φ σ) (thread : ι)
    (point : SetValuePoint T) : Prop where
  reads : point.Reading → thread ∈ m_mutex.readers
  writes : point.Writing → m_mutex.writer = some thread
  loops : ∀ val rest, point.looping = some (val, rest) →
    rest.Nodup ∧ rest ⊆ var.keys ∧ (val == var.m_val) = false

def Sound (s : ConfigVarThreads ι T φ σ) : Prop :=
  s.m_mutex.Exclusive ∧ ∀ thread, SoundAt s.m_mutex s.var thread (s.points thread)

/-- At most one call has told the listener a value that is not stored, and without such a
call the listener knows the stored value. -/
structure Follows (initial : T) (key : Nat) (s : ConfigVarThreads ι T φ σ) : Prop where
  chain : Chain initial (s.told key)
  single : ∀ first second, (s.points first).pending key ≠ none →
    (s.points second).pending key ≠ none → first = second
  pending : ∀ thread val, (s.points thread).pending key = some val →
    lastTold initial (s.told key) = val ∧ (val == s.var.m_val) = false
  settled : (∀ thread, (s.points thread).pending key = none) →
    lastTold initial (s.told key) = s.var.m_val

variable [DecidableEq ι] {s next : ConfigVarThreads ι T φ σ} {action : Action ι T}

omit [DecidableEq ι] in
theorem SoundAt.keeps {m_mutex next : RWMutex ι} {var : ConfigVar T φ σ} {thread : ι}
    {point : SetValuePoint T} (sound : SoundAt m_mutex var thread point)
    (keeps : m_mutex.Keeps next thread) : SoundAt next var thread point :=
  ⟨fun reading => keeps.reads (sound.reads reading),
    fun writing => keeps.writes (sound.writes writing), sound.loops⟩

/-- A step that moves one thread and leaves the others the locks they have. -/
theorem Sound.goto {thread : ι} {point : SetValuePoint T} (sound : s.Sound)
    (exclusive : next.m_mutex.Exclusive)
    (points : next.points = Function.update s.points thread point)
    (var : next.var = s.var)
    (others : ∀ other, other ≠ thread → s.m_mutex.Keeps next.m_mutex other)
    (moved : SoundAt next.m_mutex s.var thread point) : next.Sound := by
  refine ⟨exclusive, ?_⟩
  rw [points, var]
  exact (Function.forall_update_iff _ _).mpr
    ⟨moved, fun other apart => (sound.2 other).keeps (others other apart)⟩

theorem Sound.step (sound : s.Sound) (stepped : Stepped s action next) : next.Sound := by
  have free : ∀ (m_mutex : RWMutex ι) thread, SoundAt m_mutex s.var thread .outside :=
    fun _ _ => ⟨nofun, nofun, nofun⟩
  cases stepped with
  | @call thread val m_mutex point locked =>
    refine sound.goto (RWMutex.exclusive_of_rdlock locked) rfl rfl
      (fun _ _ => RWMutex.keeps_of_rdlock locked) ⟨fun _ => ?_, nofun, nofun⟩
    obtain ⟨-, rfl⟩ := RWMutex.rdlock_eq_some_iff.mp locked
    exact List.mem_cons_self
  | unchanged point equal =>
    exact sound.goto sound.1.unlock rfl rfl (fun _ apart => RWMutex.keeps_unlock apart) (free _ _)
  | @changed thread val point differs =>
    have here := sound.2 thread
    rw [point] at here
    refine sound.goto sound.1 rfl rfl (fun _ _ => .refl _ _)
      ⟨fun _ => here.reads trivial, nofun, ?_⟩
    rintro _ _ ⟨⟩
    exact ⟨s.var.keys_nodup, fun _ known => known, differs⟩
  | @notify thread val key rest point =>
    have here := sound.2 thread
    rw [point] at here
    obtain ⟨distinct, known, differs⟩ := here.loops _ _ rfl
    refine sound.goto sound.1 rfl rfl (fun _ _ => .refl _ _)
      ⟨fun _ => here.reads trivial, nofun, ?_⟩
    rintro _ _ ⟨⟩
    exact ⟨distinct.of_cons, (List.cons_subset.mp known).2, differs⟩
  | @returned thread val rest point =>
    have here := sound.2 thread
    rw [point] at here
    exact sound.goto sound.1 rfl rfl (fun _ _ => .refl _ _)
      ⟨fun _ => here.reads trivial, nofun, here.loops⟩
  | leave point =>
    exact sound.goto sound.1.unlock rfl rfl (fun _ apart => RWMutex.keeps_unlock apart)
      ⟨nofun, nofun, nofun⟩
  | @wrlock thread val m_mutex point locked =>
    refine sound.goto (RWMutex.exclusive_of_wrlock locked) rfl rfl
      (fun _ _ => RWMutex.keeps_of_wrlock locked) ⟨nofun, fun _ => ?_, nofun⟩
    obtain ⟨-, -, rfl⟩ := RWMutex.wrlock_eq_some_iff.mp locked
    rfl
  | @store thread val point =>
    have here := sound.2 thread
    rw [point] at here
    have unread := sound.1 thread (here.writes trivial)
    refine ⟨sound.1, (Function.forall_update_iff _ _).mpr
      ⟨⟨nofun, fun _ => here.writes trivial, nofun⟩, fun other apart => ?_⟩⟩
    refine ⟨(sound.2 other).reads, (sound.2 other).writes, fun val rest looping => ?_⟩
    have reads := (sound.2 other).reads (.of_looping looping)
    rw [unread] at reads
    cases reads
  | unlock point =>
    exact sound.goto sound.1.unlock rfl rfl (fun _ apart => RWMutex.keeps_unlock apart) (free _ _)

variable {initial : T} {key : Nat}

omit [DecidableEq ι] in
/-- A step that tells the listener nothing and stores nothing. -/
theorem Follows.quiet (follows : s.Follows initial key) (told : next.told key = s.told key)
    (m_val : next.var.m_val = s.var.m_val)
    (pending : ∀ thread, (next.points thread).pending key = (s.points thread).pending key) :
    next.Follows initial key := by
  refine ⟨?_, ?_, ?_, ?_⟩
  · rw [told]
    exact follows.chain
  · simp only [pending]
    exact follows.single
  · simp only [pending, told, m_val]
    exact follows.pending
  · simp only [pending, told, m_val]
    exact follows.settled

omit [BEq T] in
/-- A thread that moves without changing what it has told the listener. -/
theorem pending_goto {thread : ι} {point : SetValuePoint T}
    (same : point.pending key = (s.points thread).pending key) (other : ι) :
    ((s.goto thread point).points other).pending key = (s.points other).pending key := by
  by_cases here : other = thread
  · rw [here, goto_self, same]
  · rw [goto_other s point here]

/-- The one call that has told the listener a value stores it. -/
theorem Follows.store (follows : s.Follows initial key) {thread : ι} {val : T}
    (point : s.points thread = .store val) :
    ({ s.goto thread .stored with var := { s.var with m_val := val } } :
      ConfigVarThreads ι T φ σ).Follows initial key := by
  have told : (s.points thread).pending key = some val := by rw [point]; rfl
  have others : ∀ other, ((s.goto thread .stored).points other).pending key = none := by
    intro other
    by_cases here : other = thread
    · rw [here, goto_self]
      rfl
    · by_contra also
      rw [goto_other s _ here] at also
      exact here (follows.single other thread also (told ▸ Option.some_ne_none val))
  refine ⟨follows.chain, fun first second also _ => absurd (others first) also,
    fun other value found => ?_, fun _ => (follows.pending thread val told).1⟩
  exact absurd (found.symm.trans (others other)) (Option.some_ne_none value)

omit [BEq T] in
theorem told_append (calls : List (Nat × T × T)) (key called : Nat) (old new : T) :
    ((calls ++ [(called, old, new)]).filter fun call => call.1 = key).map Prod.snd =
      (calls.filter fun call => call.1 = key).map Prod.snd ++
        if called = key then [(old, new)] else [] := by
  split_ifs with same <;> simp [List.filter_append, same]

/-- A call that is alone tells the listener the value that comes after the stored one. -/
theorem Follows.notify (follows : s.Follows initial key) (sound : s.Sound) {thread : ι} {val : T}
    {called : Nat} {rest : List Nat} (point : s.points thread = .loop val (called :: rest))
    (alone : ∀ other, (s.points other).pending called = none) :
    ({ s.goto thread (.callback val rest) with
        notified := s.notified ++ [(called, s.var.m_val, val)] } :
      ConfigVarThreads ι T φ σ).Follows initial key := by
  have here := sound.2 thread
  rw [point] at here
  obtain ⟨distinct, -, differs⟩ := here.loops _ _ rfl
  have told := told_append s.notified key called s.var.m_val val
  by_cases same : called = key
  · subst same
    have others : ∀ other,
        ((s.goto thread (.callback val rest)).points other).pending called ≠ none →
        other = thread := by
      intro other found
      by_contra apart
      rw [goto_other s _ apart] at found
      exact found (alone other)
    have mine : ((s.goto thread (.callback val rest)).points thread).pending called = some val := by
      rw [goto_self, SetValuePoint.pending, if_neg (List.nodup_cons.mp distinct).1]
    rw [if_pos rfl] at told
    refine ⟨?_, fun first second one two => (others first one).trans (others second two).symm,
      fun other value found => ?_, fun settled => ?_⟩
    · rw [ConfigVarThreads.told, told, chain_concat]
      exact ⟨follows.chain, (follows.settled alone).symm⟩
    · obtain rfl := others other (found ▸ Option.some_ne_none value)
      obtain rfl := Option.some.inj (mine.symm.trans found)
      refine ⟨?_, differs⟩
      rw [ConfigVarThreads.told, told, lastTold_concat]
    · exact absurd (mine.symm.trans (settled thread)) (Option.some_ne_none val)
  · rw [if_neg same, List.append_nil] at told
    refine follows.quiet told rfl (pending_goto ?_)
    rw [point]
    simp only [SetValuePoint.pending, List.mem_cons, Ne.symm same, false_or]

/-- What every step but a call of a listener by a second call does to the listener. -/
theorem Follows.step (follows : s.Follows initial key) (sound : s.Sound) (known : key ∈ s.var.keys)
    (stepped : Stepped s action next) (alone : s.NotifiesAlone action) :
    next.Follows initial key := by
  cases stepped with
  | call point locked =>
    exact follows.quiet rfl rfl (pending_goto (by rw [point]; rfl))
  | unchanged point equal =>
    exact follows.quiet rfl rfl (pending_goto (s := s.unlock _) (by rw [unlock, point]; rfl))
  | changed point differs =>
    refine follows.quiet rfl rfl (pending_goto ?_)
    rw [point]
    exact if_pos known
  | notify point => exact follows.notify sound point (alone _ _ _ point)
  | returned point => exact follows.quiet rfl rfl (pending_goto (by rw [point]; rfl))
  | leave point =>
    exact follows.quiet rfl rfl (pending_goto (s := s.unlock _) (by rw [unlock, point]; rfl))
  | wrlock point locked => exact follows.quiet rfl rfl (pending_goto (by rw [point]; rfl))
  | store point => exact follows.store point
  | unlock point =>
    exact follows.quiet rfl rfl (pending_goto (s := s.unlock _) (by rw [unlock, point]; rfl))

/-- What holds along the runs in which every listener is called by one call at a time. -/
def InStep (initial : T) (s : ConfigVarThreads ι T φ σ) : Prop :=
  s.Sound ∧ ∀ key ∈ s.var.keys, s.Follows initial key

theorem keys_step (stepped : Stepped s action next) : next.var.keys = s.var.keys := by
  cases stepped <;> rfl

omit [DecidableEq ι] in
theorem inStep_start (var : ConfigVar T φ σ) :
    (start var : ConfigVarThreads ι T φ σ).InStep var.m_val := by
  refine ⟨⟨fun _ => nofun, fun _ => ⟨nofun, nofun, nofun⟩⟩, fun key _ => ?_⟩
  exact ⟨trivial, fun _ _ one _ => absurd rfl one, fun _ _ => nofun, fun _ => rfl⟩

omit [DecidableEq ι] in
theorem InStep.agrees (inStep : s.InStep initial) : s.Agrees initial := by
  refine ⟨fun key known => (inStep.2 key known).chain, fun idle key known => ?_⟩
  refine ((inStep.2 key known).settled fun thread => ?_).symm
  rw [idle thread]
  rfl

theorem InStep.step (inStep : s.InStep initial) (stepped : s.step action = some next)
    (alone : s.NotifiesAlone action) : next.InStep initial := by
  have stepped := stepped_of_step stepped
  refine ⟨inStep.1.step stepped, ?_⟩
  rw [keys_step stepped]
  exact fun key known => (inStep.2 key known).step inStep.1 known stepped alone

/-- A second call that tells the listener something breaks its chain: the value that the
first call told it is not the stored one. -/
theorem notifiesAlone_of_agrees (reflexive : ∀ value : T, (value == value) = true)
    (inStep : s.InStep initial) (stepped : s.step action = some next)
    (agrees : next.Agrees initial) : s.NotifiesAlone action := by
  cases action with
  | call thread val => trivial
  | next thread =>
    intro val key rest point other
    have here := inStep.1.2 thread
    rw [point] at here
    obtain ⟨-, known, -⟩ := here.loops _ _ rfl
    have known : key ∈ s.var.keys := known List.mem_cons_self
    have chain := agrees.chain key (by rw [keys_step (stepped_of_step stepped)]; exact known)
    simp only [ConfigVarThreads.step, advance, point] at stepped
    cases stepped
    rw [ConfigVarThreads.told, told_append, if_pos rfl, chain_concat] at chain
    cases pending : (s.points other).pending key with
    | none => rfl
    | some value =>
      obtain ⟨last, differs⟩ := (inStep.2 key known).pending other value pending
      have stored : s.var.m_val = value := chain.2.trans last
      rw [stored, reflexive] at differs
      cases differs

theorem notifiesAlone_of_blocked (blocked : s.step action = none) : s.NotifiesAlone action := by
  cases action with
  | call thread val => trivial
  | next thread =>
    intro val key rest point
    simp only [ConfigVarThreads.step, advance, point] at blocked
    cases blocked

/-- The listeners and the variable agree if every listener is called by one call at a time,
and with a reflexive `operator==` they agree in no other run. -/
theorem agrees_iff_notifiesAlone (var : ConfigVar T φ σ) (actions : List (Action ι T)) :
    (Transition.StepsMeet step NotifiesAlone (start var) actions →
      Transition.EveryState step (Agrees var.m_val) (start var) actions) ∧
    ((∀ value : T, (value == value) = true) →
      Transition.EveryState step (Agrees var.m_val) (start var) actions →
      Transition.StepsMeet step NotifiesAlone (start var) actions) := by
  constructor
  · exact Transition.everyState_of_stepsMeet (fun _ inStep => InStep.agrees inStep)
      (fun _ _ _ inStep stepped alone => inStep.step stepped alone) (inStep_start var)
  · intro reflexive
    exact (Transition.everyState_iff_stepsMeet (fun _ inStep => InStep.agrees inStep)
      (fun _ _ _ inStep stepped alone => inStep.step stepped alone)
      (fun _ _ _ inStep stepped agrees => notifiesAlone_of_agrees reflexive inStep stepped agrees)
      (fun _ _ _ blocked => notifiesAlone_of_blocked blocked) (inStep_start var)).mp

/-- Both threads compare with 0 and call the listener before either stores its value. The
listener hears of a change from 0 to 1 and of one from 0 to 2, and the variable ends at 1. -/
theorem two_calls_disagree :
    ¬ Transition.EveryState step (Agrees 0)
      (start (({ m_val := 0 } : ConfigVar Int Unit Unit).addListener 1
        fun _ _ world => .returned world))
      ([.call true 1, .call false 2, .next true, .next false, .next true, .next false] ++
        List.replicate 2 (.next true) ++ List.replicate 5 (.next false) ++
        List.replicate 3 (.next true)) := by
  intro every
  have ends : (Transition.run step
      (start (({ m_val := 0 } : ConfigVar Int Unit Unit).addListener 1
        fun _ _ world => .returned world))
      ([.call true 1, .call false 2, .next true, .next false, .next true, .next false] ++
        List.replicate 2 (.next true) ++ List.replicate 5 (.next false) ++
        List.replicate 3 (.next true))).map
        (fun s => (s.told 1, s.var.m_val, decide (1 ∈ s.var.keys), s.points true, s.points false)) =
      some ([(0, 1), (0, 2)], 1, true, .outside, .outside) := by decide
  obtain ⟨final, ran, same⟩ := Option.map_eq_some_iff.mp ends
  simp only [Prod.mk.injEq, decide_eq_true_eq] at same
  obtain ⟨told, stored, known, first, second⟩ := same
  have agrees := every _ [] final (by simp) ran
  have last := agrees.value (Bool.rec second first) 1 known
  rw [stored, told] at last
  exact absurd last (by decide)

end ConfigVarThreads

end Chord
