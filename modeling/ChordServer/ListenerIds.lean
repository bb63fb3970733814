import ChordServer.ConfigVar
import ChordServer.RWMutex
import ChordServer.Transition
import Mathlib.Algebra.Group.Nat.Defs
import Mathlib.Logic.Function.Basic

set_option autoImplicit false

namespace Chord

/-- Where a thread is in `addListener(cb)` of the variable `v`. It holds the write lock of the
variable everywhere but `outside`. At `read` it has stored its callback under `key`, and `seen`
is the number of increments of the counter until then. -/
inductive AddListenerPoint (V C : Type)
  | outside
  | increment (v : V) (cb : C)
  | store (v : V) (cb : C)
  | read (v : V) (key seen : Nat)
  | unlock (v : V)
  deriving DecidableEq, Repr

/-- The variables `V` of one type with their listeners `C`, and the counter that their
`addListener` shares. `results` has, for each call, its variable, the key that it stored under and
the value that it returns, and `replaced` the callbacks that an assignment has replaced. No code
reads these two, nor `increments`. -/
structure ListenerIds (ι V C : Type) where
  s_fun_id : Nat := 0
  m_cbs : V → KeyedSet (Prod.fst : Nat × C → Nat) := fun _ => ∅
  m_mutex : V → RWMutex ι := fun _ => {}
  points : ι → AddListenerPoint V C := fun _ => .outside
  increments : Nat := 0
  results : List (V × Nat × Nat) := []
  replaced : List (V × Nat) := []

namespace ListenerIds

variable {ι V C : Type} [DecidableEq ι] [DecidableEq V]

/-- A thread calls `addListener(cb)` and gets the lock, or it goes on with its call. -/
inductive Action (ι V C : Type)
  | addListener (thread : ι) (v : V) (cb : C)
  | next (thread : ι)

def goto (s : ListenerIds ι V C) (thread : ι) (point : AddListenerPoint V C) :
    ListenerIds ι V C :=
  { s with points := Function.update s.points thread point }

/-- `m_cbs[s_fun_id] = cb`. -/
def store (s : ListenerIds ι V C) (v : V) (cb : C) : ListenerIds ι V C :=
  { s with
    m_cbs := Function.update s.m_cbs v ((s.m_cbs v).assign (s.s_fun_id, cb))
    replaced := s.replaced ++
      if ((s.m_cbs v).find s.s_fun_id).isSome then [(v, s.s_fun_id)] else [] }

def advance (s : ListenerIds ι V C) (thread : ι) : Option (ListenerIds ι V C) :=
  match s.points thread with
  | .outside => none
  | .increment v cb =>
      some { s.goto thread (.store v cb) with
        s_fun_id := (s.s_fun_id + 1) % 2 ^ 64
        increments := s.increments + 1 }
  | .store v cb => some ((s.store v cb).goto thread (.read v s.s_fun_id s.increments))
  | .read v key _ =>
      some { s.goto thread (.unlock v) with results := s.results ++ [(v, key, s.s_fun_id)] }
  | .unlock v =>
      some { s.goto thread .outside with
        m_mutex := Function.update s.m_mutex v ((s.m_mutex v).unlock thread) }

def step (s : ListenerIds ι V C) : Action ι V C → Option (ListenerIds ι V C)
  | .addListener thread v cb =>
      match s.points thread with
      | .outside =>
          ((s.m_mutex v).wrlock thread).map fun mutex =>
            { s.goto thread (.increment v cb) with m_mutex := Function.update s.m_mutex v mutex }
      | _ => none
  | .next thread => s.advance thread

/-- Every call has returned the key under which its callback was stored, and none has replaced
the callback of another. -/
structure Faithful (s : ListenerIds ι V C) : Prop where
  returned : ∀ result ∈ s.results, result.2.2 = result.2.1
  kept : s.replaced = []

instance : DecidablePred (@Faithful ι V C) := fun s =>
  decidable_of_iff ((∀ result ∈ s.results, result.2.2 = result.2.1) ∧ s.replaced = [])
    ⟨fun both => ⟨both.1, both.2⟩, fun faithful => ⟨faithful.returned, faithful.kept⟩⟩

/-- The counter has not come to the end of its range. -/
def Action.InRange (s : ListenerIds ι V C) : Action ι V C → Prop
  | .next thread =>
      match s.points thread with
      | .increment _ _ => s.s_fun_id + 1 < 2 ^ 64
      | _ => True
  | _ => True

/-- A call reads the value to return before the counter is incremented again. -/
def Action.ReadsInTime (s : ListenerIds ι V C) : Action ι V C → Prop
  | .next thread =>
      match s.points thread with
      | .read _ _ seen => s.increments = seen
      | _ => True
  | _ => True

instance : ∀ (s : ListenerIds ι V C) (action : Action ι V C), Decidable (action.InRange s)
  | _, .addListener _ _ _ => .isTrue trivial
  | s, .next thread =>
      match point : s.points thread with
      | .increment _ _ => decidable_of_iff (s.s_fun_id + 1 < 2 ^ 64) (by rw [Action.InRange, point])
      | .outside | .store _ _ | .read _ _ _ | .unlock _ =>
          .isTrue (by rw [Action.InRange, point]; trivial)

instance : ∀ (s : ListenerIds ι V C) (action : Action ι V C), Decidable (action.ReadsInTime s)
  | _, .addListener _ _ _ => .isTrue trivial
  | s, .next thread =>
      match point : s.points thread with
      | .read _ _ seen => decidable_of_iff (s.increments = seen) (by rw [Action.ReadsInTime, point])
      | .outside | .increment _ _ | .store _ _ | .unlock _ =>
          .isTrue (by rw [Action.ReadsInTime, point]; trivial)

/-- Everything one step can do. -/
inductive Stepped (s : ListenerIds ι V C) : Action ι V C → ListenerIds ι V C → Prop
  | call {thread : ι} {v : V} {cb : C} {mutex : RWMutex ι} (point : s.points thread = .outside)
      (locked : (s.m_mutex v).wrlock thread = some mutex) :
      Stepped s (.addListener thread v cb)
        { s.goto thread (.increment v cb) with m_mutex := Function.update s.m_mutex v mutex }
  | increment {thread : ι} {v : V} {cb : C} (point : s.points thread = .increment v cb) :
      Stepped s (.next thread)
        { s.goto thread (.store v cb) with
          s_fun_id := (s.s_fun_id + 1) % 2 ^ 64, increments := s.increments + 1 }
  | store {thread : ι} {v : V} {cb : C} (point : s.points thread = .store v cb) :
      Stepped s (.next thread) ((s.store v cb).goto thread (.read v s.s_fun_id s.increments))
  | read {thread : ι} {v : V} {key seen : Nat} (point : s.points thread = .read v key seen) :
      Stepped s (.next thread)
        { s.goto thread (.unlock v) with results := s.results ++ [(v, key, s.s_fun_id)] }
  | unlock {thread : ι} {v : V} (point : s.points thread = .unlock v) :
      Stepped s (.next thread)
        { s.goto thread .outside with
          m_mutex := Function.update s.m_mutex v ((s.m_mutex v).unlock thread) }

theorem stepped_of_step {s next : ListenerIds ι V C} {action : Action ι V C}
    (stepped : s.step action = some next) : Stepped s action next := by
  cases action with
  | addListener thread v cb =>
    simp only [step] at stepped
    split at stepped
    · rename_i point
      obtain ⟨mutex, locked, rfl⟩ := Option.map_eq_some_iff.mp stepped
      exact .call point locked
    · cases stepped
  | next thread =>
    simp only [step, advance] at stepped
    split at stepped
    · cases stepped
    · rename_i point
      cases stepped
      exact .increment point
    · rename_i point
      cases stepped
      exact .store point
    · rename_i point
      cases stepped
      exact .read point
    · rename_i point
      cases stepped
      exact .unlock point

end ListenerIds

/-- The variable whose lock a thread holds at the point. -/
def AddListenerPoint.variable {V C : Type} : AddListenerPoint V C → Option V
  | .outside => none
  | .increment v _ => some v
  | .store v _ => some v
  | .read v _ _ => some v
  | .unlock v => some v

namespace ListenerIds

variable {ι V C : Type} [DecidableEq ι] [DecidableEq V] {s next : ListenerIds ι V C}
  {thread : ι} {v : V} {action : Action ι V C}

/-- What holds while the counter is in range and every call reads it in time. -/
structure Orderly (s : ListenerIds ι V C) : Prop where
  counter : s.s_fun_id = s.increments
  held : ∀ i v, (s.points i).variable = some v → (s.m_mutex v).writer = some i
  keys : ∀ v, ∀ entry ∈ s.m_cbs v, entry.1 ≤ s.s_fun_id
  fresh : ∀ i v cb, s.points i = .store v cb → ∀ entry ∈ s.m_cbs v, entry.1 < s.s_fun_id
  seen : ∀ i v key seen, s.points i = .read v key seen → key = seen
  faithful : s.Faithful

/-- The points and the locks after a step of one thread, which takes or gives up the lock of
one variable or none. -/
theorem Orderly.held_of {point : AddListenerPoint V C} {mutex : RWMutex ι} (orderly : s.Orderly)
    (points : next.points = Function.update s.points thread point)
    (m_mutex : next.m_mutex = Function.update s.m_mutex v mutex)
    (this : ∀ w, point.variable = some w → w = v ∧ mutex.writer = some thread)
    (others : ∀ i, i ≠ thread → (s.points i).variable ≠ some v) :
    ∀ i w, (next.points i).variable = some w → (next.m_mutex w).writer = some i := by
  intro i w inside
  rw [points] at inside
  rw [m_mutex]
  by_cases here : i = thread
  · rw [here, Function.update_self] at inside
    obtain ⟨rfl, writer⟩ := this w inside
    rw [Function.update_self, here]
    exact writer
  · rw [Function.update_of_ne here] at inside
    have apart : w ≠ v := by
      rintro rfl
      exact others i here inside
    rw [Function.update_of_ne apart]
    exact orderly.held i w inside

omit [DecidableEq ι] [DecidableEq V] in
/-- Two threads are not in `addListener` of one variable. -/
theorem Orderly.apart (orderly : s.Orderly) {i : ι} (first : (s.points thread).variable = some v)
    (apart : i ≠ thread) : (s.points i).variable ≠ some v := by
  intro second
  have same := (orderly.held i v second).symm.trans (orderly.held thread v first)
  exact apart (Option.some.inj same)

omit [DecidableEq V] in
/-- A step that leaves the locks alone and its thread in the same call. -/
theorem Orderly.held_goto {point : AddListenerPoint V C} (orderly : s.Orderly)
    (points : next.points = Function.update s.points thread point)
    (m_mutex : next.m_mutex = s.m_mutex) (same : point.variable = (s.points thread).variable) :
    ∀ i w, (next.points i).variable = some w → (next.m_mutex w).writer = some i := by
  intro i w inside
  rw [points] at inside
  rw [m_mutex]
  by_cases here : i = thread
  · rw [here, Function.update_self, same] at inside
    exact here ▸ orderly.held thread w inside
  · rw [Function.update_of_ne here] at inside
    exact orderly.held i w inside

omit [DecidableEq V] in
/-- A step after which its thread is not about to store a callback. -/
theorem Orderly.fresh_goto {point : AddListenerPoint V C} (orderly : s.Orderly)
    (points : next.points = Function.update s.points thread point)
    (m_cbs : next.m_cbs = s.m_cbs) (s_fun_id : next.s_fun_id = s.s_fun_id)
    (stores : ∀ w cb, point ≠ .store w cb) :
    ∀ i w cb, next.points i = .store w cb → ∀ entry ∈ next.m_cbs w, entry.1 < next.s_fun_id := by
  intro i w cb at_store
  rw [m_cbs, s_fun_id]
  rw [points] at at_store
  by_cases here : i = thread
  · rw [here, Function.update_self] at at_store
    exact absurd at_store (stores w cb)
  · rw [Function.update_of_ne here] at at_store
    exact orderly.fresh i w cb at_store

omit [DecidableEq V] in
theorem Orderly.seen_goto {point : AddListenerPoint V C} (orderly : s.Orderly)
    (points : next.points = Function.update s.points thread point)
    (this : ∀ w key seen, point = .read w key seen → key = seen) :
    ∀ i w key seen, next.points i = .read w key seen → key = seen := by
  intro i w key seen at_read
  rw [points] at at_read
  by_cases here : i = thread
  · rw [here, Function.update_self] at at_read
    exact this w key seen at_read
  · rw [Function.update_of_ne here] at at_read
    exact orderly.seen i w key seen at_read

/-- The counter's value is a fresh key, which nobody else can store in the meantime. -/
theorem Orderly.store {cb : C} (orderly : s.Orderly) (point : s.points thread = .store v cb) :
    ((s.store v cb).goto thread (.read v s.s_fun_id s.increments)).Orderly := by
  have mine : (s.points thread).variable = some v := by rw [point]; rfl
  have unused : (s.m_cbs v).find s.s_fun_id = none := by
    rw [KeyedSet.find_eq_none_iff]
    exact fun entry member => (orderly.fresh thread v cb point entry member).ne
  have same : ((s.store v cb).goto thread (.read v s.s_fun_id s.increments)).m_cbs v =
      (s.m_cbs v).assign (s.s_fun_id, cb) := Function.update_self _ _ _
  have other : ∀ w, w ≠ v →
      ((s.store v cb).goto thread (.read v s.s_fun_id s.increments)).m_cbs w = s.m_cbs w :=
    fun w apart => Function.update_of_ne apart _ _
  refine ⟨orderly.counter, orderly.held_goto rfl rfl (by rw [point]; rfl),
    fun w entry member => ?_, fun i w cb' at_store entry member => ?_,
    orderly.seen_goto rfl fun w key seen same => ?_, orderly.faithful.returned, ?_⟩
  · by_cases here : w = v
    · rw [here, same] at member
      rcases KeyedSet.mem_assign.mp member with rfl | ⟨member, -⟩
      · exact Nat.le_refl _
      · exact orderly.keys v entry member
    · rw [other w here] at member
      exact orderly.keys w entry member
  · have moved : Function.update s.points thread (.read v s.s_fun_id s.increments) i =
        .store w cb' := at_store
    by_cases here : i = thread
    · rw [here, Function.update_self] at moved
      cases moved
    · rw [Function.update_of_ne here] at moved
      have apart : w ≠ v := by
        rintro rfl
        exact orderly.apart mine here (by rw [moved]; rfl)
      rw [other w apart] at member
      exact orderly.fresh i w cb' moved entry member
  · cases same
    exact orderly.counter
  · show s.replaced ++ (if ((s.m_cbs v).find s.s_fun_id).isSome then _ else []) = []
    rw [unused, orderly.faithful.kept]
    rfl

theorem Orderly.step (orderly : s.Orderly) (inRange : action.InRange s)
    (stepped : ListenerIds.step s action = some next) (inTime : action.ReadsInTime s) :
    next.Orderly := by
  cases stepped_of_step stepped with
  | @call thread v cb mutex point locked =>
    obtain ⟨free, -, shape⟩ := RWMutex.wrlock_eq_some_iff.mp locked
    have others : ∀ i, i ≠ thread → (s.points i).variable ≠ some v := by
      intro i _ inside
      have writes := orderly.held i v inside
      rw [free] at writes
      cases writes
    refine ⟨orderly.counter, orderly.held_of rfl rfl (fun w inside => ?_) others, orderly.keys,
      orderly.fresh_goto rfl rfl rfl nofun, orderly.seen_goto rfl nofun,
      ⟨orderly.faithful.returned, orderly.faithful.kept⟩⟩
    obtain rfl : v = w := Option.some.inj inside
    exact ⟨rfl, by rw [shape]⟩
  | @increment thread v cb point =>
    have bound : s.s_fun_id + 1 < 2 ^ 64 := by simpa only [Action.InRange, point] using inRange
    have larger : (s.s_fun_id + 1) % 2 ^ 64 = s.s_fun_id + 1 := Nat.mod_eq_of_lt bound
    refine ⟨larger.trans (congrArg (· + 1) orderly.counter),
      orderly.held_goto rfl rfl (by rw [point]; rfl), fun w entry member => ?_,
      fun i w cb at_store entry member => ?_, orderly.seen_goto rfl nofun,
      ⟨orderly.faithful.returned, orderly.faithful.kept⟩⟩
    · exact (Nat.le_succ_of_le (orderly.keys w entry member)).trans larger.ge
    · exact (Nat.lt_succ_of_le (orderly.keys w entry member)).trans_eq larger.symm
  | store point => exact orderly.store point
  | @read thread v key seen point =>
    have current : s.increments = seen := by simpa only [Action.ReadsInTime, point] using inTime
    refine ⟨orderly.counter, orderly.held_goto rfl rfl (by rw [point]; rfl), orderly.keys,
      orderly.fresh_goto rfl rfl rfl nofun, orderly.seen_goto rfl nofun, fun result member => ?_,
      orderly.faithful.kept⟩
    rcases List.mem_append.mp member with before | added
    · exact orderly.faithful.returned result before
    · obtain rfl := List.mem_singleton.mp added
      exact (orderly.counter.trans current).trans (orderly.seen thread v key seen point).symm
  | @unlock thread v point =>
    have mine : (s.points thread).variable = some v := by rw [point]; rfl
    exact ⟨orderly.counter, orderly.held_of rfl rfl nofun fun i => orderly.apart mine,
      orderly.keys, orderly.fresh_goto rfl rfl rfl nofun, orderly.seen_goto rfl nofun,
      ⟨orderly.faithful.returned, orderly.faithful.kept⟩⟩

/-- A call that returns its key has read the counter in time. -/
theorem readsInTime_of_faithful (orderly : s.Orderly)
    (stepped : ListenerIds.step s action = some next) (faithful : next.Faithful) :
    action.ReadsInTime s := by
  cases stepped_of_step stepped with
  | call => trivial
  | increment point => simp only [Action.ReadsInTime, point]
  | store point => simp only [Action.ReadsInTime, point]
  | @read thread v key seen point =>
    simp only [Action.ReadsInTime, point]
    have returned : s.s_fun_id = key := faithful.returned (v, key, s.s_fun_id) (by simp)
    exact orderly.counter.symm.trans (returned.trans (orderly.seen thread v key seen point))
  | unlock point => simp only [Action.ReadsInTime, point]

/-- Only a lock that cannot be had stops a call. -/
theorem readsInTime_of_blocked (blocked : ListenerIds.step s action = none) :
    action.ReadsInTime s := by
  cases action with
  | addListener thread v cb => trivial
  | next thread =>
    unfold Action.ReadsInTime
    dsimp only
    split
    · rename_i point
      rw [ListenerIds.step, advance, point] at blocked
      cases blocked
    · trivial

/-- A call that nothing interrupts adds the callback as `ConfigVar.addListener` does, and returns
its key. -/
theorem run_addListener {T φ σ : Type} {s : ListenerIds ι V (on_change_cb T φ σ)} {thread : ι}
    {v : V} {var : ConfigVar T φ σ} (outside : s.points thread = .outside)
    (free : s.m_mutex v = {}) (same : var.m_cbs = s.m_cbs v)
    (unused : (s.m_cbs v).find ((s.s_fun_id + 1) % 2 ^ 64) = none) (cb : on_change_cb T φ σ) :
    ∃ final, Transition.run step s (.addListener thread v cb :: List.replicate 4 (.next thread)) =
        some final ∧
      final.m_cbs =
        Function.update s.m_cbs v (var.addListener ((s.s_fun_id + 1) % 2 ^ 64) cb).m_cbs ∧
      final.results =
        s.results ++ [(v, (s.s_fun_id + 1) % 2 ^ 64, (s.s_fun_id + 1) % 2 ^ 64)] ∧
      final.replaced = s.replaced ∧ final.points = s.points ∧ final.m_mutex = s.m_mutex := by
  have locked : (s.m_mutex v).wrlock thread = some { s.m_mutex v with writer := some thread } := by
    rw [free]
    rfl
  have added : (var.addListener ((s.s_fun_id + 1) % 2 ^ 64) cb).m_cbs =
      (s.m_cbs v).assign ((s.s_fun_id + 1) % 2 ^ 64, cb) := by
    rw [KeyedSet.assign_of_absent unused, ← same]
    rfl
  simp only [List.replicate, Transition.run_cons, Transition.run_nil, step, advance, outside,
    locked, Option.map_some, Option.bind_some, goto, store, Function.update_self, unused]
  refine ⟨_, rfl, by rw [added], rfl, List.append_nil _, ?_, ?_⟩
  · simp only [Function.update_idem]
    exact Function.update_eq_self_iff.mpr outside.symm
  · simp only [Function.update_idem]
    refine Function.update_eq_self_iff.mpr ?_
    rw [free]
    exact if_pos rfl

/-- While the counter is in range, every call returns the key of its callback, and none replaces
another's, exactly if no call increments the counter between the storing of another one's
callback and the reading of the value that this one returns. -/
theorem faithful_iff_readsInTime {actions : List (Action ι V C)}
    (inRange : Transition.StepsMeet step (fun s action => action.InRange s) {} actions) :
    Transition.EveryState step Faithful ({} : ListenerIds ι V C) actions ↔
      Transition.StepsMeet step (fun s action => action.ReadsInTime s) {} actions := by
  have initial : ({} : ListenerIds ι V C).Orderly :=
    ⟨rfl, fun _ _ => nofun, fun _ _ => nofun, fun _ _ _ => nofun, fun _ _ _ _ => nofun,
      fun _ => nofun, rfl⟩
  exact Transition.everyState_iff_of_given (fun _ orderly => Orderly.faithful orderly)
    (fun _ _ _ orderly bound stepped inTime => Orderly.step orderly bound stepped inTime)
    (fun _ _ _ orderly _ stepped faithful => readsInTime_of_faithful orderly stepped faithful)
    (fun _ _ _ _ blocked => readsInTime_of_blocked blocked) initial inRange

/-- The second call increments the counter after the first has read what it returns. -/
theorem faithful_in_turn :
    Transition.EveryState step Faithful ({} : ListenerIds Bool Bool String)
      [.addListener true false "first", .next true, .next true, .next true,
        .addListener false true "second", .next false, .next true, .next false, .next false] :=
  (faithful_iff_readsInTime (by decide)).mpr (by decide)

/-- The condition is not met: a call for one variable has stored its callback under 1 when a
call for another variable increments the counter, and returns 2. -/
theorem returns_key_of_other :
    ¬ Transition.EveryState step Faithful ({} : ListenerIds Bool Bool String)
      [.addListener true false "first", .next true, .next true,
        .addListener false true "second", .next false, .next true] := by
  decide

end ListenerIds

end Chord
