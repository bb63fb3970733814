import ChordServer.ConfigVar
import ChordServer.RWMutex
import ChordServer.Transition
import Mathlib.Logic.Function.Basic

set_option autoImplicit false

namespace Chord

/-- Where a thread is in `setValue(val)`. From `compare` to `callback` it holds the read
lock, in `store` and `stored` the write lock, and in `between` neither. `rest` are the
keys of the listeners that the loop has still to come to. -/
inductive SetValuePoint (T : Type)
  | outside
  | compare (val : T)
  | loop (val : T) (rest : List Nat)
  | callback (val : T) (rest : List Nat)
  | between (val : T)
  | store (val : T)
  | stored
  deriving DecidableEq, Repr

/-- The keys of `m_cbs` in their order. -/
def ConfigVar.keys {T φ σ : Type} (var : ConfigVar T φ σ) : List Nat :=
  var.m_cbs.toList.map Prod.fst

/-- A variable whose `setValue` is called by the threads `ι`. `notified` records the
calls of listeners, by key with the old and the new value, in the order in which they
begin. The listeners return, and what they do lies outside the variable. -/
structure ConfigVarThreads (ι T φ σ : Type) where
  var : ConfigVar T φ σ
  m_mutex : RWMutex ι := {}
  points : ι → SetValuePoint T
  notified : List (Nat × T × T) := []

namespace ConfigVarThreads

variable {ι T φ σ : Type} [DecidableEq ι]

/-- A thread calls `setValue(val)` and gets the read lock, or it goes on with its call. -/
inductive Action (ι T : Type)
  | call (thread : ι) (val : T)
  | next (thread : ι)

def goto (s : ConfigVarThreads ι T φ σ) (thread : ι) (point : SetValuePoint T) :
    ConfigVarThreads ι T φ σ :=
  { s with points := Function.update s.points thread point }

@[simp] theorem goto_self (s : ConfigVarThreads ι T φ σ) (thread : ι) (point : SetValuePoint T) :
    (s.goto thread point).points thread = point := Function.update_self _ _ _

theorem goto_other (s : ConfigVarThreads ι T φ σ) {thread other : ι} (point : SetValuePoint T)
    (apart : other ≠ thread) : (s.goto thread point).points other = s.points other :=
  Function.update_of_ne apart _ _

def unlock (s : ConfigVarThreads ι T φ σ) (thread : ι) : ConfigVarThreads ι T φ σ :=
  { s with m_mutex := s.m_mutex.unlock thread }

variable [BEq T]

/-- One step of a thread, as far as the other threads can tell. -/
def advance (s : ConfigVarThreads ι T φ σ) (thread : ι) : Option (ConfigVarThreads ι T φ σ) :=
  match s.points thread with
  | .outside => none
  | .compare val =>
      if val == s.var.m_val then some ((s.unlock thread).goto thread .outside)
      else some (s.goto thread (.loop val s.var.keys))
  | .loop val (key :: rest) =>
      some { s.goto thread (.callback val rest) with
        notified := s.notified ++ [(key, s.var.m_val, val)] }
  | .callback val rest => some (s.goto thread (.loop val rest))
  | .loop val [] => some ((s.unlock thread).goto thread (.between val))
  | .between val =>
      (s.m_mutex.wrlock thread).map fun m_mutex =>
        { s.goto thread (.store val) with m_mutex := m_mutex }
  | .store val => some { s.goto thread .stored with var := { s.var with m_val := val } }
  | .stored => some ((s.unlock thread).goto thread .outside)

def step (s : ConfigVarThreads ι T φ σ) : Action ι T → Option (ConfigVarThreads ι T φ σ)
  | .call thread val =>
      match s.points thread with
      | .outside =>
          (s.m_mutex.rdlock thread).map fun m_mutex =>
            { s.goto thread (.compare val) with m_mutex := m_mutex }
      | _ => none
  | .next thread => s.advance thread

/-- Everything one step can do, with the checks it has passed. -/
inductive Stepped (s : ConfigVarThreads ι T φ σ) :
    Action ι T → ConfigVarThreads ι T φ σ → Prop
  | call {thread : ι} {val : T} {m_mutex : RWMutex ι} (point : s.points thread = .outside)
      (locked : s.m_mutex.rdlock thread = some m_mutex) :
      Stepped s (.call thread val) { s.goto thread (.compare val) with m_mutex := m_mutex }
  | unchanged {thread : ι} {val : T} (point : s.points thread = .compare val)
      (equal : (val == s.var.m_val) = true) :
      Stepped s (.next thread) ((s.unlock thread).goto thread .outside)
  | changed {thread : ι} {val : T} (point : s.points thread = .compare val)
      (differs : (val == s.var.m_val) = false) :
      Stepped s (.next thread) (s.goto thread (.loop val s.var.keys))
  | notify {thread : ι} {val : T} {key : Nat} {rest : List Nat}
      (point : s.points thread = .loop val (key :: rest)) :
      Stepped s (.next thread)
        { s.goto thread (.callback val rest) with
          notified := s.notified ++ [(key, s.var.m_val, val)] }
  | returned {thread : ι} {val : T} {rest : List Nat}
      (point : s.points thread = .callback val rest) :
      Stepped s (.next thread) (s.goto thread (.loop val rest))
  | leave {thread : ι} {val : T} (point : s.points thread = .loop val []) :
      Stepped s (.next thread) ((s.unlock thread).goto thread (.between val))
  | wrlock {thread : ι} {val : T} {m_mutex : RWMutex ι} (point : s.points thread = .between val)
      (locked : s.m_mutex.wrlock thread = some m_mutex) :
      Stepped s (.next thread) { s.goto thread (.store val) with m_mutex := m_mutex }
  | store {thread : ι} {val : T} (point : s.points thread = .store val) :
      Stepped s (.next thread)
        { s.goto thread .stored with var := { s.var with m_val := val } }
  | unlock {thread : ι} (point : s.points thread = .stored) :
      Stepped s (.next thread) ((s.unlock thread).goto thread .outside)

theorem stepped_of_step {s next : ConfigVarThreads ι T φ σ} {action : Action ι T}
    (stepped : s.step action = some next) : Stepped s action next := by
  cases action with
  | call thread val =>
    simp only [step] at stepped
    split at stepped
    · rename_i point
      obtain ⟨m_mutex, locked, rfl⟩ := Option.map_eq_some_iff.mp stepped
      exact .call point locked
    · cases stepped
  | next thread =>
    simp only [step, advance] at stepped
    split at stepped
    · cases stepped
    · rename_i val point
      split at stepped
      · rename_i equal
        cases stepped
        exact .unchanged point equal
      · rename_i differs
        cases stepped
        exact .changed point (Bool.eq_false_iff.mpr differs)
    · rename_i point
      cases stepped
      exact .notify point
    · rename_i point
      cases stepped
      exact .returned point
    · rename_i point
      cases stepped
      exact .leave point
    · rename_i point
      obtain ⟨m_mutex, locked, rfl⟩ := Option.map_eq_some_iff.mp stepped
      exact .wrlock point locked
    · rename_i point
      cases stepped
      exact .store point
    · rename_i point
      cases stepped
      exact .unlock point

/-- A variable that nobody is using. -/
def start (var : ConfigVar T φ σ) : ConfigVarThreads ι T φ σ :=
  { var := var, points := fun _ => .outside }

/-- What the listener under a key has been told, from the first call on. -/
def told (s : ConfigVarThreads ι T φ σ) (key : Nat) : List (T × T) :=
  (s.notified.filter fun call => call.1 = key).map Prod.snd

/-- The loop of a thread that nobody interrupts calls the listeners in their order. -/
theorem run_loop {thread : ι} {val : T} (rest : List Nat) :
    ∀ {s : ConfigVarThreads ι T φ σ}, s.points thread = .loop val rest →
      Transition.run step s (List.replicate (2 * rest.length) (.next thread)) =
        some { s.goto thread (.loop val []) with
          notified := s.notified ++ rest.map fun key => (key, s.var.m_val, val) } := by
  induction rest with
  | nil =>
    intro s point
    simp only [List.length_nil, Nat.mul_zero, List.replicate_zero, Transition.run_nil, goto,
      List.map_nil, List.append_nil, ← point, Function.update_eq_self]
  | cons key rest ih =>
    intro s point
    rw [List.length_cons, Nat.mul_succ, List.replicate_succ, List.replicate_succ,
      Transition.run_cons, step, advance, point, Option.bind_some, Transition.run_cons, step,
      advance]
    simp only [goto_self, Option.bind_some]
    rw [ih (goto_self _ _ _)]
    simp only [goto, Function.update_idem, List.append_assoc, List.map_cons,
      List.singleton_append]

/-- A thread that is alone and through with its loop stores the value. -/
theorem run_store {s : ConfigVarThreads ι T φ σ} {thread : ι} {val : T}
    (point : s.points thread = .loop val []) (alone : s.m_mutex = { readers := [thread] }) :
    Transition.run step s (List.replicate 4 (.next thread)) =
      some { s.goto thread .outside with var := { s.var with m_val := val }, m_mutex := {} } := by
  have read : s.m_mutex.unlock thread = {} := by simp [alone, RWMutex.unlock]
  have written : ({ writer := some thread } : RWMutex ι).unlock thread = {} := by
    simp [RWMutex.unlock]
  have leave : s.step (.next thread) = some ((s.unlock thread).goto thread (.between val)) := by
    rw [step, advance, point]
  have wrlock : ((s.unlock thread).goto thread (.between val)).step (.next thread) =
      some { s.goto thread (.store val) with m_mutex := { writer := some thread } } := by
    rw [step, advance, goto_self]
    simp only [goto, unlock, read, Function.update_idem]
    rfl
  have store : step { s.goto thread (.store val) with m_mutex := { writer := some thread } }
      (.next thread) =
      some { s.goto thread .stored with
        var := { s.var with m_val := val }, m_mutex := { writer := some thread } } := by
    simp only [step, advance, goto, Function.update_self, Function.update_idem]
  have back : step { s.goto thread .stored with
        var := { s.var with m_val := val }, m_mutex := { writer := some thread } }
      (.next thread) =
      some { s.goto thread .outside with var := { s.var with m_val := val }, m_mutex := {} } := by
    simp only [step, advance, goto, Function.update_self, Function.update_idem, unlock, written]
  simp only [List.replicate_succ, List.replicate_zero, Transition.run_cons, Transition.run_nil,
    leave, wrlock, store, back, Option.bind_some]

omit [DecidableEq ι] [BEq T] in
theorem called_of_returned {old new : T} {cbs : List (Nat × on_change_cb T φ σ)} :
    ∀ {world final : σ}, (ConfigVar.notify old new cbs world).2 = .returned final →
      (ConfigVar.notify old new cbs world).1 = cbs.map Prod.fst := by
  induction cbs with
  | nil => exact fun _ => rfl
  | cons entry rest ih =>
    obtain ⟨key, cb⟩ := entry
    intro world final returned
    unfold ConfigVar.notify at returned ⊢
    split at returned
    · exact congrArg (key :: ·) (ih returned)
    · rename_i stopped other
      exact absurd returned (other final)

/-- A call that no other thread disturbs, whose listeners return, is `setValue` as one
thread performs it. -/
theorem run_setValue (s : ConfigVarThreads ι T φ σ) (thread : ι) (val : T) (world : σ)
    (outside : s.points thread = .outside) (free : s.m_mutex = {})
    {final : σ} (returned : (s.var.setValue val world).outcome = .returned final) :
    ∃ count, Transition.run step s (.call thread val :: List.replicate count (.next thread)) =
      some { s with
        var := (s.var.setValue val world).var
        notified := s.notified ++
          (s.var.setValue val world).called.map fun key => (key, s.var.m_val, val) } := by
  let entered := { s.goto thread (.compare val) with m_mutex := { readers := [thread] } }
  have call : s.step (.call thread val) = some entered := by
    simp only [step, outside, free]
    rfl
  have point : entered.points thread = .compare val := goto_self s thread _
  have back : ∀ result : ConfigVar T φ σ, ∀ calls,
      ({ var := result, m_mutex := {}, points := Function.update s.points thread .outside,
         notified := calls } : ConfigVarThreads ι T φ σ) =
        { s with var := result, notified := calls } := by
    intro result calls
    rw [← outside, Function.update_eq_self, ← free]
  unfold ConfigVar.setValue at returned ⊢
  split
  · rename_i equal
    refine ⟨1, ?_⟩
    have left :
        entered.step (.next thread) = some ((entered.unlock thread).goto thread .outside) := by
      rw [step, advance, point]
      exact if_pos equal
    rw [Transition.run_cons, call, Option.bind_some, List.replicate_one, Transition.run_cons, left]
    simp [entered, goto, unlock, RWMutex.unlock, back]
  · rename_i differs
    rw [if_neg differs] at returned
    have compared : entered.step (.next thread) =
        some (entered.goto thread (.loop val s.var.keys)) := by
      rw [step, advance, point]
      exact if_neg differs
    refine ⟨1 + (2 * s.var.keys.length + 4), ?_⟩
    rw [Transition.run_cons, call, Option.bind_some, List.replicate_add, List.replicate_one,
      List.singleton_append, Transition.run_cons, compared, Option.bind_some, List.replicate_add,
      Transition.run_append, run_loop _ (goto_self _ _ _), Option.bind_some,
      run_store (by exact goto_self _ _ _) rfl]
    split at returned
    · rename_i called world' ended
      have keys : called = s.var.keys := by
        have all := called_of_returned (congrArg Prod.snd ended)
        rwa [ended] at all
      simp [keys, entered, goto, back]
    · rename_i called stopped other ended
      exact absurd returned (other final)

end ConfigVarThreads

end Chord
