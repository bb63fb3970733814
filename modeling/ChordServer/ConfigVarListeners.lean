import ChordServer.ConfigVarNotified
import Mathlib.Algebra.Group.Nat.Defs

set_option autoImplicit false

namespace Chord

/-- A listener that calls at most `getValue` on its variable. It is given the old and the new
value, what `getValue` returns, and the rest of the process. -/
abbrev Listener (T σ : Type) : Type := T → T → T → σ → σ

/-- The call of a listener, and what `getValue` returns in it. -/
structure ListenerCall (T : Type) where
  key : Nat
  old : T
  new : T
  read : T

/-- A variable with the counter that it shares with all variables of its type. `calls` records the
calls of its listeners. -/
structure ConfigVarListeners (T σ : Type) where
  m_val : T
  m_cbs : KeyedSet (Prod.fst : Nat × Listener T σ → Nat) := ∅
  s_fun_id : Nat
  world : σ
  calls : List (ListenerCall T) := []

namespace ConfigVarListeners

variable {T σ : Type}

/-- The calls of a run. `addOther` is `addListener` on another variable of the type. -/
inductive Action (T σ : Type)
  | setValue (val : T)
  | addListener (cb : Listener T σ)
  | addOther
  | delListener (key : Nat)
  | clearListener
  | getListener (key : Nat)

def getValue (s : ConfigVarListeners T σ) : T := s.m_val

/-- `i.second(m_val, val)`. -/
def callback (val : T) (s : ConfigVarListeners T σ) (i : Nat × Listener T σ) :
    ConfigVarListeners T σ :=
  { s with
    world := i.2 s.m_val val s.getValue s.world
    calls := s.calls ++ [⟨i.1, s.m_val, val, s.getValue⟩] }

def setValue [BEq T] (s : ConfigVarListeners T σ) (val : T) : ConfigVarListeners T σ :=
  if val == s.m_val then s
  else { s.m_cbs.toList.foldl (callback val) s with m_val := val }

/-- `++s_fun_id`. -/
def increment (s : ConfigVarListeners T σ) : ConfigVarListeners T σ :=
  { s with s_fun_id := (s.s_fun_id + 1) % 2 ^ 64 }

def addListener (s : ConfigVarListeners T σ) (cb : Listener T σ) : ConfigVarListeners T σ × Nat :=
  let s := s.increment
  ({ s with m_cbs := s.m_cbs.assign (s.s_fun_id, cb) }, s.s_fun_id)

def addOther (s : ConfigVarListeners T σ) : ConfigVarListeners T σ × Nat :=
  let s := s.increment
  (s, s.s_fun_id)

def delListener (s : ConfigVarListeners T σ) (key : Nat) : ConfigVarListeners T σ :=
  { s with m_cbs := s.m_cbs.erase key }

def getListener (s : ConfigVarListeners T σ) (key : Nat) : Option (Listener T σ) :=
  (s.m_cbs.find key).map Prod.snd

def clearListener (s : ConfigVarListeners T σ) : ConfigVarListeners T σ := { s with m_cbs := ∅ }

def step [BEq T] (s : ConfigVarListeners T σ) : Action T σ → ConfigVarListeners T σ
  | .setValue val => s.setValue val
  | .addListener cb => (s.addListener cb).1
  | .addOther => s.addOther.1
  | .delListener key => s.delListener key
  | .clearListener => s.clearListener
  | .getListener _ => s

def run [BEq T] (s : ConfigVarListeners T σ) (actions : List (Action T σ)) :
    ConfigVarListeners T σ :=
  actions.foldl step s

/-- The arguments with which the listener under the key has been called. -/
def told (s : ConfigVarListeners T σ) (key : Nat) : List (T × T) :=
  (s.calls.filter fun call => call.key = key).map fun call => (call.old, call.new)

/-- The identifiers that the run hands out. -/
def ids [BEq T] (s : ConfigVarListeners T σ) : List (Action T σ) → List Nat
  | [] => []
  | .addListener cb :: rest => (s.addListener cb).2 :: ids (s.step (.addListener cb)) rest
  | .addOther :: rest => s.addOther.2 :: ids (s.step .addOther) rest
  | action :: rest => ids (s.step action) rest

namespace Action

def registers : Action T σ → Bool
  | .addListener _ => true
  | .addOther => true
  | _ => false

def removes (id : Nat) : Action T σ → Bool
  | .delListener key => key = id
  | .clearListener => true
  | _ => false

/-- The value of the variable after the action. -/
def assigned (value : T) : Action T σ → T
  | .setValue val => val
  | _ => value

end Action

def registrations (actions : List (Action T σ)) : Nat := actions.countP Action.registers

/-- The actions until the listener under the identifier is removed. -/
def whileRegistered (id : Nat) (actions : List (Action T σ)) : List (Action T σ) :=
  actions.takeWhile fun action => !action.removes id

/-- The changes of the value, from the first on. -/
def changes [DecidableEq T] (value : T) : List (Action T σ) → List (T × T)
  | [] => []
  | action :: rest =>
      (if action.assigned value = value then [] else [(value, action.assigned value)]) ++
        changes (action.assigned value) rest

/-- The last identifier, and the listeners that are registered in order of registration. -/
structure Registered (T σ : Type) where
  last : Nat
  listeners : List (Nat × Listener T σ) := []

def Registered.step (r : Registered T σ) : Action T σ → Registered T σ
  | .addListener cb => ⟨r.last + 1, r.listeners ++ [(r.last + 1, cb)]⟩
  | .addOther => { r with last := r.last + 1 }
  | .delListener key => { r with listeners := r.listeners.filter fun i => i.1 ≠ key }
  | .clearListener => { r with listeners := [] }
  | _ => r

/-- A variable when it has been made. Others of its type may have taken identifiers. -/
def start (m_val : T) (s_fun_id : Nat) (world : σ) : ConfigVarListeners T σ :=
  { m_val := m_val, s_fun_id := s_fun_id, world := world }

/-- What listeners get to know of a run. -/
structure SeesChanges [DecidableEq T] (s : ConfigVarListeners T σ) (actions : List (Action T σ)) :
    Prop where
  /-- A change is told to those that are registered, in order of registration, and before it is
  stored; nothing else is told to anyone. -/
  inOrder : ∀ before action after, actions = before ++ action :: after →
    (s.run (before ++ [action])).calls = (s.run before).calls ++
      if action.assigned (s.run before).m_val = (s.run before).m_val then []
      else (before.foldl Registered.step ⟨s.s_fun_id, []⟩).listeners.map fun i =>
        ⟨i.1, (s.run before).m_val, action.assigned (s.run before).m_val, (s.run before).m_val⟩
  /-- A listener is told the changes between its registration and its removal. -/
  told : ∀ before cb after, actions = before ++ .addListener cb :: after →
    (s.run actions).told ((s.run before).addListener cb).2 =
      changes (s.run before).m_val (whileRegistered ((s.run before).addListener cb).2 after)
  /-- They lead from the value at its registration to the one at its removal. -/
  chain : ∀ before cb after, actions = before ++ .addListener cb :: after →
    Chain (s.run before).m_val ((s.run actions).told ((s.run before).addListener cb).2) ∧
    lastTold (s.run before).m_val ((s.run actions).told ((s.run before).addListener cb).2) =
      (s.run (before ++ .addListener cb ::
        whileRegistered ((s.run before).addListener cb).2 after)).m_val
  /-- The listener is found under its identifier until it is removed. -/
  found : ∀ before cb since later, actions = before ++ .addListener cb :: (since ++ later) →
    (s.run (before ++ .addListener cb :: since)).getListener ((s.run before).addListener cb).2 =
      if since.any (Action.removes ((s.run before).addListener cb).2) then none else some cb
  distinct : (ids s actions).Nodup

/-- The identifiers in use are among those handed out. -/
structure Sound (s : ConfigVarListeners T σ) : Prop where
  keys : ∀ i ∈ s.m_cbs, i.1 ≤ s.s_fun_id
  called : ∀ call ∈ s.calls, call.key ≤ s.s_fun_id

theorem foldl_callback (val : T) (items : List (Nat × Listener T σ)) :
    ∀ s : ConfigVarListeners T σ, ∃ world, items.foldl (callback val) s =
      { s with
        world := world
        calls := s.calls ++ items.map fun i => ⟨i.1, s.m_val, val, s.m_val⟩ } := by
  induction items with
  | nil => exact fun s => ⟨s.world, by rw [List.map_nil, List.append_nil]; rfl⟩
  | cons i rest ih =>
    intro s
    obtain ⟨world, ran⟩ := ih (callback val s i)
    refine ⟨world, ran.trans ?_⟩
    simp only [callback, List.append_assoc, List.singleton_append, List.map_cons]
    rfl

theorem increment_of_room {s : ConfigVarListeners T σ} (room : s.s_fun_id + 1 < 2 ^ 64) :
    s.increment = { s with s_fun_id := s.s_fun_id + 1 } := by
  rw [increment, Nat.mod_eq_of_lt room]

/-- The variable as code without `getValue` sees it, whose callbacks read its value. -/
def configVar (φ : Type) (s : ConfigVarListeners T σ) : ConfigVar T φ σ where
  m_val := s.m_val
  m_cbs := s.m_cbs.map
    (fun (i : Nat × Listener T σ) =>
      ((i.1, fun old new world => .returned (i.2 old new s.m_val world)) :
        Nat × on_change_cb T φ σ)) fun _ => rfl

theorem notify_callbacks (φ : Type) {m_val : T} (val : T) (items : List (Nat × Listener T σ)) :
    ∀ s : ConfigVarListeners T σ, s.m_val = m_val →
      ConfigVar.notify m_val val
        (items.map fun i => (i.1, (fun old new world => .returned (i.2 old new m_val world) :
          on_change_cb T φ σ))) s.world =
        (items.map Prod.fst, .returned (items.foldl (callback val) s).world) := by
  induction items with
  | nil => exact fun _ _ => rfl
  | cons i rest ih =>
    rintro s rfl
    have later := ih (callback val s i) rfl
    simp only [List.map_cons, ConfigVar.notify, List.foldl_cons]
    exact Prod.ext (congrArg (i.1 :: ·.1) later) (congrArg (·.2) later)

/-- A listener that reads the variable sees the value that `ConfigVar.setValue` replaces after
the last call. -/
theorem setValue_configVar [BEq T] (φ : Type) (s : ConfigVarListeners T σ) (val : T) :
    ((s.configVar φ).setValue val s.world).var.m_val = (s.setValue val).m_val ∧
    ((s.configVar φ).setValue val s.world).outcome = .returned (s.setValue val).world ∧
    (s.setValue val).calls.map ListenerCall.key =
      s.calls.map ListenerCall.key ++ ((s.configVar φ).setValue val s.world).called := by
  obtain ⟨world, ran⟩ := foldl_callback val s.m_cbs.toList s
  have notified : ConfigVar.notify (s.configVar φ).m_val val (s.configVar φ).m_cbs.toList s.world =
      (s.m_cbs.toList.map Prod.fst, .returned world) :=
    (notify_callbacks φ val s.m_cbs.toList s rfl).trans (by rw [ran])
  unfold setValue ConfigVar.setValue
  by_cases equal : val == s.m_val
  · rw [if_pos equal, if_pos (by exact equal)]
    exact ⟨rfl, rfl, (List.append_nil _).symm⟩
  · rw [if_neg equal, if_neg (by exact equal), notified, ran]
    refine ⟨rfl, rfl, ?_⟩
    simp only [List.map_append, List.map_map]
    rfl

variable [DecidableEq T] {s : ConfigVarListeners T σ} {action : Action T σ}
  {actions rest : List (Action T σ)} {id : Nat}

/-- Everything `setValue` does to a variable. -/
theorem setValue_cases (s : ConfigVarListeners T σ) (val : T) :
    val = s.m_val ∧ s.setValue val = s ∨
    val ≠ s.m_val ∧ ∃ world, s.setValue val =
      { s with
        m_val := val
        world := world
        calls := s.calls ++ s.m_cbs.toList.map fun i => ⟨i.1, s.m_val, val, s.m_val⟩ } := by
  unfold setValue
  split
  · rename_i equal
    exact .inl ⟨eq_of_beq equal, rfl⟩
  · rename_i differs
    obtain ⟨world, ran⟩ := foldl_callback val s.m_cbs.toList s
    exact .inr ⟨fun equal => differs (beq_iff_eq.mpr equal), world, by rw [ran]⟩

theorem step_m_val (s : ConfigVarListeners T σ) (action : Action T σ) :
    (s.step action).m_val = action.assigned s.m_val := by
  cases action with
  | setValue val =>
    rcases setValue_cases s val with ⟨equal, same⟩ | ⟨-, world, changed⟩
    · exact (congrArg m_val same).trans equal.symm
    · exact congrArg m_val changed
  | _ => rfl

theorem step_calls (s : ConfigVarListeners T σ) (action : Action T σ) :
    (s.step action).calls = s.calls ++
      if action.assigned s.m_val = s.m_val then []
      else s.m_cbs.toList.map fun i =>
        ⟨i.1, s.m_val, action.assigned s.m_val, s.m_val⟩ := by
  cases action with
  | setValue val =>
    rcases setValue_cases s val with ⟨equal, same⟩ | ⟨differs, world, changed⟩
    · rw [if_pos (by exact equal), List.append_nil]
      exact congrArg calls same
    · rw [if_neg (by exact differs)]
      exact congrArg calls changed
  | _ => rw [if_pos (by rfl), List.append_nil]; rfl

theorem setValue_m_cbs (s : ConfigVarListeners T σ) (val : T) :
    (s.setValue val).m_cbs = s.m_cbs ∧ (s.setValue val).s_fun_id = s.s_fun_id := by
  rcases setValue_cases s val with ⟨-, same⟩ | ⟨-, world, changed⟩
  · rw [same]
    exact ⟨rfl, rfl⟩
  · rw [changed]
    exact ⟨rfl, rfl⟩

/-- The counter has room for the registrations to come. -/
def Room (s : ConfigVarListeners T σ) (actions : List (Action T σ)) : Prop :=
  s.s_fun_id + registrations actions < 2 ^ 64

/-- What the variable and the counter say of the registrations. -/
def registered (s : ConfigVarListeners T σ) : Registered T σ := ⟨s.s_fun_id, s.m_cbs.toList⟩

omit [DecidableEq T] in
theorem Room.next (room : s.Room (action :: rest)) (registers : action.registers = true) :
    s.s_fun_id + 1 < 2 ^ 64 := by
  rw [Room, registrations, List.countP_cons_of_pos registers] at room
  omega

/-- A step of the variable is a step of its registrations: a new identifier is above all others,
so its listener comes last. -/
theorem step_registered (sound : s.Sound) (room : s.Room (action :: rest)) :
    (s.step action).registered = s.registered.step action := by
  cases action with
  | setValue val =>
    obtain ⟨m_cbs, s_fun_id⟩ := setValue_m_cbs s val
    simp only [registered, step, m_cbs, s_fun_id, Registered.step]
  | addListener cb =>
    have fresh : ∀ i ∈ s.m_cbs, i.1 < s.s_fun_id + 1 := fun i member =>
      Nat.lt_succ_of_le (sound.keys i member)
    have absent : s.m_cbs.find (s.s_fun_id + 1) = none :=
      KeyedSet.find_eq_none_iff.mpr fun i member => (fresh i member).ne
    simp only [registered, step, addListener, increment_of_room (room.next rfl)]
    rw [KeyedSet.assign_of_absent absent, KeyedSet.toList_insert_of_above fresh]
    rfl
  | addOther => simp only [registered, step, addOther, increment_of_room (room.next rfl),
      Registered.step]
  | delListener key => rfl
  | clearListener => rfl
  | getListener key => rfl

/-- A registered listener stays under its identifier until that is removed. -/
theorem step_find (room : s.Room (action :: rest)) (known : id ≤ s.s_fun_id) :
    (s.step action).m_cbs.find id = if action.removes id then none else s.m_cbs.find id := by
  cases action with
  | setValue val => exact congrArg (KeyedSet.find · id) (setValue_m_cbs s val).1
  | addListener cb =>
    simp only [step, addListener, increment_of_room (room.next rfl)]
    rw [KeyedSet.find_assign]
    exact if_neg (Nat.lt_succ_of_le known).ne'
  | addOther => rfl
  | delListener key =>
    simp only [step, delListener, Action.removes, decide_eq_true_eq, eq_comm (a := key)]
    exact KeyedSet.find_erase s.m_cbs key id
  | clearListener => rfl
  | getListener key => rfl

theorem step_s_fun_id (sound : s.Sound) (room : s.Room (action :: rest)) :
    (s.step action).s_fun_id = s.s_fun_id + registrations [action] := by
  have same := congrArg Registered.last (step_registered sound room)
  refine same.trans ?_
  cases action <;> rfl

theorem Room.step (sound : s.Sound) (room : s.Room (action :: rest)) :
    (s.step action).Room rest := by
  have moved := step_s_fun_id sound room
  have counted : registrations ([action] ++ rest) = registrations [action] + registrations rest :=
    List.countP_append
  rw [List.singleton_append] at counted
  rw [Room] at room ⊢
  omega

omit [DecidableEq T] in
theorem Registered.step_le {r : Registered T σ} (known : ∀ i ∈ r.listeners, i.1 ≤ r.last)
    (action : Action T σ) : ∀ i ∈ (r.step action).listeners, i.1 ≤ (r.step action).last := by
  cases action with
  | addListener cb =>
    intro i member
    rcases List.mem_append.mp member with before | added
    · exact Nat.le_succ_of_le (known i before)
    · exact (congrArg Prod.fst (List.mem_singleton.mp added)).le
  | addOther => exact fun i member => Nat.le_succ_of_le (known i member)
  | delListener key => exact fun i member => known i (List.mem_filter.mp member).1
  | clearListener => exact nofun
  | setValue val => exact known
  | getListener key => exact known

theorem Sound.step (sound : s.Sound) (room : s.Room (action :: rest)) :
    (s.step action).Sound := by
  have moved := step_s_fun_id sound room
  have grows : s.s_fun_id ≤ (s.step action).s_fun_id := by omega
  refine ⟨fun i member => ?_, fun call member => ?_⟩
  · have shape := step_registered sound room
    have known := Registered.step_le (r := s.registered) sound.keys action
    rw [← shape] at known
    exact known i member
  · rw [step_calls] at member
    rcases List.mem_append.mp member with before | now
    · exact (sound.called call before).trans grows
    · split at now
      · cases now
      · obtain ⟨i, inside, rfl⟩ := List.mem_map.mp now
        exact (sound.keys i inside).trans grows

/-- The step tells the listener under an identifier of a change, if there is one. -/
theorem step_told (s : ConfigVarListeners T σ) (action : Action T σ) (id : Nat) :
    (s.step action).told id = s.told id ++
      if action.assigned s.m_val = s.m_val ∨ s.m_cbs.find id = none then []
      else [(s.m_val, action.assigned s.m_val)] := by
  rw [told, step_calls, List.filter_append, List.map_append]
  refine congrArg (s.told id ++ ·) ?_
  by_cases same : action.assigned s.m_val = s.m_val
  · rw [if_pos same, if_pos (.inl same)]
    rfl
  · have here : (s.m_cbs.toList.filter fun i => i.1 = id) = (s.m_cbs.find id).toList :=
      s.m_cbs.filter_key id
    rw [if_neg same, List.filter_map, List.map_map]
    simp only [Function.comp_def, here, same, false_or]
    cases s.m_cbs.find id with
    | none => rfl
    | some i => rfl

/-- The induction over a run that keeps within the range of the counter. -/
theorem run_induction {motive : ConfigVarListeners T σ → List (Action T σ) → Prop}
    (done : ∀ s, s.Sound → motive s [])
    (next : ∀ s action rest, s.Sound → s.Room (action :: rest) → motive (s.step action) rest →
      motive s (action :: rest)) :
    ∀ actions {s : ConfigVarListeners T σ}, s.Sound → s.Room actions → motive s actions := by
  intro actions
  induction actions with
  | nil => exact fun sound _ => done _ sound
  | cons action rest ih =>
    intro s sound room
    exact next s action rest sound room (ih (sound.step room) (room.step sound))

theorem run_cons (s : ConfigVarListeners T σ) (action : Action T σ) (rest : List (Action T σ)) :
    s.run (action :: rest) = (s.step action).run rest := rfl

theorem run_append (s : ConfigVarListeners T σ) (first second : List (Action T σ)) :
    s.run (first ++ second) = (s.run first).run second := List.foldl_append

theorem Sound.run (sound : s.Sound) (room : s.Room actions) : (s.run actions).Sound := by
  refine run_induction (motive := fun s actions => (s.run actions).Sound) ?_ ?_ actions sound room
  · exact fun s sound => sound
  · exact fun s action rest _ _ later => later

/-- What is registered after a run. -/
theorem run_registered (sound : s.Sound) (room : s.Room actions) :
    (s.run actions).registered = actions.foldl Registered.step s.registered := by
  refine run_induction
    (motive := fun s actions =>
      (s.run actions).registered = actions.foldl Registered.step s.registered)
    ?_ ?_ actions sound room
  · exact fun s _ => rfl
  · intro s action rest sound room later
    rw [run_cons, later, step_registered sound room, List.foldl_cons]

theorem run_s_fun_id (sound : s.Sound) (room : s.Room actions) :
    (s.run actions).s_fun_id = s.s_fun_id + registrations actions := by
  refine run_induction
    (motive := fun s actions => (s.run actions).s_fun_id = s.s_fun_id + registrations actions)
    ?_ ?_ actions sound room
  · exact fun s _ => rfl
  · intro s action rest sound room later
    have counted : registrations ([action] ++ rest) = registrations [action] + registrations rest :=
      List.countP_append
    rw [run_cons, later, step_s_fun_id sound room, Nat.add_assoc, ← counted]
    rfl

omit [DecidableEq T] in
theorem Room.left {first second : List (Action T σ)} (room : s.Room (first ++ second)) :
    s.Room first := by
  rw [Room, registrations, List.countP_append] at room
  exact (Nat.le_add_right _ _).trans_lt (Nat.add_assoc _ _ _ ▸ room)

theorem Room.right {first second : List (Action T σ)} (sound : s.Sound)
    (room : s.Room (first ++ second)) : (s.run first).Room second := by
  have counted := run_s_fun_id sound room.left
  rw [Room, registrations, List.countP_append] at room
  rw [Room, counted]
  exact Nat.add_assoc _ _ _ ▸ room

theorem le_step (sound : s.Sound) (room : s.Room (action :: rest)) (known : id ≤ s.s_fun_id) :
    id ≤ (s.step action).s_fun_id := by
  rw [step_s_fun_id sound room]
  exact known.trans (Nat.le_add_right _ _)

theorem run_find (sound : s.Sound) (room : s.Room actions) (known : id ≤ s.s_fun_id) :
    (s.run actions).m_cbs.find id =
      if actions.any (Action.removes id) then none else s.m_cbs.find id := by
  refine run_induction
    (motive := fun s actions => id ≤ s.s_fun_id → (s.run actions).m_cbs.find id =
      if actions.any (Action.removes id) then none else s.m_cbs.find id)
    ?_ ?_ actions sound room known
  · exact fun s _ _ => rfl
  · intro s action rest sound room later known
    rw [run_cons, later (le_step sound room known), step_find room known, List.any_cons]
    cases action.removes id with
    | true => simp
    | false => simp

/-- After its removal a listener is told nothing. -/
theorem run_told_of_absent (sound : s.Sound) (room : s.Room actions) (known : id ≤ s.s_fun_id)
    (absent : s.m_cbs.find id = none) : (s.run actions).told id = s.told id := by
  refine run_induction
    (motive := fun s actions => id ≤ s.s_fun_id → s.m_cbs.find id = none →
      (s.run actions).told id = s.told id) ?_ ?_ actions sound room known absent
  · exact fun s _ _ _ => rfl
  · intro s action rest sound room later known absent
    have still : (s.step action).m_cbs.find id = none := by
      rw [step_find room known, absent, ite_self]
    rw [run_cons, later (le_step sound room known) still, step_told, if_pos (.inr absent),
      List.append_nil]

/-- Until then it is told every change. -/
theorem run_told (sound : s.Sound) (room : s.Room actions) (known : id ≤ s.s_fun_id)
    (present : s.m_cbs.find id ≠ none) :
    (s.run actions).told id = s.told id ++ changes s.m_val (whileRegistered id actions) := by
  refine run_induction
    (motive := fun s actions => id ≤ s.s_fun_id → s.m_cbs.find id ≠ none →
      (s.run actions).told id = s.told id ++ changes s.m_val (whileRegistered id actions))
    ?_ ?_ actions sound room known present
  · exact fun s _ _ _ => (List.append_nil _).symm
  · intro s action rest sound room later known present
    have found := step_find room known
    have told := step_told s action id
    rw [run_cons, whileRegistered, List.takeWhile_cons]
    cases removed : action.removes id with
    | true =>
      rw [removed, if_pos rfl] at found
      have same : action.assigned s.m_val = s.m_val := by
        cases action with
        | setValue val => cases removed
        | _ => rfl
      rw [run_told_of_absent (sound.step room) (room.step sound) (le_step sound room known) found,
        told, if_pos (.inl same)]
      rfl
    | false =>
      rw [removed] at found
      have still : (s.step action).m_cbs.find id ≠ none := found ▸ present
      rw [later (le_step sound room known) still, told, step_m_val, List.append_assoc]
      simp only [present, or_false, Bool.not_false, ↓reduceIte, changes]
      rfl

/-- The changes of a run lead from its first value to its last. -/
theorem chain_changes (actions : List (Action T σ)) (s : ConfigVarListeners T σ) :
    Chain s.m_val (changes s.m_val actions) ∧
      lastTold s.m_val (changes s.m_val actions) = (s.run actions).m_val := by
  induction actions generalizing s with
  | nil => exact ⟨trivial, rfl⟩
  | cons action rest ih =>
    have later := ih (s.step action)
    rw [step_m_val] at later
    rw [changes, run_cons]
    split_ifs with same
    · rw [same] at later
      rw [same]
      exact later
    · exact ⟨⟨rfl, later.1⟩, later.2⟩

theorem ids_cons (s : ConfigVarListeners T σ) (action : Action T σ) (rest : List (Action T σ)) :
    ids s (action :: rest) =
      (if action.registers then [(s.step action).s_fun_id] else []) ++
        ids (s.step action) rest := by
  cases action <;> rfl

/-- The identifiers ascend. -/
theorem ids_ascend (sound : s.Sound) (room : s.Room actions) :
    (∀ id ∈ ids s actions, s.s_fun_id < id) ∧ (ids s actions).Pairwise (· < ·) := by
  refine run_induction
    (motive := fun s actions =>
      (∀ id ∈ ids s actions, s.s_fun_id < id) ∧ (ids s actions).Pairwise (· < ·))
    ?_ ?_ actions sound room
  · exact fun s _ => ⟨nofun, .nil⟩
  · intro s action rest sound room later
    have moved := step_s_fun_id sound room
    rw [ids_cons]
    cases registers : action.registers with
    | true =>
      have one : registrations [action] = 1 := by simp [registrations, registers]
      have first : s.s_fun_id < (s.step action).s_fun_id := by omega
      exact ⟨List.forall_mem_cons.mpr ⟨first, fun id member => first.trans (later.1 id member)⟩,
        List.pairwise_cons.mpr later⟩
    | false =>
      have none : registrations [action] = 0 := by simp [registrations, registers]
      have still : (s.step action).s_fun_id = s.s_fun_id := by omega
      exact ⟨fun id member => still ▸ later.1 id member, later.2⟩

omit [DecidableEq T] in
theorem Sound.told_eq_nil (sound : s.Sound) (fresh : s.s_fun_id < id) : s.told id = [] := by
  have none : (s.calls.filter fun call => call.key = id) = [] :=
    List.filter_eq_nil_iff.mpr fun call member same =>
      (sound.called call member).not_gt (decide_eq_true_eq.mp same ▸ fresh)
  rw [told, none, List.map_nil]

/-- A new listener is found under its identifier and has been told nothing. -/
theorem addListener_new {cb : Listener T σ} (sound : s.Sound)
    (room : s.Room (.addListener cb :: rest)) :
    (s.step (.addListener cb)).m_cbs.find (s.addListener cb).2 = some ((s.addListener cb).2, cb) ∧
      (s.addListener cb).2 ≤ (s.step (.addListener cb)).s_fun_id ∧
      (s.step (.addListener cb)).told (s.addListener cb).2 = [] := by
  have moved := step_s_fun_id sound room
  have fresh : s.s_fun_id < (s.addListener cb).2 :=
    (Nat.lt_succ_self s.s_fun_id).trans_eq moved.symm
  refine ⟨(KeyedSet.find_assign _ _ _).trans (if_pos rfl), Nat.le_refl _, ?_⟩
  rw [step_told, if_pos (.inl rfl), List.append_nil]
  exact sound.told_eq_nil fresh

/-- Listeners see every change once while they are registered. -/
theorem seesChanges (m_val : T) (s_fun_id : Nat) (world : σ) (actions : List (Action T σ))
    (few : s_fun_id + registrations actions < 2 ^ 64) :
    (start m_val s_fun_id world).SeesChanges actions := by
  have sound : (start m_val s_fun_id world).Sound := ⟨fun _ => nofun, fun _ => nofun⟩
  have told : ∀ before cb after, actions = before ++ .addListener cb :: after →
      ((start m_val s_fun_id world).run actions).told
          (((start m_val s_fun_id world).run before).addListener cb).2 =
        changes ((start m_val s_fun_id world).run before).m_val
          (whileRegistered (((start m_val s_fun_id world).run before).addListener cb).2 after) := by
    rintro before cb after rfl
    have here := sound.run (Room.left few)
    have room := Room.right sound few
    obtain ⟨found, known, untold⟩ := addListener_new here room
    rw [run_append, run_cons, run_told (here.step room) (room.step here) known
      (found ▸ Option.some_ne_none _), untold, step_m_val]
    rfl
  refine ⟨?_, told, ?_, ?_, (ids_ascend sound few).2.imp Nat.ne_of_lt⟩
  · rintro before action after rfl
    have listed : ((start m_val s_fun_id world).run before).m_cbs.toList =
        (before.foldl Registered.step ⟨s_fun_id, []⟩).listeners :=
      congrArg Registered.listeners (run_registered sound (Room.left few))
    rw [run_append, run_cons, run, List.foldl_nil, step_calls, listed]
    rfl
  · intro before cb after shape
    rw [told before cb after shape, run_append, run_cons]
    have follows := chain_changes
      (whileRegistered (((start m_val s_fun_id world).run before).addListener cb).2 after)
      (((start m_val s_fun_id world).run before).step (.addListener cb))
    rw [step_m_val] at follows
    exact follows
  · rintro before cb since later rfl
    have here := sound.run (Room.left few)
    have room := Room.right sound few
    obtain ⟨found, known, -⟩ := addListener_new here room
    have still := room.step here
    rw [run_append, run_cons, getListener, run_find (here.step room) (Room.left still) known,
      found]
    split <;> rfl

/-- The second listener is told the change to 2 and the one to 3, the first those to 1 and 2. -/
theorem seesChanges_of_two :
    (start 0 5 () : ConfigVarListeners Int Unit).SeesChanges
      [.addListener fun _ _ _ world => world, .setValue 1, .addOther,
        .addListener fun _ _ _ world => world, .setValue 2, .setValue 2, .delListener 6,
        .setValue 3, .getListener 6] :=
  seesChanges 0 5 () _ (by decide)

end ConfigVarListeners

end Chord
