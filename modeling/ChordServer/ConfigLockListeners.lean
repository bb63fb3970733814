import ChordServer.ConfigReentry

set_option autoImplicit false

namespace Chord

open YAML LockProgram LockRules LockThreads

variable {types : ConfigTypes}

/-- The functions that `addListener` is given, by the variable and by the key that they get. -/
abbrev Listeners (types : ConfigTypes) : Type :=
  (v : VarPtr types) → Nat → types.Val v.1 → types.Val v.1 → ConfigProgram types Unit

/-- The calls of the configuration and logging interfaces, with those for a variable's listeners. -/
inductive Call (types : ConfigTypes)
  | operation (call : Operation types)
  | addListener (v : VarPtr types)
  | getListener (v : VarPtr types) (key : Nat)
  | clearListener (v : VarPtr types)

namespace Listeners

open ConfigProgram

variable (lib : Libraries types) (listeners : Listeners types)

/-- The function that `m_cbs` has under the key. The first one of `g_log_defines` is that of
`LogIniter`. -/
def cbs (v : VarPtr types) (key : Nat) :
    types.Val v.1 → types.Val v.1 → ConfigProgram types Unit :=
  if v = (none, 0) ∧ key = 1 then ConfigVar.callback lib v.1 else listeners v key

section Variables
variable (v : VarPtr types)

def setValue (val : types.Val v.1) : ConfigProgram types Unit :=
  ConfigVar.setValueCalling v (listeners.cbs lib v) val

def fromString (val : String) : ConfigProgram types Unit := do
  let (result, printed) := ConfigVar.FromStr lib v.1 val
  lift (modify fun s => { s with host := s.host.print printed })
  match result with
  | .ok parsed => listeners.setValue lib v parsed
  | .error what => logRoot lib .ERROR "config.h" 340 (ConfigVar.exceptionMessage what val)

/-- The counter of the type only grows, so the new key comes last in the map. -/
def addListener : ConfigProgram types Nat :=
  locked (.var v) .write (call fun s =>
    let key := s.s_fun_id v.1 + 1
    (ConfigVar.update v (fun var => { var with m_cbs := var.m_cbs ++ [key] })
      { s with s_fun_id := Function.update s.s_fun_id v.1 key }, key))

/-- `none` is the `nullptr`. -/
def getListener (key : Nat) :
    ConfigProgram types (Option (types.Val v.1 → types.Val v.1 → ConfigProgram types Unit)) :=
  locked (.var v) .read (read fun s =>
    (s.vars v).bind fun var => if key ∈ var.m_cbs then some (listeners.cbs lib v key) else none)

def clearListener : ConfigProgram types Unit :=
  locked (.var v) .write (modify (ConfigVar.update v fun var => { var with m_cbs := [] }))

end Variables

def loadEntry (entry : String × Node) : ConfigProgram types Unit := do
  if entry.1 = "" then return
  else
    match ← ConfigProgram.Config.LookupBase (tolower entry.1) with
    | none => return
    | some var => listeners.fromString lib var (nodeText lib.yaml entry.2)

def LoadFromYaml (root : Node) : ConfigProgram types Unit := do
  let all_nodes := ListAllMember lib.yaml "" root
  all_nodes.2.forM fun text => logRoot lib .ERROR "config.cpp" 17 text
  all_nodes.1.forM (listeners.loadEntry lib)

/-- The code of a call in a process with these listeners. -/
def call : Call types → ConfigProgram types Unit
  | .operation (.setValue v val) => listeners.setValue lib v val
  | .operation (.varFromString v val) => listeners.fromString lib v val
  | .operation (.LoadFromYaml root) => listeners.LoadFromYaml lib root
  | .operation call => operation lib call
  | .addListener v => ignore (addListener v)
  | .getListener v key => ignore (listeners.getListener lib v key)
  | .clearListener v => clearListener v

/-- Where every listener is that of `LogIniter`, these are the calls of the process. -/
theorem call_operation (operation : Operation types) :
    call lib (fun v _ => ConfigVar.callback lib v.1) (.operation operation) =
      ConfigProgram.operation lib operation := by
  have same : ∀ v key, cbs lib (fun v _ => ConfigVar.callback lib v.1) v key =
      ConfigVar.callback lib v.1 := fun v key => ite_self _
  have set : ∀ v val, setValue lib (fun v _ => ConfigVar.callback lib v.1) v val =
      ConfigProgram.ConfigVar.setValue lib v val := by
    intro v val
    rw [setValue, funext (same v)]
    exact ConfigVar.setValueCalling_callback v lib val
  have parsed : ∀ v val, fromString lib (fun v _ => ConfigVar.callback lib v.1) v val =
      ConfigProgram.ConfigVar.fromString lib v val := by
    intro v val
    simp only [fromString, set]
    rfl
  have entries : loadEntry lib (fun v _ => ConfigVar.callback lib v.1) =
      ConfigProgram.Config.loadEntry lib := by
    funext entry
    simp only [loadEntry, parsed]
    rfl
  cases operation with
  | setValue v val => exact set v val
  | varFromString v val => exact parsed v val
  | LoadFromYaml root =>
    show LoadFromYaml lib _ root = ConfigProgram.Config.LoadFromYaml lib root
    rw [LoadFromYaml, entries]
    rfl
  | _ => rfl

/-- Every listener keeps to the locks, as one does that only makes such calls itself. -/
def Disciplined : Prop := ∀ v key old_value new_value held,
  Keeps held (listeners v key old_value new_value)

section Rules

variable {lib listeners} {held : HeldLocks (ConfigLock types)}

theorem Disciplined.keeps_cbs (disciplined : listeners.Disciplined) (v : VarPtr types) (key : Nat)
    (old_value new_value : types.Val v.1) :
    Keeps held (listeners.cbs lib v key old_value new_value) := by
  unfold cbs
  split
  · exact ConfigVar.keeps_callback lib v.1 old_value new_value
  · exact disciplined v key old_value new_value held

theorem Disciplined.keeps_setValue (disciplined : listeners.Disciplined) (v : VarPtr types)
    (val : types.Val v.1) : Keeps held (listeners.setValue lib v val) :=
  ConfigVar.keeps_setValueCalling v _ (fun key old_value new_value =>
    disciplined.keeps_cbs v key old_value new_value) val

theorem Disciplined.keeps_fromString (disciplined : listeners.Disciplined) (v : VarPtr types)
    (val : String) : Keeps held (listeners.fromString lib v val) := by
  refine steady_bind (keeps_lift LogProgram.keeps_host) fun _ => ?_
  split
  · exact disciplined.keeps_setValue v _
  · exact keeps_logRoot lib _ _ _ _

theorem keeps_addListener (v : VarPtr types) : Keeps held (addListener v) :=
  keeps_locked (steady_call fun _ registered =>
    Process.guarantee_update registered List.mem_cons_self _ _)

theorem Disciplined.keeps_LoadFromYaml (disciplined : listeners.Disciplined) (root : Node) :
    Keeps held (listeners.LoadFromYaml lib root) := by
  refine steady_bind (steady_forM fun text _ => keeps_logRoot lib _ _ _ text) fun _ =>
    steady_forM fun entry _ => ?_
  unfold loadEntry
  split
  · exact steady_pure _
  · refine steady_bind (keeps_locked (steady_read _)) fun var => ?_
    split
    · exact steady_pure _
    · exact disciplined.keeps_fromString _ _

theorem Disciplined.keeps_call (disciplined : listeners.Disciplined) (made : Call types) :
    Keeps [] (listeners.call lib made) := by
  cases made with
  | operation operation =>
    have keeps := keeps_operation lib operation
    cases operation with
    | setValue v val => exact disciplined.keeps_setValue v val
    | varFromString v val => exact disciplined.keeps_fromString v val
    | LoadFromYaml root => exact disciplined.keeps_LoadFromYaml root
    | _ => exact keeps
  | addListener v => exact keeps_ignore (keeps_addListener v)
  | getListener v key => exact keeps_ignore (keeps_locked (steady_read _))
  | clearListener v => exact ConfigVar.keeps_update v _

/-- Listeners may make calls, also on variables whose listeners are those of `LogIniter`. -/
theorem disciplined_of_operations (calls : (v : VarPtr types) → Nat → types.Val v.1 →
    types.Val v.1 → List (Operation types)) :
    Disciplined fun v key old_value new_value =>
      (calls v key old_value new_value).forM (operation lib) :=
  fun _ _ _ _ _ => steady_forM fun made _ => Steady.under (keeps_operation lib made)

end Rules

end Listeners

variable {ι : Type} [DecidableEq ι] (lib : Libraries types)

/-- However the threads of the process interleave, what a lock protects changes only in a step of
the thread that has the lock for writing, and then nobody else has it. -/
theorem changed_under_lock (listeners : Listeners types) (disciplined : listeners.Disciplined)
    (host : Host) (environments : Nat → Environment) (actions : List (Action ι (Call types)))
    (s t : LockThreads ι (ConfigLock types) (Process types) Fault)
    (ran : Transition.run (LockThreads.step (listeners.call lib))
      { shared := Process.start types host environments } actions = some s)
    (action : Action ι (Call types)) (stepped : s.step (listeners.call lib) action = some t)
    (lock : ConfigLock types) (changed : ¬ lock.Kept s.shared t.shared) :
    s.mutexes lock = { readers := [], writer := some action.thread } := by
  have follows : ({ shared := Process.start types host environments } :
      LockThreads ι (ConfigLock types) (Process types) Fault).Follows (Process.rules types) :=
    follows_initial (Process.registered_start types host environments) fun _ => trivial
  have keeps : ∀ made : Call types, (listeners.call lib made).Steady (Process.rules types) [] :=
    disciplined.keeps_call
  exact (follows_run keeps follows ran).writer_of_changed keeps stepped changed

/-- A listener that looks the name up again and asks for the root logger's formatter. -/
def looking : Listeners numbers := fun _ _ _ _ =>
  [.LookupBase "port", .getFormatter 0].forM (ConfigProgram.operation silentLibraries)

theorem disciplined_looking : looking.Disciplined :=
  Listeners.disciplined_of_operations fun _ _ _ _ => [.LookupBase "port", .getFormatter 0]

/-- One thread makes a variable and adds a listener, another one sets the variable, which calls the
listener, and the first, which wants to clear the listeners, waits until it has returned. -/
def clearing : List (Action Bool (Call numbers)) :=
  [.start true (.operation (.Lookup (some ()) "port" (80 : Nat)))] ++
    List.replicate 4 (.next true) ++
    [.start true (.addListener (some (), 1))] ++ List.replicate 3 (.next true) ++
    [.start false (.operation (.setValue (some (), 1) (8080 : Nat)))] ++
    List.replicate 2 (.next false) ++
    [.start true (.clearListener (some (), 1))] ++ List.replicate 7 (.next false) ++ [.next true]

/-- The listeners go in a step of the first thread, while the second one asks for the lock. -/
theorem changed_under_lock_clearing :
    ∃ s t : LockThreads Bool (ConfigLock numbers) (Process numbers) Fault,
      Transition.run (LockThreads.step (looking.call silentLibraries))
        { shared := Process.start numbers default default } clearing = some s ∧
      s.Requests false (.var (some (), 1)) ∧
      s.step (looking.call silentLibraries) (.next true) = some t ∧
      ¬ (ConfigLock.var (some (), 1) : ConfigLock numbers).Kept s.shared t.shared ∧
      s.mutexes (.var (some (), 1)) = { readers := [], writer := some true } := by
  obtain ⟨s, t, ran, waits, stepped, before, after⟩ :
      ∃ s t : LockThreads Bool (ConfigLock numbers) (Process numbers) Fault,
        Transition.run (LockThreads.step (looking.call silentLibraries))
          { shared := Process.start numbers default default } clearing = some s ∧
        s.Requests false (.var (some (), 1)) ∧
        s.step (looking.call silentLibraries) (.next true) = some t ∧
        s.shared.vars (some (), 1) = some { m_val := (80 : Nat), m_cbs := [1] } ∧
        t.shared.vars (some (), 1) = some { m_val := (80 : Nat), m_cbs := [] } :=
    ⟨_, _, rfl, ⟨_, _, rfl⟩, rfl, rfl, rfl⟩
  have changed : ¬ (ConfigLock.var (some (), 1) : ConfigLock numbers).Kept s.shared t.shared := by
    intro kept
    have same := kept _ before
    rw [after] at same
    cases same
  exact ⟨s, t, ran, waits, stepped, changed, changed_under_lock silentLibraries looking
    disciplined_looking default default clearing s t ran (.next true) stepped _ changed⟩

end Chord
