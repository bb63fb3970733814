import ChordServer.LockReentry
import ChordServer.ConfigLockAnswers

set_option autoImplicit false

namespace Chord

open LockProgram LockThreads

variable {types : ConfigTypes}

namespace ConfigProgram.ConfigVar

variable (v : VarPtr types) (cbs : Nat → types.Val v.1 → types.Val v.1 → ConfigProgram types Unit)

/-- What `setValue` does with the members of the variable while it has the lock for reading. The
listeners are any functions, and `m_cbs` has the keys of those that there are. -/
def notifying (val : types.Val v.1) :
    Option (ConfigVarMembers (types.Val v.1)) → ConfigProgram types Bool
  | none => return false
  | some var =>
      if val == var.m_val then return false
      else do
        var.m_cbs.forM fun key => cbs key var.m_val val
        return true

def notifyCalling (val : types.Val v.1) : ConfigProgram types Bool :=
  locked (.var v) .read do notifying v cbs val (← read fun s => s.vars v)

/-- `setValue` with any listeners. -/
def setValueCalling (val : types.Val v.1) : ConfigProgram types Unit := do
  if ← notifyCalling v cbs val then
    locked (.var v) .write (modify (update v fun var => { var with m_val := val }))

/-- With the listener of `LogIniter` this is the function that the process calls. -/
theorem setValueCalling_callback (lib : Libraries types) (val : types.Val v.1) :
    setValueCalling v (fun _ => callback lib v.1) val = setValue lib v val := rfl

theorem keeps_setValueCalling {held : HeldLocks (ConfigLock types)}
    (listeners : ∀ key old_value new_value,
      Keeps ((.var v, .read) :: held) (cbs key old_value new_value)) (val : types.Val v.1) :
    Keeps held (setValueCalling v cbs val) := by
  have notified : Keeps held (notifyCalling v cbs val) := by
    refine keeps_locked (steady_bind (steady_read _) fun var => ?_)
    unfold notifying
    split
    · exact steady_pure _
    · split
      · exact steady_pure _
      · exact steady_bind (steady_forM fun key _ => listeners key _ _) fun _ => steady_pure _
  refine steady_bind notified fun changed => ?_
  split
  · exact keeps_update v _
  · exact steady_pure _

variable {v cbs}

/-- Once it has the lock, `setValue` with another value never gives it up if one of the listeners
waits for it. -/
theorem clings_setValueCalling {val : types.Val v.1} {var : ConfigVarMembers (types.Val v.1)}
    (differs : (val == var.m_val) = false)
    (listeners : ∀ key ∈ var.m_cbs, (cbs key var.m_val val).Clings (.var v)
      (fun s => s.vars v = some var) (fun _ => True) 0)
    {key : Nat} (member : key ∈ var.m_cbs)
    (waits : (cbs key var.m_val val).Clings (.var v) (fun s => s.vars v = some var)
      (fun _ => False) 0)
    (next : Unit → ConfigProgram types Unit) :
    ∃ rest, (setValueCalling v cbs val).bind next = .acquire (.var v) .read rest ∧
      rest.Clings (.var v) (fun s => s.vars v = some var) (fun _ => False) 0 := by
  have notified : (notifying v cbs val (some var)).Clings (.var v)
      (fun s => s.vars v = some var) (fun _ => False) 0 := by
    rw [notifying, differs, if_neg nofun]
    exact (clings_forM listeners member waits).bind fun _ => False.elim
  have read : (do notifying v cbs val (← read fun s => s.vars v) :
      ConfigProgram types Bool).Clings (.var v) (fun s => s.vars v = some var)
      (fun _ => False) 0 := by
    intro s there
    show (notifying v cbs val (s.vars v)).Clings (.var v) _ _ 0
    rw [there]
    exact notified
  refine ⟨_, rfl, ?_⟩
  exact ((read.bind fun _ => False.elim).bind fun _ => False.elim).bind fun _ => False.elim

/-- Any function of the logging code may come before. -/
theorem clings_lift {α : Type} {known : Process types → Prop} (program : LogProgram α) :
    (lift program : ConfigProgram types α).Clings (.var v) known (fun _ => True) 0 :=
  clings_zoom nofun program

/-- A listener that changes the listeners of its own variable waits for itself. -/
theorem clings_delListener {known : Process types → Prop} {goal : Unit → Prop} (key : Nat) :
    (delListener v key).Clings (.var v) known goal 0 := clings_write _

end ConfigProgram.ConfigVar

variable {ι Op : Type} [DecidableEq ι] {v : VarPtr types}

/-- However the threads of the process interleave, a `setValue` that has got the lock of its
variable, with another value and with a listener that asks for this lock for writing, never
returns, whoever has called it. From then on the variable keeps its value and its listeners, and
every other thread that asks for the lock for writing waits for ever. -/
theorem setValue_waits_for_listener (host : Host) (environments : Nat → Environment)
    {operations : Op → ConfigProgram types Unit}
    (keeps : ∀ operation, ConfigProgram.Keeps [] (operations operation))
    {actions later : List (Action ι Op)}
    {s t final : LockThreads ι (ConfigLock types) (Process types) Fault}
    (ran : Transition.run (LockThreads.step operations)
      { shared := Process.start types host environments } actions = some s)
    {thread : ι} {cbs : Nat → types.Val v.1 → types.Val v.1 → ConfigProgram types Unit}
    {val : types.Val v.1} {next : Unit → ConfigProgram types Unit}
    (code : s.code thread = (ConfigProgram.ConfigVar.setValueCalling v cbs val).bind next)
    (locked : s.step operations (.next thread) = some t)
    {var : ConfigVarMembers (types.Val v.1)} (there : t.shared.vars v = some var)
    (differs : (val == var.m_val) = false)
    (listeners : ∀ key ∈ var.m_cbs, (cbs key var.m_val val).Clings (.var v)
      (fun s => s.vars v = some var) (fun _ => True) 0)
    {key : Nat} (member : key ∈ var.m_cbs)
    (waits : (cbs key var.m_val val).Clings (.var v) (fun s => s.vars v = some var)
      (fun _ => False) 0)
    (continued : Transition.run (LockThreads.step operations) t later = some final) :
    (∀ result, final.code thread ≠ .done result) ∧ final.shared.vars v = some var ∧
      ∀ other rest, final.code other = .acquire (.var v) .write rest →
        final.step operations (.next other) = none := by
  have initial : ({ shared := Process.start types host environments } :
      LockThreads ι (ConfigLock types) (Process types) Fault).Follows (Process.rules types) :=
    follows_initial (Process.registered_start types host environments) fun _ => trivial
  have follows := follows_run keeps initial ran
  obtain ⟨rest, shape, clings⟩ := ConfigProgram.ConfigVar.clings_setValueCalling differs listeners
    member waits next
  rw [shape] at code
  have stuck := stuck_of_rdlock code clings locked
  have kept : ∀ before after : Process types, (Process.rules types).kept (.var v) before after →
      before.vars v = some var → after.vars v = some var := fun _ _ same => same var
  obtain ⟨waiting, holds⟩ := stuck.run keeps (follows.step keeps locked).1 kept there continued
  refine ⟨waiting.unfinished, holds, fun other rest asks => ?_⟩
  simp only [LockThreads.step, asks, LockThreads.take, waiting.wrlock, Option.map_none]

/-- A listener that reports and removes itself. -/
def oneShot (key : Nat) (_ _ : LogDefines) : ConfigProgram numbers Unit := do
  ConfigProgram.logRoot silentLibraries .INFO "listener" 1 "called"
  ConfigProgram.ConfigVar.delListener (none, 0) key

theorem keeps_oneShot {held : HeldLocks (ConfigLock numbers)} (key : Nat)
    (old_value new_value : LogDefines) :
    ConfigProgram.Keeps held (oneShot key old_value new_value) :=
  steady_bind (ConfigProgram.keeps_logRoot silentLibraries _ _ _ _) fun _ =>
    ConfigProgram.ConfigVar.keeps_update _ _

theorem clings_oneShot {known : Process numbers → Prop} {goal : Unit → Prop} (key : Nat)
    (old_value new_value : LogDefines) :
    (oneShot key old_value new_value).Clings (.var (none, 0)) known goal 0 :=
  clings_bind (ConfigProgram.ConfigVar.clings_lift _) fun _ _ =>
    ConfigProgram.ConfigVar.clings_delListener key

/-- A thread sets `g_log_defines` and reads it, as another one does. -/
def removing : Bool → ConfigProgram numbers Unit
  | true => do
      ConfigProgram.ConfigVar.setValueCalling (none, 0) oneShot
        (KeyedSet.insert ∅ { name := "system" } : LogDefines)
      ConfigProgram.ignore (ConfigProgram.ConfigVar.getValue (none, 0))
  | false => ConfigProgram.ignore (ConfigProgram.ConfigVar.getValue (none, 0))

theorem setValue_waits_for_listener_removing :
    ∃ s t : LockThreads Bool (ConfigLock numbers) (Process numbers) Fault,
      Transition.run (LockThreads.step removing) { shared := Process.start numbers default default }
        [.start true true, .start false false] = some s ∧
      s.step removing (.next true) = some t ∧
      ∀ later final, Transition.run (LockThreads.step removing) t later = some final →
        (∀ result, final.code true ≠ .done result) ∧
        final.shared.vars (none, 0) = some { m_val := (∅ : LogDefines), m_cbs := [1] } ∧
        ∀ other rest, final.code other = .acquire (.var (none, 0)) .write rest →
          final.step removing (.next other) = none := by
  have keeps : ∀ operation, ConfigProgram.Keeps [] (removing operation) := by
    have reads : ConfigProgram.Keeps [] (removing false) :=
      ConfigProgram.keeps_ignore (ConfigProgram.keeps_locked (steady_read _))
    rintro (_ | _)
    · exact reads
    · exact steady_bind (ConfigProgram.ConfigVar.keeps_setValueCalling (none, 0) oneShot
        keeps_oneShot _) fun _ => reads
  obtain ⟨s, t, ran, stepped, code, there⟩ :
      ∃ s t : LockThreads Bool (ConfigLock numbers) (Process numbers) Fault,
        Transition.run (LockThreads.step removing)
          { shared := Process.start numbers default default }
          [.start true true, .start false false] = some s ∧
        s.step removing (.next true) = some t ∧ s.code true = removing true ∧
        t.shared.vars (none, 0) = some { m_val := (∅ : LogDefines), m_cbs := [1] } :=
    ⟨_, _, rfl, rfl, rfl, rfl⟩
  refine ⟨s, t, ran, stepped, fun later final continued => ?_⟩
  exact setValue_waits_for_listener default default keeps ran code stepped there (by decide)
    (fun key _ => clings_oneShot key _ _) List.mem_cons_self (clings_oneShot 1 _ _) continued

end Chord
