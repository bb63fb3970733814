import ChordServer.ConfigLockOrder
import ChordServer.LoggerLockRules

set_option autoImplicit false

namespace Chord

open YAML LockProgram LockRules

variable {types : ConfigTypes}

/-- Every name is bound to a variable of its own, and every variable has a name. -/
structure Process.Registered (s : Process types) : Prop where
  log : s.log.Registered
  bound : ∀ name v, s.GetDatas name = some v → (s.vars v).isSome ∧ validName name
  made : ∀ v, (s.vars v).isSome → v.2 < s.varCount ∧ ∃ name, s.GetDatas name = some v
  once : ∀ name other v w, s.GetDatas name = some v → s.GetDatas other = some w → v.2 = w.2 →
    name = other

/-- A name stays bound to its variable, and a variable stays. -/
structure Process.Grows (s t : Process types) : Prop where
  log : s.log.Grows t.log
  bound : ∀ name v, s.GetDatas name = some v → t.GetDatas name = some v
  made : ∀ v, (s.vars v).isSome → (t.vars v).isSome
  varCount : s.varCount ≤ t.varCount

/-- What a lock of the process protects: the registry, the value and the listeners of a
variable, and what the locks of the logging code protect. -/
def ConfigLock.Kept : ConfigLock types → Process types → Process types → Prop
  | .map, s, t => t.GetDatas = s.GetDatas ∧ t.varCount = s.varCount
  | .var v, s, t => ∀ var, s.vars v = some var → t.vars v = some var
  | .log lock, s, t => lock.Kept s.log t.log

namespace Process

variable {s t : Process types} {held : HeldLocks (ConfigLock types)}

/-- The rules of the process. -/
def rules (types : ConfigTypes) : LockRules (ConfigLock types) (Process types) where
  valid := Registered
  kept := ConfigLock.Kept
  grows := Grows
  rests _ _ := True
  kept_refl lock s := by
    cases lock with
    | map => exact ⟨rfl, rfl⟩
    | var v => exact fun _ found => found
    | log lock => exact LogLock.Kept.refl lock s.log
  grows_refl s := ⟨.refl _, fun _ _ => id, fun _ => id, Nat.le_refl _⟩
  grows_trans s t u first second := ⟨first.log.trans second.log,
    fun name v found => second.bound name v (first.bound name v found),
    fun v made => second.made v (first.made v made), first.varCount.trans second.varCount⟩
  rests_kept _ _ _ _ _ := trivial

/-- The logging code keeps to its own part of the process. -/
theorem embeds_log : Embeds LogSystem.rules (rules types) ConfigLock.log Process.log
    (fun log s => { s with log := log }) where
  get_set _ _ := rfl
  valid _ registered := registered.log
  grows _ _ grows := grows.log
  kept _ _ _ := Iff.rfl
  rests _ _ := Iff.rfl
  whole s log registered registered' grows :=
    ⟨⟨registered', registered.bound, registered.made, registered.once⟩,
      grows, fun _ _ => id, fun _ => id, Nat.le_refl _⟩
  apart lock s log absent := by
    cases lock with
    | map => exact ⟨rfl, rfl⟩
    | var v => exact fun _ found => found
    | log lock => exact absurd rfl (absent lock)

/-- A step that leaves the loggers and the registry alone, and disposes of no variable. -/
theorem guarantee_of_vars (registered : s.Registered) (log : t.log = s.log)
    (GetDatas : t.GetDatas = s.GetDatas) (varCount : t.varCount = s.varCount)
    (made : ∀ v, (t.vars v).isSome = (s.vars v).isSome)
    (vars : ∀ v, (.var v, .write) ∉ held → ConfigLock.Kept (.var v) s t) :
    (rules types).Guarantee held s t := by
  refine ⟨⟨?_, ?_, ?_, ?_⟩, ⟨?_, ?_, ?_, varCount.ge⟩, fun lock absent => ?_⟩
  · rw [log]
    exact registered.log
  · intro name v found
    rw [GetDatas] at found
    rw [made]
    exact registered.bound name v found
  · intro v exists_
    rw [made] at exists_
    rw [GetDatas, varCount]
    exact registered.made v exists_
  · rw [GetDatas]
    exact registered.once
  · rw [log]
    exact .refl _
  · rw [GetDatas]
    exact fun _ _ => id
  · exact fun v exists_ => (made v).trans exists_
  · cases lock with
    | map => exact ⟨GetDatas, varCount⟩
    | var v => exact vars v absent
    | log lock =>
      change lock.Kept s.log t.log
      rw [log]
      exact .refl lock s.log

/-- The members of a variable change, and perhaps the counter of the listeners. -/
theorem guarantee_update (registered : s.Registered) {v : VarPtr types}
    (locked : (.var v, .write) ∈ held)
    (f : ConfigVarMembers (types.Val v.1) → ConfigVarMembers (types.Val v.1))
    (s_fun_id : types.Tag → Nat) :
    (rules types).Guarantee held s
      (ConfigProgram.ConfigVar.update v f { s with s_fun_id := s_fun_id }) := by
  refine guarantee_of_vars registered rfl rfl rfl (fun w => ?_) fun w absent var found => ?_
  · by_cases same : w = v
    · subst same
      simp [ConfigProgram.ConfigVar.update]
    · simp [ConfigProgram.ConfigVar.update, Function.update_of_ne same]
  · have apart : w ≠ v := by
      rintro rfl
      exact absent locked
    simpa [ConfigProgram.ConfigVar.update, Function.update_of_ne apart] using found

/-- A variable is made under a name that had none, with the lock of the registry. -/
theorem guarantee_create (registered : s.Registered) (locked : (.map, .write) ∈ held)
    {tag : types.Tag} {name : String} (default_value : types.Val tag)
    (unbound : s.GetDatas name = none) (valid : validName name) :
    (rules types).Guarantee held s (ConfigProgram.Config.create tag name default_value s) := by
  let v : VarPtr types := (tag, s.varCount)
  have unmade : s.vars v = none := by
    by_contra made
    exact Nat.lt_irrefl _ (registered.made v (Option.isSome_iff_ne_none.mpr made)).1
  have old : ∀ w, (s.vars w).isSome → w ≠ v := by
    rintro w made rfl
    rw [unmade] at made
    cases made
  have names : ∀ other w, s.GetDatas other = some w →
      Function.update s.GetDatas name (some v) other = some w := by
    intro other w found
    rw [Function.update_of_ne _ _ _]
    · exact found
    · rintro rfl
      rw [unbound] at found
      cases found
  have bound : ∀ other w, Function.update s.GetDatas name (some v) other = some w →
      other = name ∧ w = v ∨ s.GetDatas other = some w := by
    intro other w found
    by_cases same : other = name
    · subst same
      rw [Function.update_self] at found
      exact .inl ⟨rfl, (Option.some.inj found).symm⟩
    · rw [Function.update_of_ne same] at found
      exact .inr found
  have below : ∀ other w, s.GetDatas other = some w → w.2 < s.varCount := fun other w found =>
    (registered.made w (registered.bound other w found).1).1
  have kept : ∀ w, (s.vars w).isSome →
      Function.update s.vars v (some { m_val := default_value }) w =
      s.vars w := fun w made => Function.update_of_ne (old w made) _ _
  refine ⟨⟨registered.log, fun other w found => ?_, fun w made => ?_,
    fun first second w x found found' same => ?_⟩,
    ⟨.refl _, names, fun w made => ?_, Nat.le_succ _⟩, fun lock absent => ?_⟩
  · rcases bound other w found with ⟨rfl, rfl⟩ | before
    · exact ⟨by simp [ConfigProgram.Config.create, v], valid⟩
    · obtain ⟨made, valid⟩ := registered.bound other w before
      exact ⟨(congrArg Option.isSome (kept w made)).trans made, valid⟩
  · by_cases new : w = v
    · subst new
      exact ⟨Nat.lt_succ_self _, name, Function.update_self _ _ _⟩
    · have made : (s.vars w).isSome := by
        have same : Function.update s.vars v (some { m_val := default_value }) w = s.vars w :=
          Function.update_of_ne new _ _
        exact (congrArg Option.isSome same).symm.trans made
      obtain ⟨less, other, found⟩ := registered.made w made
      exact ⟨Nat.lt_succ_of_lt less, other, names other w found⟩
  · rcases bound first w found with ⟨rfl, rfl⟩ | before
    · rcases bound second x found' with ⟨rfl, rfl⟩ | before'
      · rfl
      · exact absurd (same ▸ below second x before') (Nat.lt_irrefl _)
    · rcases bound second x found' with ⟨rfl, rfl⟩ | before'
      · exact absurd (same ▸ below first w before) (Nat.lt_irrefl _)
      · exact registered.once first second w x before before' same
  · exact (congrArg Option.isSome (kept w made)).trans made
  · cases lock with
    | map => exact absurd locked absent
    | var w =>
      intro var found
      exact (kept w (by rw [found]; rfl)).trans found
    | log lock => exact .refl lock s.log

end Process

namespace ConfigProgram

variable (lib : Libraries types) {α : Type} {held : HeldLocks (ConfigLock types)}

/-- Whatever locks the thread holds already, the program obeys the rules. -/
abbrev Keeps (held : HeldLocks (ConfigLock types)) (program : ConfigProgram types α) : Prop :=
  program.Steady (Process.rules types) held

theorem keeps_lift {program : LogProgram α} (keeps : LogProgram.Keeps [] program) :
    Keeps held (lift program : ConfigProgram types α) :=
  Steady.under (Obeys.zoom Process.embeds_log keeps)

theorem keeps_locked {lock : ConfigLock types} {mode : LockMode} {body : ConfigProgram types α}
    (inside : Keeps ((lock, mode) :: held) body) : Keeps held (locked lock mode body) :=
  steady_locked (fun _ => trivial) inside

theorem keeps_ignore {program : ConfigProgram types α} (keeps : Keeps held program) :
    Keeps held (ignore program) := steady_bind keeps fun _ => steady_pure _

theorem keeps_logRoot (level : LogLevel) (file : String) (line : Int) (text : String) :
    Keeps held (logRoot lib level file line text) :=
  keeps_lift (steady_bind (steady_read _) fun logger =>
    LogProgram.keeps_CHORD_LOG_LEVEL lib.platform level logger file line text)

section Variables
variable (v : VarPtr types)

theorem ConfigVar.keeps_toString : Keeps held (ConfigVar.toString lib v) := by
  refine steady_bind (keeps_locked (steady_read _)) fun text => ?_
  split
  · exact steady_pure _
  · exact steady_bind (keeps_logRoot lib _ _ _ _) fun _ => steady_pure _
  · exact steady_pure _

theorem ConfigVar.keeps_callback (tag : types.Tag) (old_value new_value : types.Val tag) :
    Keeps held (ConfigVar.callback lib tag old_value new_value) := by
  cases tag with
  | none => exact keeps_lift (LogProgram.LogIniter.keeps_onChange lib.platform old_value new_value)
  | some t => exact steady_pure _

/-- The members of a variable change with its lock. -/
theorem ConfigVar.keeps_update
    (f : ConfigVarMembers (types.Val v.1) → ConfigVarMembers (types.Val v.1)) :
    Keeps held (locked (.var v) .write (modify (ConfigVar.update v f))) :=
  keeps_locked (steady_modify fun _ registered =>
    Process.guarantee_update registered List.mem_cons_self f _)

theorem ConfigVar.keeps_setValue (val : types.Val v.1) :
    Keeps held (ConfigVar.setValue lib v val) := by
  have notified : Keeps held (ConfigVar.notify lib v val) := by
    refine keeps_locked (steady_bind (steady_read _) fun var => ?_)
    split
    · exact steady_pure _
    · split
      · exact steady_pure _
      · exact steady_bind (steady_forM fun _ _ => keeps_callback lib v.1 _ _) fun _ =>
          steady_pure _
  refine steady_bind notified fun changed => ?_
  split
  · exact keeps_update v _
  · exact steady_pure _

theorem ConfigVar.keeps_fromString (val : String) :
    Keeps held (ConfigVar.fromString lib v val) := by
  refine steady_bind (keeps_lift LogProgram.keeps_host) fun _ => ?_
  split
  · exact keeps_setValue lib v _
  · exact keeps_logRoot lib _ _ _ _

theorem ConfigVar.keeps_addListener (address : Nat) :
    Keeps held (ConfigVar.addListener address : ConfigProgram types Nat) := by
  exact keeps_locked (steady_call fun _ registered =>
    Process.guarantee_update registered List.mem_cons_self _ _)

end Variables

theorem Config.keeps_LoadFromYaml (node : Node) : Keeps held (Config.LoadFromYaml lib node) := by
  refine steady_bind (steady_forM fun text _ => keeps_logRoot lib _ _ _ text) fun _ =>
    steady_forM fun entry _ => ?_
  unfold Config.loadEntry
  split
  · exact steady_pure _
  · refine steady_bind (keeps_locked (steady_read _)) fun var => ?_
    split
    · exact steady_pure _
    · exact ConfigVar.keeps_fromString lib _ _

/-- What `Lookup(name, default_value)` may answer: the variable that the name is bound to, null
where it has another type, and the exception for a name that is not allowed. -/
def Config.LookupRight (tag : types.Tag) (name : String) :
    Except String (Option (VarPtr types)) → Process types → Prop
  | .ok (some v), s => v.1 = tag ∧ s.GetDatas name = some v
  | .ok none, s => ∃ v, s.GetDatas name = some v ∧ v.1 ≠ tag
  | .error what, _ => what = name ∧ validName name = false

theorem Config.stable_LookupRight (tag : types.Tag) (name : String)
    (result : Except String (Option (VarPtr types))) :
    (Process.rules types).Stable held (Config.LookupRight tag name result) := by
  refine stable_of_grows fun s t grows right => ?_
  match result with
  | .ok (some v) => exact ⟨right.1, grows.bound name v right.2⟩
  | .ok none => exact right.imp fun v bound => ⟨grows.bound name v bound.1, bound.2⟩
  | .error what => exact right

theorem Config.obeys_found (tag : types.Tag) (name : String) (it : VarPtr types) :
    (Config.found lib tag name it).Obeys (Process.rules types) held
      (fun result => Config.LookupRight tag name (.ok result)) held
      fun s => s.GetDatas name = some it := by
  have bound : ∀ s t : Process types, (Process.rules types).grows s t →
      s.GetDatas name = some it → t.GetDatas name = some it :=
    fun _ _ grows => grows.bound name it
  unfold Config.found
  split
  · rename_i same
    exact obeys_bind ((keeps_logRoot lib _ _ _ _).frame bound) fun _ =>
      obeys_pure fun _ _ found => ⟨same, found⟩
  · rename_i apart
    have null : ∀ s : Process types, (Process.rules types).valid s → s.GetDatas name = some it →
        Config.LookupRight tag name (.ok none) s := fun _ _ found => ⟨it, found, apart⟩
    refine obeys_bind (Steady.frame (keeps_lift (steady_read _)) bound) fun logger => ?_
    refine obeys_bind (Steady.frame
      (keeps_lift (LogProgram.keeps_LogEventWrap lib.platform _ logger _ _)) bound) fun event => ?_
    split
    · exact obeys_pure null
    · refine obeys_bind ((ConfigVar.keeps_toString lib it).frame bound) fun text => ?_
      exact obeys_bind (Steady.frame
        (keeps_lift (LogProgram.Logger.keeps_log lib.platform _ _ logger)) bound) fun _ =>
        obeys_pure null

/-- The name that is read as unbound is so until the variable is made, for the lock of the
registry is held in between. -/
theorem Config.obeys_Lookup (tag : types.Tag) (name : String) (default_value : types.Val tag) :
    (Config.Lookup lib tag name default_value).Obeys (Process.rules types) held
      (Config.LookupRight tag name) held fun _ => True := by
  let inside : HeldLocks (ConfigLock types) := (.map, .write) :: held
  have reads : (read fun s => s.GetDatas name : ConfigProgram types (Option (VarPtr types))).Obeys
      (Process.rules types) inside (fun it s => s.GetDatas name = it) inside fun _ => True :=
    obeys_read (fun it => stable_of_kept List.mem_cons_self fun s t kept found => kept.1 ▸ found)
      fun _ _ _ => rfl
  have creates : validName name = true →
      (call fun s => (create tag name default_value s, (tag, s.varCount)) :
          ConfigProgram types (VarPtr types)).Obeys (Process.rules types) inside
        (fun v => Config.LookupRight tag name (.ok (some v))) inside
        fun s => s.GetDatas name = none := fun valid =>
    obeys_call (fun s registered unbound => Process.guarantee_create registered List.mem_cons_self
      _ unbound valid) (fun v => Config.stable_LookupRight tag name (.ok (some v)))
      fun s _ _ => ⟨rfl, Function.update_self _ _ _⟩
  refine obeys_locked ?_ stable_true (fun _ _ _ _ => trivial) (Config.stable_LookupRight tag name)
    fun result s _ right => ⟨right, fun _ => trivial⟩
  refine obeys_bind reads fun it => ?_
  split
  · exact obeys_bind (obeys_found lib tag name _) fun result => obeys_pure fun _ _ right => right
  · split
    · rename_i valid
      exact obeys_bind (creates valid) fun v => obeys_pure fun _ _ right => right
    · rename_i invalid
      have logs : ∀ text, Keeps inside (logRoot lib .ERROR "config.h" 444 text) :=
        fun text => keeps_logRoot lib .ERROR "config.h" 444 text
      exact obeys_bind (logs _).obeys fun _ =>
        obeys_pure fun _ _ _ => ⟨rfl, Bool.eq_false_iff.mpr invalid⟩

/-- What a lookup finds in the registry stays there. -/
theorem Config.obeys_find {mode : LockMode} {f : Option (VarPtr types) → Option (VarPtr types)}
    {name : String} (part : ∀ it v, f it = some v → it = some v) :
    (locked .map mode (read fun s => f (s.GetDatas name)) :
        ConfigProgram types (Option (VarPtr types))).Obeys (Process.rules types) held
      (fun result s => ∀ v, result = some v → s.GetDatas name = some v) held fun _ => True := by
  have stable : ∀ (held : HeldLocks (ConfigLock types)) (result : Option (VarPtr types)),
      (Process.rules types).Stable held
        fun s => ∀ v, result = some v → s.GetDatas name = some v :=
    fun held result => stable_of_grows fun s t grows found v same =>
      grows.bound name v (found v same)
  exact obeys_locked (obeys_read (stable _) fun s _ _ v => part (s.GetDatas name) v) stable_true
    (fun _ _ _ _ => trivial) (stable held) fun _ _ _ found => ⟨found, fun _ => trivial⟩

end ConfigProgram

end Chord
