import ChordServer.ConfigLoad

set_option autoImplicit false

namespace Chord

open YAML

variable {φ σ : Type}

namespace ConfigVar

variable {T : Type}

/-- The listeners of the variable neither throw nor lose the process. -/
def Quiet (var : ConfigVar T φ σ) : Prop :=
  ∀ listener ∈ var.m_cbs, ∀ old new state, ∃ next, listener.2 old new state = .returned next

theorem notify_returned {old new : T} {listeners : List (Nat × on_change_cb T φ σ)}
    (quiet : ∀ listener ∈ listeners, ∀ state, ∃ next, listener.2 old new state = .returned next)
    (state : σ) : ∃ next, (notify old new listeners state).2 = .returned next := by
  induction listeners generalizing state with
  | nil => exact ⟨state, rfl⟩
  | cons listener rest ih =>
    obtain ⟨here, later⟩ := List.forall_mem_cons.mp quiet
    obtain ⟨middle, called⟩ := here state
    obtain ⟨next, ended⟩ := ih later middle
    exact ⟨next, by simp only [notify, called, ended]⟩

/-- The value after an assignment that leaves an equal one alone. -/
def assign [BEq T] (old new : T) : T := if new == old then old else new

theorem setValue_returned [BEq T] {var : ConfigVar T φ σ} (quiet : var.Quiet) (val : T)
    (state : σ) :
    ∃ next, (var.setValue val state).outcome = .returned next ∧
      (var.setValue val state).var = { var with m_val := assign var.m_val val } ∧
      (var.setValue val state).errors = [] := by
  unfold setValue assign
  split
  · exact ⟨state, rfl, rfl, rfl⟩
  · obtain ⟨next, ended⟩ := notify_returned
      (fun listener member => quiet listener member var.m_val val) state
    split
    · rename_i called final notified
      exact ⟨final, rfl, rfl, rfl⟩
    · rename_i called stopped unfinished notified
      rw [notified] at ended
      exact absurd ended (unfinished next)

/-- The value after `fromString`, which a text that does not parse leaves alone. -/
def read [BEq T] (FromStr : String → Except String T) (old : T) (text : String) : T :=
  match FromStr text with
  | .ok new => assign old new
  | .error _ => old

theorem fromString_returned [BEq T] {var : ConfigVar T φ σ} (quiet : var.Quiet)
    (FromStr : String → Except String T) (text : String) (state : σ) :
    ∃ next, (var.fromString FromStr text state).outcome = .returned next ∧
      (var.fromString FromStr text state).var =
        { var with m_val := read FromStr var.m_val text } := by
  unfold fromString read
  cases FromStr text with
  | error what => exact ⟨state, rfl, rfl⟩
  | ok val =>
    obtain ⟨next, ended, stored, -⟩ := setValue_returned quiet val state
    exact ⟨next, by simp only [ended], by simp only [ended, stored]⟩

/-- The value is the given one as far as the type's `operator==` can tell. -/
def Holds [BEq T] (value stored : T) : Prop := value = stored ∨ (stored == value) = true

theorem holds_assign [BEq T] (old new : T) : Holds (assign old new) new := by
  unfold assign
  split
  · rename_i same
    exact .inr same
  · exact .inl rfl

end ConfigVar

namespace ConfigVarBase

/-- The variable with another value. -/
def store (base : ConfigVarBase φ σ) (value : base.T) : ConfigVarBase φ σ :=
  { base with var := { base.var with m_val := value } }

/-- What one listed node makes of the value of the variable called `name`. -/
def readEntry (base : ConfigVarBase φ σ) (yaml : YamlCpp) (name : String) (value : base.T)
    (entry : String × Node) : base.T :=
  if entry.1 ≠ "" ∧ tolower entry.1 = name then
    ConfigVar.read base.FromStr value (nodeText yaml entry.2)
  else value

end ConfigVarBase

namespace Config

/-- No listener of any variable throws. -/
def Quiet (config : Config φ σ) : Prop :=
  ∀ name base, config.GetDatas name = some base → base.var.Quiet

/-- The registry with the values that `values` gives its variables. -/
def Stores (config final : Config φ σ)
    (values : String → (base : ConfigVarBase φ σ) → base.T) : Prop :=
  ∀ name, final.GetDatas name = (config.GetDatas name).map fun base =>
    base.store (values name base)

theorem Stores.quiet {config final : Config φ σ}
    {values : String → (base : ConfigVarBase φ σ) → base.T} (stores : Stores config final values)
    (quiet : config.Quiet) : final.Quiet := by
  intro name base found
  rw [stores name, Option.map_eq_some_iff] at found
  obtain ⟨old, registered, rfl⟩ := found
  exact quiet name old registered

/-- One round returns, gives each variable the value read, and calls the listeners
of no other variable than the named one. -/
theorem loadEntry_returned (yaml : YamlCpp) {config : Config φ σ} (quiet : config.Quiet)
    (entry : String × Node) :
    ∃ next, loadEntry yaml config entry = .ok next ∧
      Stores config next (fun name base => base.readEntry yaml name base.var.m_val entry) ∧
      ∃ calls, next.called = config.called ++ calls ∧
        ∀ call ∈ calls, entry.1 ≠ "" ∧ tolower entry.1 = call.1 := by
  have same : ∀ base : ConfigVarBase φ σ, base.store base.var.m_val = base := fun _ => rfl
  unfold loadEntry
  by_cases empty : entry.1 = ""
  · rw [if_pos empty]
    refine ⟨config, rfl, fun name => ?_, [], by simp, by simp⟩
    simp [ConfigVarBase.readEntry, empty, same]
  rw [if_neg empty]
  cases registered : config.LookupBase (tolower entry.1) with
  | none =>
    refine ⟨config, rfl, fun name => ?_, [], by simp, by simp⟩
    cases found : config.GetDatas name with
    | none => rfl
    | some base =>
      have other : tolower entry.1 ≠ name := by
        rintro rfl
        simp [LookupBase, found] at registered
      simp [ConfigVarBase.readEntry, other, same]
  | some base =>
    have registered : config.GetDatas (tolower entry.1) = some base := registered
    obtain ⟨world, ended, read⟩ := ConfigVar.fromString_returned
      (quiet (tolower entry.1) base registered) base.FromStr (nodeText yaml entry.2) config.world
    simp only [fromString, ended]
    refine ⟨_, rfl, fun name => ?_, _, rfl, ?_⟩
    · dsimp only
      by_cases here : tolower entry.1 = name
      · subst here
        rw [Function.update_self, registered, Option.map_some, read]
        simp [ConfigVarBase.readEntry, ConfigVarBase.store, empty]
      · rw [Function.update_of_ne (Ne.symm here)]
        cases config.GetDatas name with
        | none => rfl
        | some other => simp [ConfigVarBase.readEntry, here, same]
    · intro call member
      obtain ⟨key, -, rfl⟩ := List.mem_map.mp member
      exact ⟨empty, rfl⟩

theorem loadEntries_cons (yaml : YamlCpp) (config : Config φ σ) (entry : String × Node)
    (rest : List (String × Node)) :
    loadEntries yaml (entry :: rest) config =
      (loadEntry yaml config entry).bind (loadEntries yaml rest) := rfl

/-- The loop returns and leaves every variable with what the listed nodes make of it. -/
theorem loadEntries_returned (yaml : YamlCpp) (entries : List (String × Node)) :
    ∀ {config : Config φ σ}, config.Quiet →
      ∃ final, loadEntries yaml entries config = .ok final ∧
        Stores config final
          (fun name base => entries.foldl (base.readEntry yaml name) base.var.m_val) ∧
        ∃ calls, final.called = config.called ++ calls ∧ ∀ call ∈ calls,
          ∃ entry ∈ entries, entry.1 ≠ "" ∧ tolower entry.1 = call.1 := by
  induction entries with
  | nil =>
    intro config quiet
    refine ⟨config, rfl, fun name => ?_, [], by simp, by simp⟩
    cases config.GetDatas name <;> rfl
  | cons entry rest ih =>
    intro config quiet
    obtain ⟨next, stepped, stored, calls, called, named⟩ :=
      loadEntry_returned yaml quiet entry
    obtain ⟨final, ran, values, later, recorded, names⟩ := ih (stored.quiet quiet)
    refine ⟨final, by rw [loadEntries_cons, stepped]; exact ran, fun name => ?_,
      calls ++ later, by rw [recorded, called, List.append_assoc], ?_⟩
    · rw [values name, stored name, Option.map_map]
      rfl
    · intro call member
      rcases List.mem_append.mp member with member | member
      · exact ⟨entry, by simp, named call member⟩
      · obtain ⟨other, inside, names⟩ := names call member
        exact ⟨other, by simp [inside], names⟩

end Config

end Chord
