import ChordServer.ConfigLoadCase
import ChordServer.Fallible

set_option autoImplicit false

namespace Chord

open YAML

namespace Config

variable {φ σ : Type} {registered : String → Bool}

/-- The registry has variables of these names. -/
def Registers (config : Config φ σ) (registered : String → Bool) : Prop :=
  ∀ name, (config.GetDatas name).isSome = registered name

/-- A round registers nothing and takes nothing away. -/
theorem Registers.loadEntry {yaml : YamlCpp} {config next : Config φ σ} {entry : String × Node}
    (registers : config.Registers registered) (ran : loadEntry yaml config entry = .ok next) :
    next.Registers registered := by
  unfold Config.loadEntry at ran
  split at ran
  · cases ran
    exact registers
  · split at ran
    · cases ran
      exact registers
    · rename_i base found
      intro name
      have datas : ∃ var, next.GetDatas = Function.update config.GetDatas (tolower entry.1)
          (some { base with var := var }) := by
        unfold fromString at ran
        dsimp only at ran
        split at ran
        · cases ran
          exact ⟨_, rfl⟩
        · cases ran
          exact ⟨_, rfl⟩
        · cases ran
      obtain ⟨var, datas⟩ := datas
      rw [datas, ← registers name]
      by_cases here : name = tolower entry.1
      · have same : config.GetDatas (tolower entry.1) = some base := found
        rw [here, Function.update_self, same]
        rfl
      · rw [Function.update_of_ne here]

/-- The loop does nothing for the nodes that are not read. -/
theorem loadEntry_of_hit_none {yaml : YamlCpp} {config : Config φ σ} {keys : List String}
    {node : Node} (registers : config.Registers registered) (known : listed keys = true)
    (unread : hit registered keys node = none) :
    loadEntry yaml config (dotted keys, node) = .ok config := by
  unfold Config.loadEntry LookupBase
  split
  · rfl
  · rename_i nonempty
    have missing : registered (dotted keys) = false := by
      by_contra found
      have read := hit_eq_some_iff.mpr
        ⟨⟨nonempty, known, rfl⟩, eq_true_of_ne_false found, Eq.refl node⟩
      rw [unread] at read
      cases read
    rw [tolower_of_validName (validName_of_listed known)]
    rw [← registers (dotted keys), Option.isSome_eq_false_iff, Option.isNone_iff_eq_none]
      at missing
    rw [missing]

/-- The loop over the listed nodes is the loop over what is read. -/
theorem loadEntries_listing (yaml : YamlCpp) (entries : List (List String × Node)) :
    ∀ {config : Config φ σ}, config.Registers registered →
      loadEntries yaml (listing entries) config =
        loadEntries yaml (readings registered entries) config := by
  induction entries with
  | nil => exact fun _ => rfl
  | cons entry rest ih =>
    intro config registers
    by_cases known : listed entry.1 = true
    · rw [listing_cons_of_listed known, loadEntries_cons]
      cases read : hit registered entry.1 entry.2 with
      | none =>
        rw [loadEntry_of_hit_none registers known read, readings,
          List.filterMap_cons_none (by exact read)]
        exact ih registers
      | some reading =>
        obtain ⟨names, -, same⟩ := hit_eq_some_iff.mp read
        have node : reading = (dotted entry.1, entry.2) := Prod.ext names.2.2.symm same
        rw [readings, List.filterMap_cons_some (by exact read), node, loadEntries_cons]
        cases stepped : loadEntry yaml config (dotted entry.1, entry.2) with
        | error fault => rfl
        | ok next => exact ih (registers.loadEntry stepped)
    · have unread : hit registered entry.1 entry.2 = none := by
        rw [hit, if_neg fun both => known both.1.2.1]
      rw [listing_cons_of_unlisted known, readings, List.filterMap_cons_none (by exact unread)]
      exact ih registers

/-- What loading a document leaves in the registry depends on what is read of it only. -/
theorem LoadFromYaml_GetDatas {yaml : YamlCpp} {root : Node} {config : Config φ σ}
    (registers : config.Registers registered) :
    (LoadFromYaml yaml root config).map GetDatas =
      (loadEntries yaml (readings registered (preorder [] root)) config).map GetDatas := by
  have plain : ∀ result : Except φ (Config φ σ),
      (result.map unlogged).map GetDatas = result.map GetDatas := by
    intro result
    cases result <;> rfl
  calc (LoadFromYaml yaml root config).map GetDatas
    _ = ((loadEntries yaml (ListAllMember yaml "" root).1
          { config with errors := config.errors ++ (ListAllMember yaml "" root).2 }).map
            unlogged).map GetDatas := (plain _).symm
    _ = ((loadEntries yaml (ListAllMember yaml "" root).1 config.unlogged).map
            unlogged).map GetDatas := by rw [← loadEntries_unlogged]; rfl
    _ = (loadEntries yaml (ListAllMember yaml "" root).1 config).map GetDatas := by
        rw [loadEntries_unlogged, plain]
    _ = (loadEntries yaml (readings registered (preorder [] root)) config).map GetDatas := by
        rw [ListAllMember_root, loadEntries_listing yaml (preorder [] root) registers]

/-- Writing the keys in lower case makes no difference to the variables of any registry
with these names, whatever their types, values and listeners are. -/
def CaseBlind (yaml : YamlCpp) (registered : String → Bool) (root : Node) : Prop :=
  ∀ (φ σ : Type) (config : Config φ σ), config.Registers registered →
    (LoadFromYaml yaml (lowerKeys registered "" root) config).map GetDatas =
      (LoadFromYaml yaml root config).map GetDatas

/-- A listener that refuses a change as often as its state says. -/
def refuse (_ _ : Bool) : Nat → Outcome Empty Nat
  | 0 => .returned 0
  | left + 1 => .threw "refused" left

/-- A flag that every text sets, once the listener lets it. -/
def flag (value : Bool) : ConfigVarBase Empty Nat :=
  { T := Bool
    FromStr := fun _ => .ok true
    var := { m_val := value, m_cbs := ⟨[(1, refuse)], by simp⟩ } }

/-- A variable that no text sets. -/
def constant : ConfigVarBase Empty Nat :=
  { T := Unit, FromStr := fun _ => .error "constant", var := { m_val := () } }

/-- One variable is the flag, the others never change. -/
def flagged (registered : String → Bool) (name : String) (value : Bool) :
    String → Option (ConfigVarBase Empty Nat) :=
  fun other => if registered other then some (if other = name then flag value else constant)
    else none

/-- What a reading makes of the flag and of the refusals that are left. -/
def tick : Bool × Nat → Bool × Nat
  | (true, left) => (true, left)
  | (false, 0) => (true, 0)
  | (false, left + 1) => (false, left)

/-- The registry is the flagged one, in this state. -/
def Shows (registered : String → Bool) (name : String) (state : Bool × Nat)
    (config : Config Empty Nat) : Prop :=
  config.GetDatas = flagged registered name state.1 ∧ config.world = state.2

/-- A text for the flag is one tick. -/
theorem fromString_flag (config : Config Empty Nat) (name text : String) (value : Bool) :
    ∃ next, config.fromString name (flag value) text = .ok next ∧
      next.GetDatas = Function.update config.GetDatas name
        (some (flag (tick (value, config.world)).1)) ∧
      next.world = (tick (value, config.world)).2 := by
  unfold fromString
  cases value with
  | true => exact ⟨_, rfl, rfl, rfl⟩
  | false =>
    cases left : config.world with
    | zero => exact ⟨_, rfl, rfl, rfl⟩
    | succ left => exact ⟨_, rfl, rfl, rfl⟩

theorem fromString_constant (config : Config Empty Nat) (name text : String) :
    ∃ next, config.fromString name constant text = .ok next ∧
      next.GetDatas = Function.update config.GetDatas name (some constant) ∧
      next.world = config.world :=
  ⟨_, rfl, rfl, rfl⟩

theorem update_flagged {name other : String} (value next : Bool)
    (known : registered other = true) :
    Function.update (flagged registered name value) other
        (some (if other = name then flag next else constant)) =
      flagged registered name (if other = name then next else value) := by
  funext third
  by_cases here : third = other
  · subst here
    rw [Function.update_self, flagged, if_pos known]
    split <;> rfl
  · rw [Function.update_of_ne here, flagged, flagged]
    by_cases same : other = name
    · have apart : third ≠ name := fun equal => here (equal.trans same.symm)
      rw [if_neg apart, if_neg apart]
    · rw [if_neg same]

/-- One reading is one tick of the flag when it is the flag's. -/
theorem loadEntry_shows (yaml : YamlCpp) {name : String} {state : Bool × Nat}
    {config : Config Empty Nat} (showing : Shows registered name state config)
    {reading : String × Node} (nonempty : reading.1 ≠ "")
    (lower : tolower reading.1 = reading.1) (known : registered reading.1 = true) :
    ∃ next, loadEntry yaml config reading = .ok next ∧
      Shows registered name (if reading.1 = name then tick state else state) next := by
  obtain ⟨value, left⟩ := state
  obtain ⟨datas, world⟩ := showing
  dsimp only at datas world
  have found : config.LookupBase reading.1 =
      some (if reading.1 = name then flag value else constant) := by
    rw [LookupBase, datas, flagged, if_pos known]
  unfold Config.loadEntry
  rw [if_neg nonempty, lower, found]
  dsimp only
  by_cases here : reading.1 = name
  · rw [if_pos here, if_pos here]
    obtain ⟨next, ran, stored, moved⟩ :=
      fromString_flag config reading.1 (nodeText yaml reading.2) value
    rw [world] at stored moved
    have update := @update_flagged registered name reading.1 value (tick (value, left)).1 known
    rw [if_pos here, if_pos here, ← datas] at update
    exact ⟨next, ran, stored.trans update, moved⟩
  · rw [if_neg here, if_neg here]
    obtain ⟨next, ran, stored, moved⟩ :=
      fromString_constant config reading.1 (nodeText yaml reading.2)
    have update := @update_flagged registered name reading.1 value value known
    rw [if_neg here, if_neg here, ← datas] at update
    exact ⟨next, ran, stored.trans (update.trans datas), moved.trans world⟩

/-- The loop is as many ticks as the flag is read. -/
theorem loadEntries_shows (yaml : YamlCpp) {name : String} (items : List (String × Node)) :
    (∀ reading ∈ items, reading.1 ≠ "" ∧ tolower reading.1 = reading.1 ∧
      registered reading.1 = true) →
    ∀ {state : Bool × Nat} {config : Config Empty Nat}, Shows registered name state config →
      ∃ final, loadEntries yaml items config = .ok final ∧
        Shows registered name (tick^[items.countP fun reading => reading.1 = name] state)
          final := by
  induction items with
  | nil => exact fun _ _ config showing => ⟨config, rfl, showing⟩
  | cons reading rest ih =>
    intro readable state config showing
    obtain ⟨⟨nonempty, lower, known⟩, readable⟩ := List.forall_mem_cons.mp readable
    obtain ⟨next, stepped, shown⟩ := loadEntry_shows yaml showing nonempty lower known
    obtain ⟨final, ran, ended⟩ := ih readable shown
    refine ⟨final, by rw [loadEntries_cons, stepped]; exact ran, ?_⟩
    by_cases here : reading.1 = name
    · rw [if_pos here] at ended
      rw [List.countP_cons_of_pos (by exact decide_eq_true here), Function.iterate_succ_apply]
      exact ended
    · rw [if_neg here] at ended
      rw [List.countP_cons_of_neg (by simpa using here)]
      exact ended

/-- The flag is refused as often as the state says, and set by the reading after that. -/
theorem tick_iterate (count : Nat) :
    ∀ left, (tick^[count] (false, left)).1 = decide (left < count) := by
  have set : ∀ more left, (tick^[more] (true, left)).1 = true := by
    intro more
    induction more with
    | zero => exact fun _ => rfl
    | succ more ih => exact ih
  induction count with
  | zero => exact fun left => (decide_eq_false (Nat.not_lt_zero left)).symm
  | succ count ih =>
    intro left
    rw [Function.iterate_succ_apply]
    cases left with
    | zero => exact (set count 0).trans (decide_eq_true count.succ_pos).symm
    | succ left => simpa [tick] using ih left

theorem flag_injective {value other : Bool} (same : flag value = flag other) : value = other := by
  simpa [flag] using same

theorem registers_flagged (registered : String → Bool) (name : String) (value : Bool)
    (left : Nat) : Registers
      ({ GetDatas := flagged registered name value, world := left } : Config Empty Nat)
      registered := by
  intro other
  dsimp only [flagged]
  cases registered other <;> rfl

/-- What a document makes of the flag. -/
theorem LoadFromYaml_flagged (yaml : YamlCpp) (root : Node) {name : String} (left : Nat) :
    (LoadFromYaml yaml root
        ({ GetDatas := flagged registered name false, world := left } : Config Empty Nat)).map
        GetDatas =
      .ok (flagged registered name
        (decide (left < readingsOf registered name (preorder [] root)))) := by
  rw [LoadFromYaml_GetDatas (registers_flagged registered name false left)]
  have readable : ∀ reading ∈ readings registered (preorder [] root), reading.1 ≠ "" ∧
      tolower reading.1 = reading.1 ∧ registered reading.1 = true := by
    intro reading member
    obtain ⟨entry, -, read⟩ := List.mem_filterMap.mp member
    obtain ⟨⟨nonempty, known, same⟩, bound, -⟩ := hit_eq_some_iff.mp read
    have lower := tolower_of_validName (validName_of_listed known)
    rw [same] at lower
    exact ⟨nonempty, lower, bound⟩
  obtain ⟨final, ran, datas, -⟩ := @loadEntries_shows registered yaml name _ readable (false, left)
    { GetDatas := flagged registered name false, world := left } ⟨rfl, rfl⟩
  rw [tick_iterate] at datas
  rw [ran]
  exact congrArg Except.ok datas

/-- Case makes no difference to loading where the names of variables are spelled low. -/
theorem caseBlind_iff_spelledLow (yaml : YamlCpp) (registered : String → Bool) (root : Node) :
    CaseBlind yaml registered root ↔ SpelledLow registered root := by
  constructor
  · intro blind entry member name known names
    by_contra unnamed
    have more := readingsOf_lt member known names unnamed
    have same := blind Empty Nat _ (registers_flagged registered name false
      (readingsOf registered name (preorder [] root)))
    rw [LoadFromYaml_flagged, LoadFromYaml_flagged, decide_eq_true more,
      decide_eq_false (Nat.lt_irrefl _)] at same
    have values := congrFun (Except.ok.inj same) name
    rw [flagged, flagged, if_pos known, if_pos known, if_pos rfl, if_pos rfl] at values
    exact Bool.noConfusion (flag_injective (Option.some.inj values))
  · intro low φ σ config registers
    rw [LoadFromYaml_GetDatas registers, LoadFromYaml_GetDatas registers,
      readings_eq_of_spelledLow low]

/-- A capital letter keeps a key from being read. -/
theorem capital_is_not_read :
    let name : ConfigVarBase Empty Unit :=
      { T := String, FromStr := .ok, var := { m_val := "chord" } }
    let config : Config Empty Unit :=
      { GetDatas := fun other => if other = "name" then some name else none, world := () }
    let document : Node := .Map [("Name", .Scalar "main")]
    ((LoadFromYaml Flow.yaml document config).map fun final => final.GetDatas "name") =
        .ok (some (name.store "chord")) ∧
      ((LoadFromYaml Flow.yaml (lowerKeys (· == "name") "" document) config).map
        fun final => final.GetDatas "name") = .ok (some (name.store "main")) ∧
      ¬ CaseBlind Flow.yaml (· == "name") document := by
  intro name config document
  have written : ((LoadFromYaml Flow.yaml document config).map
      fun final => final.GetDatas "name") = .ok (some (name.store "chord")) := rfl
  have lowered : ((LoadFromYaml Flow.yaml (lowerKeys (· == "name") "" document) config).map
      fun final => final.GetDatas "name") = .ok (some (name.store "main")) := rfl
  have registers : config.Registers (· == "name") := by
    intro other
    by_cases here : other = "name" <;> simp [config, here]
  have seen : ∀ result : Except Empty (Config Empty Unit),
      (result.map GetDatas).map (fun datas => datas "name") =
        result.map fun final => final.GetDatas "name" := by
    intro result
    cases result <;> rfl
  refine ⟨written, lowered, fun blind => ?_⟩
  have same := congrArg (Except.map fun datas => datas "name") (blind Empty Unit config registers)
  rw [seen, seen, written, lowered] at same
  have texts := Option.some.inj (Except.ok.inj same)
  simp [name, ConfigVarBase.store] at texts

end Config

end Chord
