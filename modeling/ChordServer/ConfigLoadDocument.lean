import ChordServer.ConfigLoadRegistry
import ChordServer.YamlFlow

set_option autoImplicit false

namespace Chord

open YAML

variable {φ σ : Type}

/-- The keys lead to a listed node whose dotted path is the name of a variable. -/
def Names (keys : List String) (name : String) : Prop :=
  name ≠ "" ∧ listed keys ∧ dotted keys = name

instance (keys : List String) (name : String) : Decidable (Names keys name) :=
  inferInstanceAs (Decidable (_ ∧ _))

/-- The value that a document gives a variable: each node of the preorder that has
the variable's name and parses stores what it parses to. -/
def ConfigVarBase.documentValue (base : ConfigVarBase φ σ) (yaml : YamlCpp) (name : String)
    (root : Node) : base.T :=
  (preorder [] root).foldl (fun value entry =>
    if Names entry.1 name then
      match base.FromStr (nodeText yaml entry.2) with
      | .ok parsed => parsed
      | .error _ => value
    else value) base.var.m_val

theorem tolower_of_validName {name : String} (valid : validName name = true) :
    tolower name = name := by
  have lower : ("abcefghijklmnopqrstuvwxyz._012345678".toList.all
      fun c => c.toLower == c) = true := by decide
  have unchanged : name.toList.map Char.toLower = name.toList := by
    refine (List.map_congr_left fun c member => ?_).trans (List.map_id _)
    refine beq_iff_eq.mp (List.all_eq_true.mp lower c ?_)
    simpa only [decide_eq_true_eq] using List.all_eq_true.mp valid c member
  rw [tolower, unchanged, String.ofList_toList]

theorem validName_of_listed {keys : List String} (known : listed keys = true) :
    validName (dotted keys) = true :=
  List.all_eq_true.mp known keys (by simp)

/-- Reading the listing gives what the document says. -/
theorem holds_listing (base : ConfigVarBase φ σ) (yaml : YamlCpp) (name : String)
    (entries : List (List String × Node)) :
    ∀ {value stored : base.T}, ConfigVar.Holds value stored →
      ConfigVar.Holds ((listing entries).foldl (base.readEntry yaml name) value)
        (entries.foldl (fun value entry =>
          if Names entry.1 name then
            match base.FromStr (nodeText yaml entry.2) with
            | .ok parsed => parsed
            | .error _ => value
          else value) stored) := by
  induction entries with
  | nil => exact fun holds => holds
  | cons entry rest ih =>
    intro value stored holds
    rw [List.foldl_cons]
    by_cases known : listed entry.1 = true
    · have lower := tolower_of_validName (validName_of_listed known)
      rw [listing_cons_of_listed known, List.foldl_cons]
      apply ih
      by_cases named : Names entry.1 name
      · obtain ⟨nonempty, -, same⟩ := named
        have read : dotted entry.1 ≠ "" ∧ tolower (dotted entry.1) = name :=
          ⟨by rwa [same], lower.trans same⟩
        rw [ConfigVarBase.readEntry, if_pos read, if_pos ⟨nonempty, known, same⟩, ConfigVar.read]
        cases base.FromStr (nodeText yaml entry.2) with
        | ok parsed => exact ConfigVar.holds_assign value parsed
        | error what => exact holds
      · have other : ¬ (dotted entry.1 ≠ "" ∧ tolower (dotted entry.1) = name) := by
          rintro ⟨nonempty, same⟩
          rw [lower] at same
          exact named ⟨by rwa [← same], known, same⟩
        rw [ConfigVarBase.readEntry, if_neg other, if_neg named]
        exact holds
    · rw [listing_cons_of_unlisted known, if_neg fun named => known named.2.1]
      exact ih holds

/-- Nodes of other names leave a variable alone. -/
theorem ConfigVarBase.readEntries_of_unnamed (base : ConfigVarBase φ σ) (yaml : YamlCpp)
    (name : String) {entries : List (String × Node)}
    (unnamed : ∀ entry ∈ entries, ¬ (entry.1 ≠ "" ∧ tolower entry.1 = name)) (value : base.T) :
    entries.foldl (base.readEntry yaml name) value = value := by
  induction entries with
  | nil => rfl
  | cons entry rest ih =>
    obtain ⟨other, unnamed⟩ := List.forall_mem_cons.mp unnamed
    rw [List.foldl_cons, readEntry, if_neg other]
    exact ih unnamed

namespace Config

/-- The registry, the rest of the process and the calls, without the error messages. -/
def unlogged (config : Config φ σ) : Config φ σ := { config with errors := [] }

/-- No round reads the messages of earlier ones. -/
theorem loadEntry_unlogged (yaml : YamlCpp) (config : Config φ σ) (entry : String × Node) :
    (loadEntry yaml config.unlogged entry).map unlogged =
      (loadEntry yaml config entry).map unlogged := by
  unfold loadEntry LookupBase unlogged
  dsimp only
  split
  · rfl
  · split
    · rfl
    · unfold fromString
      dsimp only
      split <;> rfl

theorem loadEntries_unlogged (yaml : YamlCpp) (entries : List (String × Node)) :
    ∀ config : Config φ σ, (loadEntries yaml entries config.unlogged).map unlogged =
      (loadEntries yaml entries config).map unlogged := by
  induction entries with
  | nil => exact fun _ => rfl
  | cons entry rest ih =>
    intro config
    have stepped := loadEntry_unlogged yaml config entry
    rw [loadEntries_cons, loadEntries_cons]
    cases quietly : loadEntry yaml config.unlogged entry with
    | error fault =>
      cases loudly : loadEntry yaml config entry with
      | error other => rw [quietly, loudly] at stepped; exact stepped
      | ok next => rw [quietly, loudly] at stepped; cases stepped
    | ok next =>
      cases loudly : loadEntry yaml config entry with
      | error fault => rw [quietly, loudly] at stepped; cases stepped
      | ok other =>
        rw [quietly, loudly] at stepped
        have same : next.unlogged = other.unlogged := Except.ok.inj stepped
        calc (loadEntries yaml rest next).map unlogged
          _ = (loadEntries yaml rest next.unlogged).map unlogged := (ih next).symm
          _ = (loadEntries yaml rest other.unlogged).map unlogged := by rw [same]
          _ = (loadEntries yaml rest other).map unlogged := ih other

theorem loadEntries_append (yaml : YamlCpp) (first second : List (String × Node))
    (config : Config φ σ) :
    loadEntries yaml (first ++ second) config =
      (loadEntries yaml first config).bind (loadEntries yaml second) :=
  List.foldlM_append

/-- The text of the listed node does not parse as the type of the variable it names. -/
def Fails (yaml : YamlCpp) (config : Config φ σ) (entry : String × Node) : Prop :=
  ∃ base what, config.GetDatas (tolower entry.1) = some base ∧
    base.FromStr (nodeText yaml entry.2) = .error what

/-- A node that does not parse leaves a message and nothing else. -/
theorem loadEntry_of_fails (yaml : YamlCpp) {config : Config φ σ} {entry : String × Node}
    (fails : Fails yaml config entry) :
    ∃ next, loadEntry yaml config entry = .ok next ∧ next.unlogged = config.unlogged := by
  obtain ⟨base, what, registered, failed⟩ := fails
  unfold loadEntry LookupBase
  split
  · exact ⟨config, rfl, rfl⟩
  · simp only [registered, fromString, ConfigVar.fromString, failed]
    refine ⟨_, rfl, ?_⟩
    have same : Function.update config.GetDatas (tolower entry.1) (some base) =
        config.GetDatas := by
      rw [← registered, Function.update_eq_self]
    simp only [unlogged, List.map_nil, List.append_nil]
    exact congrArg (fun datas => { config with GetDatas := datas, errors := [] }) same

/-- What loading a document does to the registry. -/
structure LoadsDocument (yaml : YamlCpp) (root : Node) (config final : Config φ σ) : Prop where
  values : ∀ name base, config.GetDatas name = some base → ∃ value,
    final.GetDatas name = some (base.store value) ∧
      ConfigVar.Holds value (base.documentValue yaml name root)
  absent : ∀ name, config.GetDatas name = none → final.GetDatas name = none
  isolated : ∀ before entry after, (ListAllMember yaml "" root).1 = before ++ entry :: after →
    Fails yaml config entry →
    (loadEntries yaml (before ++ after) config).map unlogged = .ok final.unlogged
  unmatched : ∀ name, (∀ entry ∈ preorder [] root, ¬ Names entry.1 name) →
    final.GetDatas name = config.GetDatas name
  called : ∃ calls, final.called = config.called ++ calls ∧
    ∀ call ∈ calls, ∃ entry ∈ preorder [] root, Names entry.1 call.1

/-- Leaving a node out that does not parse makes no difference but to the messages. -/
theorem loadEntries_isolated (yaml : YamlCpp) {config : Config φ σ} (quiet : config.Quiet)
    {before after : List (String × Node)} {entry : String × Node}
    (fails : Fails yaml config entry) :
    (loadEntries yaml (before ++ after) config).map unlogged =
      (loadEntries yaml (before ++ entry :: after) config).map unlogged := by
  obtain ⟨middle, ran, stored, -⟩ := loadEntries_returned yaml before quiet
  obtain ⟨base, what, registered, failed⟩ := fails
  have later : Fails yaml middle entry := by
    refine ⟨base.store (before.foldl (base.readEntry yaml (tolower entry.1)) base.var.m_val),
      what, ?_, failed⟩
    rw [stored, registered]
    rfl
  obtain ⟨next, stepped, same⟩ := loadEntry_of_fails yaml later
  rw [loadEntries_append, loadEntries_append, ran]
  change (loadEntries yaml after middle).map unlogged =
    (loadEntries yaml (entry :: after) middle).map unlogged
  rw [loadEntries_cons, stepped]
  calc (loadEntries yaml after middle).map unlogged
    _ = (loadEntries yaml after middle.unlogged).map unlogged :=
        (loadEntries_unlogged yaml after middle).symm
    _ = (loadEntries yaml after next.unlogged).map unlogged := by rw [same]
    _ = (loadEntries yaml after next).map unlogged := loadEntries_unlogged yaml after next

/-- A listed entry that names a variable is a node of the document that does. -/
theorem names_of_listed {yaml : YamlCpp} {root : Node} {entry : String × Node} {name : String}
    (member : entry ∈ (ListAllMember yaml "" root).1)
    (named : entry.1 ≠ "" ∧ tolower entry.1 = name) :
    ∃ node ∈ preorder [] root, Names node.1 name := by
  rw [ListAllMember_root, listing, List.mem_map] at member
  obtain ⟨node, inside, rfl⟩ := member
  obtain ⟨inside, known⟩ := List.mem_filter.mp inside
  obtain ⟨nonempty, same⟩ := named
  rw [tolower_of_validName (validName_of_listed known)] at same
  exact ⟨node, inside, by rwa [← same], known, same⟩

/-- Loading a document returns, stores what the document says and nothing else, and
keeps the nodes that do not parse from having any effect. -/
theorem LoadFromYaml_loadsDocument (yaml : YamlCpp) (root : Node) (config : Config φ σ)
    (quiet : config.Quiet) :
    ∃ final, LoadFromYaml yaml root config = .ok final ∧
      LoadsDocument yaml root config final := by
  obtain ⟨final, ran, stored, calls, called, named⟩ :=
    @loadEntries_returned φ σ yaml (ListAllMember yaml "" root).1
      { config with errors := config.errors ++ (ListAllMember yaml "" root).2 } quiet
  have names : ∀ call ∈ calls, ∃ node ∈ preorder [] root, Names node.1 call.1 := by
    intro call member
    obtain ⟨entry, inside, names⟩ := named call member
    exact names_of_listed inside names
  refine ⟨final, ran, ?_, ?_, ?_, ?_, calls, called, names⟩
  · intro name base registered
    refine ⟨_, by rw [stored name, registered]; rfl, ?_⟩
    rw [ListAllMember_root]
    exact holds_listing base yaml name _ (.inl rfl)
  · intro name missing
    rw [stored name, missing]
    rfl
  · intro before entry after shape fails
    rw [loadEntries_isolated yaml quiet fails, ← shape]
    calc (loadEntries yaml (ListAllMember yaml "" root).1 config).map unlogged
      _ = (loadEntries yaml (ListAllMember yaml "" root).1 config.unlogged).map unlogged :=
          (loadEntries_unlogged yaml _ config).symm
      _ = (LoadFromYaml yaml root config).map unlogged :=
          loadEntries_unlogged yaml _
            { config with errors := config.errors ++ (ListAllMember yaml "" root).2 }
      _ = .ok final.unlogged := congrArg _ ran
  · intro name unnamed
    rw [stored name]
    cases config.GetDatas name with
    | none => rfl
    | some base =>
      refine congrArg some (congrArg base.store (base.readEntries_of_unnamed yaml name ?_ _))
      intro entry member named
      obtain ⟨node, inside, names⟩ := names_of_listed member named
      exact unnamed node inside names

/-- One variable with a listener that counts its calls, and a document that sets it. -/
theorem LoadFromYaml_loads_port :
    let port : ConfigVarBase Empty Nat :=
      { T := Nat
        FromStr := fun text => match text.toNat? with
          | some value => .ok value
          | none => .error "bad lexical cast"
        var := { m_val := 80, m_cbs := ⟨[(1, fun _ _ calls => .returned (calls + 1))], by simp⟩ } }
    let config : Config Empty Nat :=
      { GetDatas := fun name => if name = "port" then some port else none, world := 0 }
    let document : Node := .Map [("port", .Scalar "8080"), ("Port", .Null)]
    ∃ final, LoadFromYaml Flow.yaml document config = .ok final ∧
      LoadsDocument Flow.yaml document config final := by
  intro port config document
  refine LoadFromYaml_loadsDocument Flow.yaml document config ?_
  intro name base found
  dsimp only [config] at found
  split at found
  · cases found
    intro listener member old new state
    obtain rfl := List.mem_singleton.mp member
    exact ⟨state + 1, rfl⟩
  · cases found

end Config

end Chord
