import ChordServer.ConfigRegistryRuns

set_option autoImplicit false

namespace Chord

open YAML

/-- The parts of a name between its dots. -/
def components (name : String) : List String := (name.toList.splitOn '.').map String.ofList

/-- A name of lowercase letters, digits, underscores and dots, with something before, between
and after the dots. -/
def WellNamed (name : String) : Prop :=
  (∀ c ∈ name.toList, c ∈ "abcdefghijklmnopqrstuvwxyz0123456789_.".toList) ∧
    ∀ key ∈ components name, key ≠ ""

instance (name : String) : Decidable (WellNamed name) :=
  @instDecidableAnd _ _ (List.decidableBAll _ _) (List.decidableBAll _ _)

/-- Maps inside of each other that lead to a scalar. -/
def nested (text : String) : List String → Node
  | [] => .Scalar text
  | key :: rest => .Map [(key, nested text rest)]

/-- The name begins with the path and a dot. -/
def DottedPrefix (path name : String) : Prop := ∃ rest, name = path ++ "." ++ rest

/-- The parts of a name lead to it. -/
theorem extend_components {name : String} (parts : ∀ key ∈ components name, key ≠ "") :
    extend "" (components name) = name := by
  have kept : (components name).dropWhile (· = "") = components name := by
    cases shape : components name with
    | nil => rfl
    | cons key rest =>
      have nonempty : key ≠ "" := parts key (shape ▸ List.mem_cons_self)
      rw [List.dropWhile_cons_of_neg (by simpa using nonempty)]
  rw [← dotted_eq_extend, dotted, kept]
  apply String.toList_inj.mp
  rw [String.toList_intercalate, components, List.map_map]
  simp only [Function.comp_def, String.toList_ofList, List.map_id']
  exact List.intercalate_splitOn '.'

theorem memberName_of_ne {path : String} (nonempty : path ≠ "") (key : String) :
    memberName path key = path ++ "." ++ key := if_neg nonempty

theorem dottedPrefix_extend (keys : List String) :
    ∀ {path : String}, path ≠ "" → keys ≠ [] → DottedPrefix path (extend path keys) := by
  induction keys with
  | nil => exact fun _ none => absurd rfl none
  | cons key rest ih =>
    intro path nonempty _
    have step : extend path (key :: rest) = extend (path ++ "." ++ key) rest := by
      rw [extend, List.foldl_cons, memberName_of_ne nonempty]
      rfl
    rw [step]
    by_cases last : rest = []
    · exact ⟨key, by rw [last]; rfl⟩
    · have further : path ++ "." ++ key ≠ "" := by
        intro empty
        simp at empty
      obtain ⟨more, shape⟩ := ih further last
      exact ⟨key ++ "." ++ more, by rw [shape]; simp only [String.append_assoc]⟩

theorem DottedPrefix.ne {path name : String} (begins : DottedPrefix path name) : path ≠ name := by
  rintro rfl
  obtain ⟨rest, shape⟩ := begins
  have lengths := congrArg String.length shape
  simp only [String.length_append] at lengths
  have dot : ".".length = 1 := rfl
  omega

theorem DottedPrefix.validName {path name : String} (begins : DottedPrefix path name)
    (valid : validName name = true) : Chord.validName path = true := by
  obtain ⟨rest, rfl⟩ := begins
  refine List.all_eq_true.mpr fun c member => List.all_eq_true.mp valid c ?_
  simp only [String.toList_append, List.mem_append]
  exact .inl (.inl member)

/-- The path to a listed node is listed with all that leads to it. -/
theorem validName_of_extend {path : String} {keys : List String}
    (valid : validName (extend path keys) = true) : validName path = true := by
  by_cases empty : path = ""
  · rw [empty]
    rfl
  · by_cases here : keys = []
    · rwa [here] at valid
    · exact (dottedPrefix_extend keys empty here).validName valid

/-- The loader lists the nested maps under the prefixes of the name, and then the scalar under
the name. -/
theorem ListAllMember_nested (yaml : YamlCpp) (text : String) (keys : List String) :
    ∀ {path : String}, validName (extend path keys) = true →
      ∃ before, (ListAllMember yaml path (nested text keys)).1 =
          before ++ [(extend path keys, .Scalar text)] ∧
        ∀ entry ∈ before, entry.1 = "" ∨ DottedPrefix entry.1 (extend path keys) := by
  induction keys with
  | nil =>
    intro path valid
    refine ⟨[], ?_, nofun⟩
    have here : validName path = true := valid
    simp only [nested, ListAllMember, here, if_true]
    rfl
  | cons key rest ih =>
    intro path valid
    obtain ⟨before, below, prefixes⟩ := @ih (memberName path key) valid
    refine ⟨(path, nested text (key :: rest)) :: before, ?_, ?_⟩
    · rw [nested, ListAllMember, if_pos (validName_of_extend valid)]
      simp only [ListAllMember.entries, List.append_nil, below, List.cons_append]
      rfl
    · intro entry member
      rcases List.mem_cons.mp member with rfl | member
      · by_cases empty : path = ""
        · exact .inl empty
        · exact .inr (dottedPrefix_extend (key :: rest) empty (List.cons_ne_nil key rest))
      · exact prefixes entry member

namespace TypedConfig

variable {types : VarTypes} {φ σ : Type} {hashing : Hashing} {yaml : YamlCpp}
  {s next : TypedConfig types φ σ} {name : String} {v : TypedVar types φ σ}

/-- The call of `fromString` that the loader makes for a listed node. -/
def fromStringOf (yaml : YamlCpp) (s : TypedConfig types φ σ) (entry : String × Node) :
    Option (String × String) :=
  if entry.1 ≠ "" ∧ (s.find (tolower entry.1)).isSome then
    some (tolower entry.1, nodeText yaml entry.2)
  else none

theorem Keeps.isSome (keeps : s.Keeps next) (name : String) :
    (next.find name).isSome = (s.find name).isSome := by
  cases found : s.find name with
  | none => rw [keeps.free name found]
  | some v =>
    obtain ⟨later, found, -⟩ := keeps.bound name v found
    rw [found]
    rfl

theorem loadEntry_fromStrings {entry : String × Node}
    (ran : s.loadEntry yaml entry = .ok next) :
    next.fromStrings = s.fromStrings ++ (s.fromStringOf yaml entry).toList := by
  unfold loadEntry at ran
  unfold fromStringOf
  by_cases empty : entry.1 = ""
  · rw [if_pos empty] at ran
    cases ran
    rw [if_neg fun named => named.1 empty]
    exact (List.append_nil _).symm
  · rw [if_neg empty] at ran
    cases found : s.find (tolower entry.1) with
    | none =>
      rw [found] at ran
      cases ran
      rw [if_neg fun named => absurd named.2 (by simp)]
      exact (List.append_nil _).symm
    | some v =>
      rw [found] at ran
      rw [if_pos ⟨empty, rfl⟩]
      unfold fromString at ran
      dsimp only at ran
      split at ran
      · cases ran
        rfl
      · cases ran
        rfl
      · cases ran

/-- The loop over the listed nodes calls `fromString` for those that name a variable. -/
theorem loadEntries_fromStrings (entries : List (String × Node)) :
    ∀ {s : TypedConfig types φ σ}, entries.foldlM (loadEntry yaml) s = .ok next →
      next.fromStrings = s.fromStrings ++ entries.filterMap (s.fromStringOf yaml) := by
  induction entries with
  | nil =>
    intro s ran
    cases ran
    exact (List.append_nil _).symm
  | cons entry rest ih =>
    intro s ran
    obtain ⟨middle, stepped, later⟩ := Fallible.foldlM_cons_ok.mp ran
    have keeps := loadEntry_keeps stepped
    have same : middle.fromStringOf yaml = s.fromStringOf yaml := by
      funext other
      simp only [fromStringOf, keeps.isSome]
    rw [ih later, loadEntry_fromStrings stepped, same, List.append_assoc, List.filterMap_cons]
    cases s.fromStringOf yaml entry <;> rfl

/-- Where no listener loses the process the loader returns. -/
theorem LoadFromYaml_returns (yaml : YamlCpp) (root : Node) (s : TypedConfig types Empty σ) :
    ∃ final, s.LoadFromYaml yaml root = .ok final := by
  cases ran : s.LoadFromYaml yaml root with
  | error fault => exact fault.elim
  | ok final => exact ⟨final, rfl⟩

/-- A node under a prefix of the name is not read into the variable of the name. -/
theorem fromStringOf_prefix {entry : String × Node} {call : String × String}
    (begins : entry.1 = "" ∨ DottedPrefix entry.1 name) (valid : validName name = true)
    (called : s.fromStringOf yaml entry = some call) :
    DottedPrefix call.1 name ∧ (s.find call.1).isSome := by
  unfold fromStringOf at called
  split at called
  · rename_i named
    obtain rfl := Option.some.inj called
    have begins := begins.resolve_left named.1
    have lower := tolower_of_validName (begins.validName valid)
    exact ⟨lower.symm ▸ begins, named.2⟩
  · cases called

/-- `Lookup` registers a variable of the name, and loading the nested maps that the name spells
calls its `fromString` once with the scalar, and else that of variables under prefixes only. -/
def Settable (hashing : Hashing) (yaml : YamlCpp) (s : TypedConfig types Empty σ)
    (tag : types.Tag) (name : String) (default_value : types.Value tag)
    (description text : String) : Prop :=
  ∃ registered v final calls,
    s.Lookup hashing tag name default_value description = (registered, .ok (some v.ptr)) ∧
    registered.find name = some v ∧ v.getName = name ∧ v.tag = tag ∧
    registered.LoadFromYaml yaml (nested text (components name)) = .ok final ∧
    final.fromStrings = registered.fromStrings ++ calls ∧
    (calls.filter fun call => call.1 = name) = [(name, text)] ∧
    ∀ call ∈ calls, call.1 = name ∨ DottedPrefix call.1 name ∧ (registered.find call.1).isSome

/-- Of a name's own characters the loader and `Lookup` refuse two. -/
theorem validName_iff {name : String} (wellNamed : WellNamed name) :
    validName name = true ↔ 'd' ∉ name.toList ∧ '9' ∉ name.toList := by
  have checked : ("abcdefghijklmnopqrstuvwxyz0123456789_.".toList.all fun c =>
      (c ∈ "abcefghijklmnopqrstuvwxyz._012345678".toList) ↔ c ≠ 'd' ∧ c ≠ '9') = true := by decide
  have refused : ∀ c ∈ "abcdefghijklmnopqrstuvwxyz0123456789_.".toList,
      c ∈ "abcefghijklmnopqrstuvwxyz._012345678".toList ↔ c ≠ 'd' ∧ c ≠ '9' := by
    simpa only [List.all_eq_true, decide_eq_true_eq] using checked
  simp only [validName, List.all_eq_true, decide_eq_true_eq]
  constructor
  · intro valid
    exact ⟨fun member => ((refused 'd' (by decide)).mp (valid _ member)).1 rfl,
      fun member => ((refused '9' (by decide)).mp (valid _ member)).2 rfl⟩
  · rintro ⟨d, nine⟩ c member
    refine (refused c (wellNamed.1 c member)).mpr ⟨?_, ?_⟩
    · rintro rfl
      exact d member
    · rintro rfl
      exact nine member

/-- A loader that gets through the nested maps calls `fromString` for the name once. -/
theorem LoadFromYaml_nested {text : String} (parts : ∀ key ∈ components name, key ≠ "")
    (valid : validName name = true) (found : s.find name = some v)
    (ran : s.LoadFromYaml yaml (nested text (components name)) = .ok next) :
    ∃ calls, next.fromStrings = s.fromStrings ++ calls ∧
      (calls.filter fun call => call.1 = name) = [(name, text)] ∧
      ∀ call ∈ calls, call.1 = name ∨ DottedPrefix call.1 name ∧ (s.find call.1).isSome := by
  have whole := extend_components parts
  have nonempty : name ≠ "" := by
    rintro rfl
    exact parts "" (by decide) rfl
  obtain ⟨before, listed, prefixes⟩ :=
    @ListAllMember_nested yaml text (components name) "" (by rwa [whole])
  rw [whole] at listed prefixes
  have here : s.fromStringOf yaml (name, .Scalar text) = some (name, text) := by
    have lower := tolower_of_validName valid
    rw [fromStringOf, if_pos ⟨nonempty, by rw [lower, found]; rfl⟩, lower]
    rfl
  have called := loadEntries_fromStrings _ ran
  rw [listed, List.filterMap_append] at called
  have earlier : ∀ call ∈ before.filterMap (s.fromStringOf yaml),
      DottedPrefix call.1 name ∧ (s.find call.1).isSome := by
    intro call member
    obtain ⟨entry, inside, calls⟩ := List.mem_filterMap.mp member
    exact fromStringOf_prefix (prefixes entry inside) valid calls
  refine ⟨before.filterMap (s.fromStringOf yaml) ++ [(name, text)], ?_, ?_, ?_⟩
  · have last : [(name, Node.Scalar text)].filterMap (s.fromStringOf yaml) = [(name, text)] := by
      rw [List.filterMap_cons_some here, List.filterMap_nil]
    exact called.trans (last ▸ rfl)
  · rw [List.filter_append, List.filter_eq_nil_iff.mpr, List.nil_append]
    · simp
    · intro call member same
      exact (earlier call member).1.ne (decide_eq_true_eq.mp same)
  · intro call member
    rcases List.mem_append.mp member with before | last
    · exact .inr (earlier call before)
    · exact .inl (congrArg Prod.fst (List.mem_singleton.mp last))

/-- A name can be registered and then set exactly if it has neither a d nor a 9. -/
theorem settable_iff (hashing : Hashing) (yaml : YamlCpp) {s : TypedConfig types Empty σ}
    {name : String} (wellNamed : WellNamed name) (unbound : s.find name = none) (tag : types.Tag)
    (default_value : types.Value tag) (description text : String) :
    s.Settable hashing yaml tag name default_value description text ↔
      'd' ∉ name.toList ∧ '9' ∉ name.toList := by
  rw [← validName_iff wellNamed]
  rcases Lookup_cases hashing s tag name default_value description with
    ⟨w, -, bound, -⟩ | ⟨-, valid, shape⟩ | ⟨-, invalid, messages, shape⟩
  · exact absurd (unbound.symm.trans bound) nofun
  · refine iff_of_true ?_ valid
    have found := find_register hashing unbound
      (TypedVar.new s.made tag name default_value description) name
    rw [if_pos rfl] at found
    obtain ⟨final, ran⟩ := LoadFromYaml_returns yaml (nested text (components name))
      (s.register hashing name (.new s.made tag name default_value description))
    obtain ⟨calls, called, once, others⟩ := LoadFromYaml_nested wellNamed.2 valid found ran
    exact ⟨_, _, final, calls, shape, found, tolower_of_validName valid, rfl, ran, called, once,
      others⟩
  · refine iff_of_false ?_ (by simp [invalid])
    rintro ⟨registered, v, final, calls, looked, -⟩
    rw [shape] at looked
    cases looked

/-- A registry of `ConfigVar<std::string>` only. -/
def strings : VarTypes where
  Tag := Unit
  Value _ := String
  FromStr _ text := .ok text
  ToStr _ value := .ok value
  typeid _ := ConfigVar.typeidString

theorem settable_tcp_port :
    Settable ⟨id, .refl⟩ Flow.yaml ({ world := () } : TypedConfig strings Empty Unit) () "tcp.port"
      "8020" "tcp port" "8080" := by
  have wellNamed : WellNamed "tcp.port" := by decide
  have unbound : ({ world := () } : TypedConfig strings Empty Unit).find "tcp.port" = none := rfl
  exact (settable_iff _ Flow.yaml wellNamed unbound () "8020" "tcp port" "8080").mpr (by decide)

/-- The condition is not met: `Lookup` throws for the d. -/
theorem not_settable_thread_stack :
    WellNamed "thread.stack" ∧
      ¬ Settable ⟨id, .refl⟩ Flow.yaml ({ world := () } : TypedConfig strings Empty Unit) ()
        "thread.stack" "1024" "stack" "2048" := by
  refine ⟨by decide, ?_⟩
  rintro ⟨registered, v, final, calls, looked, -⟩
  have refused : (({ world := () } : TypedConfig strings Empty Unit).Lookup ⟨id, .refl⟩ ()
      "thread.stack" "1024" "stack").2 = .error "thread.stack" := rfl
  rw [looked] at refused
  cases refused

end TypedConfig

end Chord
