import ChordServer.ConfigLoadDocument
import ChordServer.ConfigRegistryNames

set_option autoImplicit false

namespace Chord

open YAML

/-- The values of every type come back from their texts, by way of a node of a document, as far
as `operator==` can tell. -/
structure VarTypes.Lasting (types : VarTypes) (yaml : YamlCpp) : Prop where
  roundTrips : ∀ tag v, ∃ node w, types.ToStr tag v = .ok (yaml.emit node) ∧
    types.FromStr tag (nodeText yaml node) = .ok w ∧ (w == v) = true
  symm : ∀ tag (v w : types.Value tag), (v == w) = true → (w == v) = true
  trans : ∀ tag (u v w : types.Value tag), (u == v) = true → (v == w) = true → (u == w) = true

/-- A callback of `Visit` that writes down the names and the texts of the variables. -/
def recorder {σ : Type} : VisitProgram (σ × List (String × String)) :=
  .getName fun name => .toString fun text =>
    .act (fun world => (world.1, world.2 ++ [(name, text)])) fun _ => .done

/-- The document with a key for each name and the loaded text under it. -/
def savedDocument (yaml : YamlCpp) (entries : List (String × String)) :
    Except YAML.Exception Node :=
  entries.foldlM (fun root entry => do return root.set entry.1 (← yaml.Load entry.2)) .Null

/-- The nodes in a variable's value may have the name of the other one. -/
def Encloses (outer inner : String) : Prop := outer = "" ∨ DottedPrefix outer inner

/-- Every name comes after those that enclose it. -/
def EnclosingFirst (entries : List (String × String)) : Prop :=
  entries.Pairwise fun first second => ¬ Encloses second.1 first.1

/-- The two variables have one type, and values that are equal as far as `operator==` can
tell. -/
def TypedVar.EqualTo {types : VarTypes} {φ σ φ' σ' : Type} (v : TypedVar types φ σ)
    (w : TypedVar types φ' σ') : Prop :=
  ∃ same : v.tag = w.tag, (cast (congrArg types.Value same) v.var.m_val == w.var.m_val) = true

section Listing

mutual
/-- The node itself is the first in its preorder, and all others are below it. -/
theorem preorder_below (keys : List String) :
    ∀ node, ∃ inner, preorder keys node = (keys, node) :: inner ∧
      ∀ entry ∈ inner, ∃ more, more ≠ [] ∧ entry.1 = keys ++ more
  | .Null => ⟨[], rfl, nofun⟩
  | .Scalar _ => ⟨[], rfl, nofun⟩
  | .Sequence _ => ⟨[], rfl, nofun⟩
  | .Map entries => by
      refine ⟨preorder.entries keys entries, rfl, fun entry member => ?_⟩
      obtain ⟨key, -, more, same⟩ := preorder_entries_below keys entries entry member
      exact ⟨key :: more, List.cons_ne_nil key more, same⟩
theorem preorder_entries_below (keys : List String) :
    ∀ entries, ∀ entry ∈ preorder.entries keys entries,
      ∃ key ∈ entries.map Prod.fst, ∃ more, entry.1 = keys ++ key :: more
  | [] => nofun
  | (key, value) :: rest => by
      intro entry member
      rw [preorder.entries] at member
      rcases List.mem_append.mp member with here | later
      · obtain ⟨inner, shape, below⟩ := preorder_below (keys ++ [key]) value
        rw [shape] at here
        refine ⟨key, List.mem_cons_self, ?_⟩
        rcases List.mem_cons.mp here with rfl | inside
        · exact ⟨[], rfl⟩
        · obtain ⟨more, -, same⟩ := below entry inside
          exact ⟨more, by rw [same, List.append_assoc, List.singleton_append]⟩
      · obtain ⟨other, member, more, same⟩ := preorder_entries_below keys rest entry later
        exact ⟨other, List.mem_cons_of_mem _ member, more, same⟩
end

theorem preorder_entries_split (keys : List String) (first second : List (String × Node)) :
    preorder.entries keys (first ++ second) =
      preorder.entries keys first ++ preorder.entries keys second := by
  induction first with
  | nil => rfl
  | cons entry rest ih =>
    obtain ⟨key, value⟩ := entry
    rw [List.cons_append, preorder.entries, preorder.entries, ih, List.append_assoc]

/-- A path through a key is the key or begins with it, where the key is not empty. -/
theorem dotted_cons (key : String) (more : List String) :
    dotted (key :: more) = extend key more := by
  have first : dotted [key] = key := by
    have step := dotted_concat [] key
    rw [List.nil_append] at step
    rw [step]
    rfl
  rw [← List.singleton_append, dotted_append, first]

theorem names_single {name : String} (valid : validName name = true) (nonempty : name ≠ "") :
    Names [name] name := by
  have whole : dotted [name] = name := dotted_cons name []
  have listed : listed [name] = true := by
    have step := listed_concat [] name
    rw [List.nil_append] at step
    rw [step, whole, valid]
    decide
  exact ⟨nonempty, listed, whole⟩

end Listing

section Values

variable {φ σ : Type} (base : ConfigVarBase φ σ) (yaml : YamlCpp) {name : String}

/-- One node of the preorder, as the value of the variable called `name`. -/
def ConfigVarBase.documentRound (name : String) (value : base.T) (entry : List String × Node) :
    base.T :=
  if Names entry.1 name then
    match base.FromStr (nodeText yaml entry.2) with
    | .ok parsed => parsed
    | .error _ => value
  else value

theorem foldl_unnamed {entries : List (List String × Node)}
    (unnamed : ∀ entry ∈ entries, ¬ Names entry.1 name) (value : base.T) :
    entries.foldl (base.documentRound yaml name) value = value := by
  induction entries with
  | nil => rfl
  | cons entry rest ih =>
    obtain ⟨other, later⟩ := List.forall_mem_cons.mp unnamed
    rw [List.foldl_cons, ConfigVarBase.documentRound, if_neg other]
    exact ih later

/-- What follows a variable's own node does not have its name. -/
theorem unnamed_after {inner : List (List String × Node)}
    {after : List (String × Node)} (nonempty : name ≠ "")
    (below : ∀ entry ∈ inner, ∃ more, more ≠ [] ∧ entry.1 = [name] ++ more)
    (later : ∀ key ∈ after.map Prod.fst, key ≠ name ∧ ¬ Encloses key name) :
    ∀ entry ∈ inner ++ preorder.entries [] after, ¬ Names entry.1 name := by
  rintro entry member ⟨-, -, same⟩
  rcases List.mem_append.mp member with here | there
  · obtain ⟨more, longer, path⟩ := below entry here
    rw [path, List.singleton_append, dotted_cons] at same
    exact (dottedPrefix_extend more nonempty longer).ne same.symm
  · obtain ⟨key, member, more, path⟩ := preorder_entries_below [] after entry there
    rw [path, List.nil_append, dotted_cons] at same
    obtain ⟨apart, free⟩ := later key member
    cases more with
    | nil => exact apart same
    | cons first rest =>
      by_cases empty : key = ""
      · exact free (.inl empty)
      · exact free (.inr (same ▸ dottedPrefix_extend (first :: rest) empty nofun))

/-- A document that has a variable's own node after those that enclose it gives the variable the
value of that node. -/
theorem documentValue_own {node : Node} {w : base.T} {before after : List (String × Node)}
    (valid : validName name = true) (nonempty : name ≠ "")
    (read : base.FromStr (nodeText yaml node) = .ok w)
    (later : ∀ key ∈ after.map Prod.fst, key ≠ name ∧ ¬ Encloses key name) :
    base.documentValue yaml name (.Map (before ++ (name, node) :: after)) = w := by
  obtain ⟨inner, shape, below⟩ := preorder_below [name] node
  have nodes : preorder [] (.Map (before ++ (name, node) :: after)) =
      ([], .Map (before ++ (name, node) :: after)) :: preorder.entries [] before ++
        ([name], node) :: (inner ++ preorder.entries [] after) := by
    rw [preorder, preorder_entries_split, preorder.entries, List.nil_append, shape]
    rfl
  show (preorder [] _).foldl (base.documentRound yaml name) _ = w
  rw [nodes, List.foldl_append, List.foldl_cons, ConfigVarBase.documentRound,
    if_pos (names_single valid nonempty), read]
  exact foldl_unnamed base yaml (unnamed_after nonempty below later) w

end Values

/-- A variable that is another one with a value has that value. -/
theorem TypedVar.value_of_base {types : VarTypes} {φ σ : Type} {v later : TypedVar types φ σ}
    (same : later.tag = v.tag) {value : types.Value v.tag}
    (base : later.base = v.base.store value) :
    cast (congrArg types.Value same) later.var.m_val = value := by
  obtain ⟨ptr, m_name, m_description, tag, var⟩ := v
  obtain ⟨ptr', m_name', m_description', tag', var'⟩ := later
  obtain rfl : tag' = tag := same
  have members := (ConfigVarBase.mk.inj base).2.2.2
  rw [eq_of_heq members]
  rfl

namespace TypedConfig

variable {types : VarTypes} {φ σ : Type} {hashing : Hashing} {yaml : YamlCpp}

/-- The names and texts of the variables, in the order of the map. -/
def shown (s : TypedConfig types φ σ) : List (String × String) :=
  s.GetDatas.toList.map fun it => (it.2.getName, it.2.toString.1)

theorem Sound.shown_names {s : TypedConfig types φ σ} (sound : s.Sound) :
    s.shown.map Prod.fst = s.GetDatas.toList.map Prod.fst := by
  rw [shown, List.map_map]
  refine List.map_congr_left fun it member => ?_
  exact (sound.named it.1 it.2 (find_of_mem member)).1

/-- The callback finds out the name and the text of every variable. -/
theorem visits_record (s : TypedConfig types φ (σ × List (String × String)))
    (items : List (String × TypedVar types φ (σ × List (String × String))))
    (inside : ∀ it ∈ items, s.find it.1 = some it.2) :
    ∀ state : TypedConfig types φ (σ × List (String × String)), state.GetDatas = s.GetDatas →
      ∃ final, (items.map Prod.fst).foldlM (fun s name => visit name recorder s) state =
          .ok final ∧ final.GetDatas = s.GetDatas ∧ final.world = (state.world.1,
            state.world.2 ++ items.map fun it => (it.2.getName, it.2.toString.1)) := by
  induction items with
  | nil => exact fun state same => ⟨state, rfl, same, by simp⟩
  | cons it rest ih =>
    intro state same
    obtain ⟨here, later⟩ := List.forall_mem_cons.mp inside
    have found : state.find it.1 = some it.2 := by rw [find, same]; exact here
    have logged : (state.log it.2.toString.2).find it.1 = some it.2 := found
    obtain ⟨final, ran, kept, world⟩ := ih later
      { state.log it.2.toString.2 with
        world := (state.world.1, state.world.2 ++ [(it.2.getName, it.2.toString.1)]) } same
    refine ⟨final, ?_, kept, ?_⟩
    · rw [List.map_cons, Fallible.foldlM_cons_ok]
      refine ⟨_, ?_, ran⟩
      simp only [recorder, visit, found]
      rfl
    · rw [world, List.map_cons]
      simp

theorem Visit_records (s : TypedConfig types φ (σ × List (String × String))) :
    ∃ final, s.Visit recorder = .ok final ∧ final.GetDatas = s.GetDatas ∧
      final.world = (s.world.1, s.world.2 ++ s.shown) :=
  visits_record s s.GetDatas.toList (fun _ member => find_of_mem member) s rfl

/-- The document is a map from the names to nodes whose texts are the saved ones, or a null node
if there are none. -/
theorem savedDocument_ok {entries : List (String × String)} {node : String → Node}
    (loads : ∀ entry ∈ entries, yaml.Load entry.2 = .ok (node entry.2))
    (distinct : (entries.map Prod.fst).Nodup) :
    savedDocument yaml entries = .ok (if entries = [] then .Null
      else .Map (entries.map fun entry => (entry.1, node entry.2))) := by
  have loop : savedDocument yaml entries =
      .ok (entries.foldl (fun root entry => root.set entry.1 (node entry.2)) Node.Null) := by
    refine Fallible.foldlM_ok fun entry member root => ?_
    rw [loads entry member]
    rfl
  rw [loop, Node.sets node entries distinct]

/-- The loader returns, and what it stores in a variable it has from the document. -/
theorem LoadFromYaml_stores {s : TypedConfig types φ σ} (quiet : s.config.Quiet) (root : Node) :
    ∃ final, s.LoadFromYaml yaml root = .ok final ∧ ∀ name v, s.find name = some v →
      ∃ later, final.find name = some later ∧ ∃ same : later.tag = v.tag,
        ConfigVar.Holds (cast (congrArg types.Value same) later.var.m_val)
          (v.base.documentValue yaml name root) := by
  obtain ⟨config, ran, stored, -⟩ := @Config.loadEntries_returned φ σ yaml
    (ListAllMember yaml "" root).1
    { s.config with errors := s.config.errors ++ (ListAllMember yaml "" root).2 } quiet
  have loaded : (s.LoadFromYaml yaml root).map TypedConfig.config = .ok config :=
    (LoadFromYaml_config yaml root s).trans ran
  obtain ⟨final, returned, rfl⟩ := Fallible.map_ok.mp loaded
  refine ⟨final, returned, fun name v found => ?_⟩
  obtain ⟨later, there, object⟩ := (LoadFromYaml_keeps returned).bound name v found
  refine ⟨later, there, object.tag, ?_⟩
  have before : s.config.GetDatas name = some v.base := by
    show (s.find name).map TypedVar.base = _
    rw [found]
    rfl
  have after : final.config.GetDatas name = some later.base := by
    show (final.find name).map TypedVar.base = _
    rw [there]
    rfl
  have value := (after.symm.trans (stored name)).trans (congrArg (Option.map _) before)
  have holds := holds_listing v.base yaml name (preorder [] root) (.inl (rfl : v.var.m_val = _))
  rw [← ListAllMember_root yaml] at holds
  rw [TypedVar.value_of_base object.tag (Option.some.inj value)]
  exact holds

/-- The node that a text loads as. -/
def loadedNode (yaml : YamlCpp) (text : String) : Node :=
  match yaml.Load text with
  | .ok node => node
  | .error _ => .Null

theorem Load_of_lasting (lasting : types.Lasting yaml) (v : TypedVar types φ σ) :
    yaml.Load v.toString.1 = .ok (loadedNode yaml v.toString.1) := by
  obtain ⟨node, w, written, -, -⟩ := lasting.roundTrips v.tag v.var.m_val
  have text : v.toString.1 = yaml.emit node := by rw [TypedVar.toString, written]
  rw [loadedNode, text, yaml.Load_emit]

/-- A variable that has been given what the text of another one of its type says is equal to
that one. -/
theorem equalTo_of_holds (lasting : types.Lasting yaml) {φ' σ' : Type} {v : TypedVar types φ σ}
    {target later : TypedVar types φ' σ'} (typed : target.tag = v.tag)
    (same : later.tag = target.tag) {stored : types.Value target.tag}
    (holds : ConfigVar.Holds (cast (congrArg types.Value same) later.var.m_val) stored)
    (own : ∀ w : types.Value target.tag,
      target.base.FromStr (nodeText yaml (loadedNode yaml v.toString.1)) = .ok w → stored = w) :
    later.EqualTo v := by
  obtain ⟨ptr, m_name, m_description, tag, var⟩ := v
  obtain ⟨ptr', m_name', m_description', tag', var'⟩ := target
  obtain ⟨ptr'', m_name'', m_description'', tag'', var''⟩ := later
  obtain rfl : tag' = tag := typed
  obtain rfl : tag'' = tag' := same
  obtain ⟨node, w, written, read, equal⟩ := lasting.roundTrips tag'' var.m_val
  have node_eq : loadedNode yaml (TypedVar.toString
      (⟨ptr, m_name, m_description, tag'', var⟩ : TypedVar types φ σ)).1 = node := by
    rw [TypedVar.toString, written, loadedNode, yaml.Load_emit]
  rw [node_eq] at own
  obtain rfl := own w read
  refine ⟨rfl, ?_⟩
  rcases holds with here | there
  · have here : var''.m_val = stored := here
    exact here ▸ equal
  · exact lasting.trans _ _ _ _ (lasting.symm _ _ _ there) equal

/-- Loading the document of the saved texts gives every variable its saved value back. -/
theorem restores {φ' σ' : Type} (lasting : types.Lasting yaml) {s : TypedConfig types φ σ}
    {s' : TypedConfig types φ' σ'} (sound : s.Sound)
    (typed : ∀ name v, s.find name = some v → ∃ target, s'.find name = some target ∧
      target.tag = v.tag) (quiet : s'.config.Quiet)
    {entries : List (String × String)} (saved : entries.Perm s.shown)
    (order : EnclosingFirst entries) :
    ∃ root final, savedDocument yaml entries = .ok root ∧ s'.LoadFromYaml yaml root = .ok final ∧
      ∀ name v, name ≠ "" → s.find name = some v →
        ∃ later, final.find name = some later ∧ later.EqualTo v := by
  have distinct : (entries.map Prod.fst).Nodup := by
    rw [(saved.map Prod.fst).nodup_iff, sound.shown_names]
    exact s.GetDatas.distinct
  have loads : ∀ entry ∈ entries, yaml.Load entry.2 = .ok (loadedNode yaml entry.2) := by
    intro entry member
    obtain ⟨it, -, rfl⟩ := List.mem_map.mp (saved.mem_iff.mp member)
    exact Load_of_lasting lasting it.2
  have document := savedDocument_ok loads distinct
  obtain ⟨final, ran, stores⟩ := @LoadFromYaml_stores types φ' σ' yaml s' quiet
    (if entries = [] then .Null
      else .Map (entries.map fun entry => (entry.1, loadedNode yaml entry.2)))
  refine ⟨_, final, document, ran, fun name v nonempty found => ?_⟩
  obtain ⟨target, there, tag⟩ := typed name v found
  obtain ⟨later, ended, same, holds⟩ := stores name target there
  refine ⟨later, ended, equalTo_of_holds lasting tag same holds fun w read => ?_⟩
  obtain ⟨named, valid⟩ := sound.named name v found
  have member : (name, v.toString.1) ∈ entries := by
    rw [saved.mem_iff]
    obtain ⟨it, inside, rfl⟩ := Option.map_eq_some_iff.mp found
    obtain ⟨member, key⟩ := HashedSet.find_eq_some_iff.mp inside
    exact List.mem_map.mpr ⟨it, member, by rw [named]⟩
  obtain ⟨before, after, rfl⟩ := List.append_of_mem member
  rw [if_neg (by simp), List.map_append, List.map_cons]
  refine documentValue_own target.base yaml valid nonempty read fun key inside => ?_
  rw [List.map_map] at inside
  obtain ⟨entry, member, rfl⟩ := List.mem_map.mp inside
  rw [List.map_append, List.map_cons, List.nodup_append, List.nodup_cons] at distinct
  rw [EnclosingFirst, List.pairwise_append, List.pairwise_cons] at order
  refine ⟨?_, order.2.1.1 entry member⟩
  intro twice
  exact distinct.2.1.1 (List.mem_map.mpr ⟨entry, member, twice⟩)

end TypedConfig

end Chord
