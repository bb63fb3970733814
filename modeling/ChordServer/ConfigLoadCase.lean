import ChordServer.ConfigLoadDocument
import Mathlib

set_option autoImplicit false

namespace Chord

open YAML

/-- The path is the name of a registered variable, in some case. -/
def named (registered : String → Bool) (path : String) : Bool :=
  path ≠ "" && registered (tolower path)

mutual
/-- The path, or one below it in the document, is the name of a registered variable. -/
def leads (registered : String → Bool) (path : String) : Node → Bool
  | .Map entries => named registered path || leads.entries registered path entries
  | _ => named registered path
def leads.entries (registered : String → Bool) (path : String) : List (String × Node) → Bool
  | [] => false
  | (key, value) :: rest =>
      leads registered (memberName path key) value || leads.entries registered path rest
end

mutual
/-- The document with lower case in the keys on the paths to registered variables. What is below
the name of a variable is its value and stays as it is. -/
def lowerKeys (registered : String → Bool) (path : String) : Node → Node
  | .Map entries =>
      if named registered path then .Map entries
      else .Map (lowerKeys.entries registered path entries)
  | node => node
def lowerKeys.entries (registered : String → Bool) (path : String) :
    List (String × Node) → List (String × Node)
  | [] => []
  | (key, value) :: rest =>
      (if leads registered (memberName path key) value then tolower key else key,
        lowerKeys registered (memberName path key) value) ::
        lowerKeys.entries registered path rest
end

/-- The keys in lower case, but for those below the name of a registered variable. -/
def lowerPath (registered : String → Bool) (path : String) : List String → List String
  | [] => []
  | key :: rest =>
      if named registered path then key :: rest
      else tolower key :: lowerPath registered (memberName path key) rest

/-- Whatever spells the name of a registered variable in some case spells it in lower case. -/
def SpelledLow (registered : String → Bool) (root : Node) : Prop :=
  ∀ entry ∈ preorder [] root, ∀ name, registered name = true →
    Names (lowerPath registered "" entry.1) name → Names entry.1 name

theorem tolower_tolower (name : String) : tolower (tolower name) = tolower name := by
  simp only [tolower, String.toList_ofList, List.map_map, Function.comp_def,
    Char.toLower_toLower_eq_toLower]

theorem tolower_eq_empty_iff {name : String} : tolower name = "" ↔ name = "" := by
  rw [← String.toList_inj, ← @String.toList_inj name "", tolower, String.toList_ofList]
  exact List.map_eq_nil_iff

theorem tolower_memberName (path key : String) :
    tolower (memberName path key) = memberName (tolower path) (tolower key) := by
  by_cases empty : path = ""
  · rw [empty]
    rfl
  · have still : tolower path ≠ "" := mt tolower_eq_empty_iff.mp empty
    rw [memberName, if_neg empty, memberName, if_neg still]
    apply String.toList_inj.mp
    simp only [tolower, String.toList_append, String.toList_ofList, List.map_append]
    rfl

theorem tolower_extend (keys : List String) :
    ∀ path, tolower (extend path keys) = extend (tolower path) (keys.map tolower) := by
  induction keys with
  | nil => exact fun _ => rfl
  | cons key rest ih =>
    intro path
    refine (ih (memberName path key)).trans ?_
    rw [tolower_memberName]
    rfl

mutual
/-- The preorder from a node is the same under any keys. -/
theorem preorder_append (first : List String) (keys : List String) :
    ∀ node, preorder (first ++ keys) node =
      (preorder keys node).map fun entry => (first ++ entry.1, entry.2)
  | .Null => rfl
  | .Scalar _ => rfl
  | .Sequence _ => rfl
  | .Map entries => by
      rw [preorder, preorder, List.map_cons, preorder_entries_append first keys entries]
theorem preorder_entries_append (first : List String) (keys : List String) :
    ∀ entries, preorder.entries (first ++ keys) entries =
      (preorder.entries keys entries).map fun entry => (first ++ entry.1, entry.2)
  | [] => rfl
  | (key, value) :: rest => by
      rw [preorder.entries, preorder.entries, List.map_append, List.append_assoc,
        preorder_append first (keys ++ [key]) value, preorder_entries_append first keys rest]
end

theorem preorder_eq_map (first : List String) (node : Node) :
    preorder first node = (preorder [] node).map fun entry => (first ++ entry.1, entry.2) := by
  rw [← preorder_append, List.append_nil]

/-- What the loader reads under the keys into a registered variable: the name and the node. -/
def hit (registered : String → Bool) (keys : List String) (node : Node) : Option (String × Node) :=
  if Names keys (dotted keys) ∧ registered (dotted keys) = true then some (dotted keys, node)
  else none

variable {registered : String → Bool} {keys : List String} {node : Node} {path : String}

theorem hit_eq_some_iff {name : String} {value : Node} :
    hit registered keys node = some (name, value) ↔
      Names keys name ∧ registered name = true ∧ value = node := by
  unfold hit
  constructor
  · intro found
    split at found
    · rename_i both
      cases found
      exact ⟨both.1, both.2, rfl⟩
    · cases found
  · rintro ⟨names, known, rfl⟩
    have same : dotted keys = name := names.2.2
    rw [same, if_pos ⟨names, known⟩]

/-- Under keys that do not spell the name of a variable nothing is read. -/
theorem hit_eq_none {name : String} (spelled : tolower (dotted keys) = tolower name)
    (unnamed : named registered name = false) : hit registered keys node = none := by
  unfold hit
  rw [if_neg]
  rintro ⟨⟨nonempty, known, -⟩, bound⟩
  have lower := tolower_of_validName (validName_of_listed known)
  have empty : name ≠ "" := by
    rintro rfl
    exact nonempty (tolower_eq_empty_iff.mp spelled)
  rw [named, ← spelled, lower, bound, Bool.and_true, decide_eq_false_iff_not] at unnamed
  exact unnamed empty

theorem map_tolower_lowerPath (registered : String → Bool) (keys : List String) :
    ∀ path, (lowerPath registered path keys).map tolower = keys.map tolower := by
  induction keys with
  | nil => exact fun _ => rfl
  | cons key rest ih =>
    intro path
    rw [lowerPath]
    split
    · rfl
    · rw [List.map_cons, List.map_cons, tolower_tolower, ih]

mutual
/-- Where no name of a variable is led to, none is found. -/
theorem unnamed_of_leads (path : String) :
    ∀ node, leads registered path node = false →
      ∀ entry ∈ preorder [] node, named registered (extend path entry.1) = false
  | .Null, nothing => by simpa [preorder, extend, leads] using nothing
  | .Scalar _, nothing => by simpa [preorder, extend, leads] using nothing
  | .Sequence _, nothing => by simpa [preorder, extend, leads] using nothing
  | .Map entries, nothing => by
      rw [leads, Bool.or_eq_false_iff] at nothing
      rw [preorder, List.forall_mem_cons]
      exact ⟨nothing.1, unnamed_of_leads_entries path entries nothing.2⟩
theorem unnamed_of_leads_entries (path : String) :
    ∀ entries, leads.entries registered path entries = false →
      ∀ entry ∈ preorder.entries [] entries, named registered (extend path entry.1) = false
  | [], _ => by simp [preorder.entries]
  | (key, value) :: rest, nothing => by
      rw [leads.entries, Bool.or_eq_false_iff] at nothing
      rw [preorder.entries]
      intro entry member
      rcases List.mem_append.mp member with here | later
      · rw [List.nil_append, preorder_eq_map [key]] at here
        obtain ⟨below, inside, rfl⟩ := List.mem_map.mp here
        exact unnamed_of_leads (memberName path key) value nothing.1 below inside
      · exact unnamed_of_leads_entries path rest nothing.2 entry later
end

mutual
theorem lowerKeys_of_leads (path : String) :
    ∀ node, leads registered path node = false → lowerKeys registered path node = node
  | .Null, _ => rfl
  | .Scalar _, _ => rfl
  | .Sequence _, _ => rfl
  | .Map entries, nothing => by
      rw [leads, Bool.or_eq_false_iff] at nothing
      rw [lowerKeys, nothing.1, if_neg Bool.false_ne_true,
        lowerKeys_entries_of_leads path entries nothing.2]
theorem lowerKeys_entries_of_leads (path : String) :
    ∀ entries, leads.entries registered path entries = false →
      lowerKeys.entries registered path entries = entries
  | [], _ => rfl
  | (key, value) :: rest, nothing => by
      rw [leads.entries, Bool.or_eq_false_iff] at nothing
      rw [lowerKeys.entries, nothing.1, if_neg Bool.false_ne_true,
        lowerKeys_of_leads (memberName path key) value nothing.1,
        lowerKeys_entries_of_leads path rest nothing.2]
end

/-- Keys that spell a path below one that spells no name of a variable. -/
theorem hit_below_eq_none {first below spelled : List String} {key : String}
    (start : dotted first = tolower path) (same : spelled.map tolower = (key :: below).map tolower)
    (unnamed : named registered (extend (memberName path key) below) = false) :
    hit registered (first ++ spelled) node = none := by
  refine hit_eq_none ?_ unnamed
  calc tolower (dotted (first ++ spelled))
    _ = extend (tolower (tolower path)) (spelled.map tolower) := by
        rw [dotted_append, start, tolower_extend]
    _ = extend (tolower path) ((key :: below).map tolower) := by rw [tolower_tolower, same]
    _ = tolower (extend path (key :: below)) := (tolower_extend (key :: below) path).symm

theorem lowerKeys_of_named (known : named registered path = true) :
    ∀ node, lowerKeys registered path node = node
  | .Null => rfl
  | .Scalar _ => rfl
  | .Sequence _ => rfl
  | .Map entries => by rw [lowerKeys, if_pos known]

theorem lowerPath_of_named (known : named registered path = true) :
    ∀ keys, lowerPath registered path keys = keys
  | [] => rfl
  | key :: rest => by rw [lowerPath, if_pos known]

/-- What the loader reads below some keys of a document. -/
def readings (registered : String → Bool) (entries : List (List String × Node)) :
    List (String × Node) :=
  entries.filterMap fun entry => hit registered entry.1 entry.2

theorem readings_lowerKeys_leaf (path : String) (first : List String) (node : Node) :
    readings registered [(first, node)] = [(([] : List String), node)].filterMap fun entry =>
      hit registered (first ++ lowerPath registered path entry.1) entry.2 := by
  simp only [readings, List.filterMap_cons, List.filterMap_nil, lowerPath, List.append_nil]

mutual
/-- The document in lower case is read where the keys in lower case are. -/
theorem readings_lowerKeys (path : String) (first : List String)
    (start : dotted first = tolower path) :
    ∀ node, readings registered (preorder first (lowerKeys registered path node)) =
      (preorder [] node).filterMap fun entry =>
        hit registered (first ++ lowerPath registered path entry.1) entry.2
  | .Null => readings_lowerKeys_leaf path first .Null
  | .Scalar text => readings_lowerKeys_leaf path first (.Scalar text)
  | .Sequence items => readings_lowerKeys_leaf path first (.Sequence items)
  | .Map entries => by
      cases known : named registered path with
      | true =>
        simp only [lowerKeys_of_named known, lowerPath_of_named known, readings,
          preorder_eq_map first, List.filterMap_map, Function.comp_def]
      | false =>
        have spelled : tolower (dotted first) = tolower path := by rw [start, tolower_tolower]
        have below := readings_lowerKeys_entries path first start known entries
        rw [lowerKeys, known, if_neg Bool.false_ne_true, preorder, preorder, readings,
          List.filterMap_cons_none (by exact hit_eq_none spelled known), List.filterMap_cons_none]
        · exact below
        · rw [lowerPath, List.append_nil]
          exact hit_eq_none spelled known
theorem readings_lowerKeys_entries (path : String) (first : List String)
    (start : dotted first = tolower path) (unnamed : named registered path = false) :
    ∀ entries,
      readings registered (preorder.entries first (lowerKeys.entries registered path entries)) =
        (preorder.entries [] entries).filterMap fun entry =>
          hit registered (first ++ lowerPath registered path entry.1) entry.2
  | [] => rfl
  | (key, value) :: rest => by
      have later := readings_lowerKeys_entries path first start unnamed rest
      have inner : ∀ below, lowerPath registered path ([key] ++ below) =
          tolower key :: lowerPath registered (memberName path key) below := by
        intro below
        rw [List.singleton_append, lowerPath, unnamed, if_neg Bool.false_ne_true]
      unfold readings at later
      rw [lowerKeys.entries, preorder.entries, preorder.entries, readings, List.filterMap_append,
        List.filterMap_append, later, List.nil_append, preorder_eq_map [key], List.filterMap_map]
      refine congrArg (fun read => read ++ _) ?_
      simp only [Function.comp_def, inner]
      cases known : leads registered (memberName path key) value with
      | true =>
        have next : dotted (first ++ [tolower key]) = tolower (memberName path key) := by
          rw [dotted_concat, start, tolower_memberName]
        have read := readings_lowerKeys (memberName path key) (first ++ [tolower key]) next value
        simpa only [readings, List.append_assoc, List.singleton_append, if_true] using read
      | false =>
        have unnamed := unnamed_of_leads (memberName path key) value known
        rw [if_neg Bool.false_ne_true, lowerKeys_of_leads _ _ known]
        rw [preorder_eq_map (first ++ [key]), List.filterMap_map, List.filterMap_eq_nil_iff.mpr,
          List.filterMap_eq_nil_iff.mpr]
        · intro entry member
          refine hit_below_eq_none start ?_ (unnamed entry member)
          rw [List.map_cons, List.map_cons, tolower_tolower, map_tolower_lowerPath]
        · intro entry member
          dsimp only [Function.comp_def]
          rw [List.append_assoc]
          exact hit_below_eq_none start rfl (unnamed entry member)
end

/-- Keys that are listed are in lower case. -/
theorem map_tolower_of_listed : ∀ {keys : List String}, listed keys = true →
    keys.map tolower = keys := by
  intro keys
  induction keys using List.reverseRecOn with
  | nil => exact fun _ => rfl
  | append_singleton keys key ih =>
    intro known
    rw [listed_concat, Bool.and_eq_true, dotted_concat] at known
    obtain ⟨above, valid⟩ := known
    have last : validName key = true := by
      rw [memberName] at valid
      split at valid
      · exact valid
      · rw [validName, String.toList_append, List.all_append, Bool.and_eq_true] at valid
        exact valid.2
    rw [List.map_append, ih above, List.map_singleton, tolower_of_validName last]

theorem lowerPath_of_lower (registered : String → Bool) {keys : List String} :
    ∀ path, keys.map tolower = keys → lowerPath registered path keys = keys := by
  induction keys with
  | nil => exact fun _ _ => rfl
  | cons key rest ih =>
    intro path lower
    rw [List.map_cons, List.cons.injEq] at lower
    rw [lowerPath]
    split
    · rfl
    · rw [lower.1, ih (memberName path key) lower.2]

/-- What is read as it is written is read in lower case too. -/
theorem hit_lowerPath {reading : String × Node} (path : String)
    (found : hit registered keys node = some reading) :
    hit registered (lowerPath registered path keys) node = some reading := by
  obtain ⟨⟨-, known, -⟩, -, -⟩ := hit_eq_some_iff.mp found
  rw [lowerPath_of_lower registered path (map_tolower_of_listed known), found]

/-- A document that spells its names low is read where it is read in lower case. -/
theorem readings_eq_of_spelledLow {root : Node} (low : SpelledLow registered root) :
    readings registered (preorder [] (lowerKeys registered "" root)) =
      readings registered (preorder [] root) := by
  rw [readings_lowerKeys "" [] rfl root]
  refine List.filterMap_congr fun entry member => ?_
  rw [List.nil_append]
  cases written : hit registered entry.1 entry.2 with
  | some reading => exact hit_lowerPath "" written
  | none =>
    cases lowered : hit registered (lowerPath registered "" entry.1) entry.2 with
    | none => rfl
    | some reading =>
      obtain ⟨names, known, same⟩ := hit_eq_some_iff.mp lowered
      have spelled := low entry member reading.1 known names
      have read := hit_eq_some_iff.mpr ⟨spelled, known, same⟩
      rw [written] at read
      cases read

/-- How often a variable is read. -/
def readingsOf (registered : String → Bool) (name : String)
    (entries : List (List String × Node)) : Nat :=
  (readings registered entries).countP fun reading => reading.1 = name

theorem countP_lt_countP {α : Type*} {p q : α → Bool} {items : List α} {item : α}
    (implies : ∀ x ∈ items, p x = true → q x = true) (member : item ∈ items)
    (less : p item = false) (more : q item = true) : items.countP p < items.countP q := by
  obtain ⟨before, after, rfl⟩ := List.append_of_mem member
  have first := List.countP_mono_left fun x inside =>
    implies x (List.mem_append_left _ inside)
  have later := List.countP_mono_left fun x inside =>
    implies x (List.mem_append_right before (List.mem_cons_of_mem item inside))
  simp only [List.countP_append, List.countP_cons, less, more, if_true, Bool.false_eq_true,
    if_false]
  omega

/-- A name that is not spelled low is read more often in lower case. -/
theorem readingsOf_lt {root : Node} {entry : List String × Node} {name : String}
    (member : entry ∈ preorder [] root) (known : registered name = true)
    (names : Names (lowerPath registered "" entry.1) name) (unnamed : ¬ Names entry.1 name) :
    readingsOf registered name (preorder [] root) <
      readingsOf registered name (preorder [] (lowerKeys registered "" root)) := by
  rw [readingsOf, readingsOf, readings_lowerKeys "" [] rfl root, readings, List.countP_filterMap,
    List.countP_filterMap]
  simp only [List.nil_append]
  refine countP_lt_countP (fun other _ read => ?_) member ?_ ?_
  · cases written : hit registered other.1 other.2 with
    | none => rw [written] at read; cases read
    | some reading =>
      rw [written] at read
      rw [hit_lowerPath "" written]
      exact read
  · cases written : hit registered entry.1 entry.2 with
    | none => rfl
    | some reading =>
      obtain ⟨spelled, -, -⟩ := hit_eq_some_iff.mp written
      refine decide_eq_false fun same => unnamed ?_
      rwa [← same]
  · rw [hit_eq_some_iff.mpr ⟨names, known, rfl⟩]
    exact decide_eq_true rfl

end Chord
