import ChordServer.Config
import ChordServer.Descent
import Mathlib.Tactic.Common

set_option autoImplicit false

namespace YAML

/-- What a node of a document holds; an alias is the node that its anchor names. -/
inductive Content (ι : Type)
  | Null
  | Scalar (text : String)
  | Sequence (items : List ι)
  | Map (entries : List (String × ι))

/-- The nodes of a document and what `<<` prints of them, which writes aliases for the nodes
that it meets again. -/
structure Document (ι : Type) where
  content : ι → Content ι
  emit : ι → String

/-- The members of a map; no other node has any. -/
def Content.members {ι : Type} : Content ι → List (String × ι)
  | .Map entries => entries
  | _ => []

def Node.content : Node → Content Node
  | .Null => .Null
  | .Scalar text => .Scalar text
  | .Sequence items => .Sequence items
  | .Map entries => .Map entries

/-- A document without aliases. -/
def YamlCpp.tree (yaml : YamlCpp) : Document Node := { content := Node.content, emit := yaml.emit }

end YAML

namespace Chord.Document

open YAML

variable {ι φ σ : Type}

/-- `ListAllMember`, at most `depth` calls deep. -/
def ListAllMember (document : Document ι) :
    Nat → String → ι → Option (List (String × ι) × List String)
  | 0, _, _ => none
  | depth + 1, path, node =>
      if validName path then
        match document.content node with
        | .Map entries =>
            (entries.mapM fun entry =>
                ListAllMember document depth (memberName path entry.1) entry.2).map
              fun members => ((path, node) :: members.flatMap Prod.fst, members.flatMap Prod.snd)
        | _ => some ([(path, node)], [])
      else some ([], ["Config invalid name : " ++ path ++ " : " ++ document.emit node])

/-- The text that a node gives to `fromString`. -/
def nodeText (document : Document ι) (node : ι) : String :=
  match document.content node with
  | .Scalar text => text
  | _ => document.emit node

/-- `Config::LoadFromYaml` with calls of `ListAllMember` at most `depth` deep. Its second loop
reads nothing of a node but this text. -/
def LoadFromYaml (yaml : YamlCpp) (document : Document ι) (depth : Nat) (root : ι)
    (config : Config φ σ) : Option (Except φ (Config φ σ)) :=
  (ListAllMember document depth "" root).map fun all_nodes =>
    Config.loadEntries yaml
      (all_nodes.1.map fun entry => (entry.1, .Scalar (nodeText document entry.2)))
      { config with errors := config.errors ++ all_nodes.2 }

/-- The child is the value of a key of the node that is made of the accepted characters. -/
def Descends (document : Document ι) (node child : ι) : Prop :=
  ∃ key, (key, child) ∈ (document.content node).members ∧ validName key = true

/-- The calls that a call of `ListAllMember` makes. -/
def calls (document : Document ι) (call : String × ι) : List (String × ι) :=
  if validName call.1 then
    (document.content call.2).members.map fun entry => (memberName call.1 entry.1, entry.2)
  else []

/-- What a call lists, with what its calls have listed. -/
def listed (document : Document ι) (call : String × ι)
    (members : List (List (String × ι) × List String)) : List (String × ι) × List String :=
  if validName call.1 then (call :: members.flatMap Prod.fst, members.flatMap Prod.snd)
  else ([], ["Config invalid name : " ++ call.1 ++ " : " ++ document.emit call.2])

theorem ListAllMember_eq_visit (document : Document ι) (depth : Nat) :
    ∀ path node, ListAllMember document depth path node =
      Descent.visit (calls document) (listed document) depth (path, node) := by
  induction depth with
  | zero => exact fun _ _ => rfl
  | succ depth ih =>
    intro path node
    rw [ListAllMember, Descent.visit]
    by_cases valid : validName path = true
    · have same : listed document (path, node) = fun members =>
          ((path, node) :: members.flatMap Prod.fst, members.flatMap Prod.snd) :=
        funext fun _ => if_pos valid
      simp only [valid, ↓reduceIte, calls, ih, same]
      cases document.content node with
      | Map entries =>
        rw [Content.members, List.mapM_map]
        rfl
      | _ => simp [Content.members]
    · simp [valid, calls, listed]

theorem validName_memberName (path key : String) (valid : validName path = true) :
    validName (memberName path key) = validName key := by
  unfold memberName
  split
  · rfl
  · have dot : ".".toList.all (fun c => c ∈ "abcefghijklmnopqrstuvwxyz._012345678".toList) =
        true := by decide
    unfold validName at valid ⊢
    simp only [String.toList_append, List.all_append, valid, dot, Bool.true_and]

/-- A call ends if and only if no endless descent over accepted keys starts at its node. -/
theorem acc_calls_iff (document : Document ι) {path : String} (valid : validName path = true)
    (node : ι) :
    Acc (fun called call => called ∈ calls document call) (path, node) ↔
      Acc (Function.swap (Descends document)) node := by
  constructor
  · intro accessible
    generalize start : (path, node) = call at accessible
    induction accessible generalizing path node with
    | intro call _ ih =>
      subst start
      refine ⟨node, fun child edge => ?_⟩
      obtain ⟨key, member, accepted⟩ := edge
      refine ih (memberName path key, child) ?_ ?_ child rfl
      · rw [calls, if_pos valid]
        exact List.mem_map.mpr ⟨(key, child), member, rfl⟩
      · rw [validName_memberName path key valid, accepted]
  · intro accessible
    induction accessible generalizing path with
    | intro node _ ih =>
      refine ⟨(path, node), fun called made => ?_⟩
      rw [calls, if_pos valid] at made
      obtain ⟨⟨key, child⟩, member, rfl⟩ := List.mem_map.mp made
      have same := validName_memberName path key valid
      by_cases accepted : validName key = true
      · exact ih child ⟨key, member, accepted⟩ (same.trans accepted)
      · refine ⟨_, fun called made => ?_⟩
        rw [calls, if_neg (by rw [same]; exact accepted)] at made
        cases made

theorem terminates_iff [Finite ι] (document : Document ι) (root : ι) :
    (∃ depth, (ListAllMember document depth "" root).isSome) ↔
      Descent.AcyclicFrom (Descends document) root := by
  simp only [ListAllMember_eq_visit]
  rw [Descent.exists_visit_iff, acc_calls_iff document (by decide) root,
    Descent.acc_iff_acyclicFrom]

section Tree

variable (yaml : YamlCpp)

theorem ListAllMember_of_le {document : Document ι} {depth more : Nat} (le : depth ≤ more)
    {path : String} {node : ι} {all : List (String × ι) × List String}
    (found : ListAllMember document depth path node = some all) :
    ListAllMember document more path node = some all := by
  rw [ListAllMember_eq_visit] at found ⊢
  exact Descent.visit_eq_of_le depth le found

mutual
/-- Without aliases enough depth gives what the recursion on the tree gives. -/
theorem ListAllMember_tree (node : Node) : ∀ path, ∃ depth,
    ListAllMember yaml.tree depth path node = some (Chord.ListAllMember yaml path node) := by
  intro path
  cases node with
  | Map entries =>
    obtain ⟨depth, members, listed, first, second⟩ := ListAllMember_entries_tree entries path
    refine ⟨depth + 1, ?_⟩
    simp only [ListAllMember, Chord.ListAllMember, YamlCpp.tree, Node.content] at listed ⊢
    rw [listed, Option.map_some, first, second]
    split <;> rfl
  | _ => exact ⟨1, by simp only [ListAllMember, Chord.ListAllMember]; split <;> rfl⟩
theorem ListAllMember_entries_tree (entries : List (String × Node)) : ∀ path,
    ∃ depth members, (entries.mapM fun entry =>
        ListAllMember yaml.tree depth (memberName path entry.1) entry.2) = some members ∧
      members.flatMap Prod.fst = (Chord.ListAllMember.entries yaml path entries).1 ∧
      members.flatMap Prod.snd = (Chord.ListAllMember.entries yaml path entries).2 := by
  intro path
  cases entries with
  | nil => exact ⟨0, [], rfl, rfl, rfl⟩
  | cons entry rest =>
    obtain ⟨key, value⟩ := entry
    obtain ⟨first, here⟩ := ListAllMember_tree value (memberName path key)
    obtain ⟨second, members, later, nodes, errors⟩ := ListAllMember_entries_tree rest path
    refine ⟨max first second,
      Chord.ListAllMember yaml (memberName path key) value :: members, ?_, ?_, ?_⟩
    · have behind := Descent.mapM_eq_some_of_le (fun entry _ all found =>
        ListAllMember_of_le (Nat.le_max_right first second) found) later
      rw [List.mapM_cons, ListAllMember_of_le (Nat.le_max_left first second) here, behind]
      rfl
    · rw [List.flatMap_cons, nodes, Chord.ListAllMember.entries]
    · rw [List.flatMap_cons, errors, Chord.ListAllMember.entries]
end

end Tree

/-- Flattening a document, and with it loading it, ends exactly if no map that is reached over
keys of the accepted characters contains itself over such keys. -/
theorem flattening_terminates_iff [Finite ι] (document : Document ι) (root : ι) :
    ((∃ depth, (ListAllMember document depth "" root).isSome) ↔
        Descent.AcyclicFrom (Descends document) root) ∧
      ∀ (yaml : YamlCpp) (config : Config φ σ),
        (∃ depth, (LoadFromYaml yaml document depth root config).isSome) ↔
          Descent.AcyclicFrom (Descends document) root := by
  refine ⟨terminates_iff document root, fun yaml config => ?_⟩
  simp only [LoadFromYaml, Option.isSome_map]
  exact terminates_iff document root

/-- The document `&a {key: *a}`, whose only map is the value of its own key. -/
def enclosing (key : String) : Document Unit where
  content _ := .Map [(key, ())]
  emit _ := "&1 \x7b" ++ key ++ ": *1\x7d"

/-- The letter d is not accepted in a name, which ends the descent. -/
theorem enclosing_d_terminates :
    ∃ depth, (ListAllMember (enclosing "d") depth "" ()).isSome := by
  refine (@flattening_terminates_iff Unit Empty Unit _ (enclosing "d") ()).1.mpr ?_
  rintro node - cycle
  obtain ⟨next, ⟨key, member, valid⟩, -⟩ := Relation.TransGen.head'_iff.mp cycle
  obtain ⟨rfl, -⟩ := Prod.mk.inj (List.mem_singleton.mp member)
  exact absurd valid (by decide)

theorem enclosing_b_does_not_terminate :
    ¬ ∃ depth, (ListAllMember (enclosing "b") depth "" ()).isSome := by
  rw [terminates_iff]
  intro acyclic
  exact acyclic () .refl (.single ⟨"b", List.mem_singleton_self _, by decide⟩)

end Chord.Document
