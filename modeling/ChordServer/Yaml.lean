import Mathlib.Data.List.Basic

set_option autoImplicit false

/- Trees of YAML nodes and the operations of the library `yaml-cpp` on them. Trees
are finite and without aliases, and the keys of a map are scalars. -/
namespace YAML

inductive Node
  | Null
  | Scalar (text : String)
  | Sequence (items : List Node)
  | Map (entries : List (String × Node))

/-- What the library throws, all of it derived from `std::exception`. -/
inductive Exception
  | parserException (what : String)
  | badSubscript
  | badConversion
  | invalidNode
  deriving DecidableEq, Repr

namespace Node

/-- The value of a key; `none` is an undefined node. -/
def find : Node → String → Option Node
  | .Map entries, key => (entries.find? fun entry => entry.1 = key).map (·.2)
  | _, _ => none

/-- `node[key]`, read only. -/
def subscript (node : Node) (key : String) : Except Exception (Option Node) :=
  match node with
  | .Scalar _ => .error .badSubscript
  | _ => .ok (node.find key)

def size : Node → Nat
  | .Sequence items => items.length
  | .Map entries => entries.length
  | _ => 0

/-- The entries after an assignment: the key's value is replaced, or the pair is added. -/
def assign (key : String) (value : Node) : List (String × Node) → List (String × Node)
  | [] => [(key, value)]
  | entry :: rest =>
      if entry.1 = key then (key, value) :: rest else entry :: assign key value rest

/-- `node[key] = value` on a map or on a fresh node, which becomes one. -/
def set (node : Node) (key : String) (value : Node) : Node :=
  match node with
  | .Map entries => .Map (assign key value entries)
  | _ => .Map [(key, value)]

/-- `push_back` on a sequence or on a fresh node, which becomes one. -/
def push_back (node : Node) (item : Node) : Node :=
  match node with
  | .Sequence items => .Sequence (items ++ [item])
  | _ => .Sequence [item]

/-- `node[key].push_back(item)`. -/
def pushBackAt (node : Node) (key : String) (item : Node) : Node :=
  node.set key (((node.find key).getD .Null).push_back item)

/-- What a subscript with a string turns a node into that is not a map. -/
def convert_to_map : Node → Node
  | .Null => .Map []
  | .Sequence items => .Map (items.zipIdx.map fun indexed => (toString indexed.2, indexed.1))
  | node => node

@[simp] theorem find_Null (key : String) : Node.Null.find key = none := rfl

theorem find_assign (entries : List (String × Node)) (key other : String) (value : Node) :
    (Node.Map (assign key value entries)).find other =
      if key = other then some value else (Node.Map entries).find other := by
  induction entries with
  | nil => by_cases same : key = other <;> simp [assign, find, same]
  | cons entry rest ih =>
    rw [assign]
    by_cases here : entry.1 = key
    · rw [if_pos here]
      by_cases same : key = other <;> simp [find, here, same]
    · rw [if_neg here]
      by_cases same : entry.1 = other
      · have apart : key ≠ other := fun equal => here (same.trans equal.symm)
        simp [find, same, apart]
      · simpa [find, same] using ih

theorem find_set (node : Node) (key other : String) (value : Node) :
    (node.set key value).find other = if key = other then some value else node.find other := by
  have fresh : (Node.Map [(key, value)]).find other =
      if key = other then some value else none := find_assign [] key other value
  cases node with
  | Null => exact fresh
  | Scalar text => exact fresh
  | Sequence items => exact fresh
  | Map entries => exact find_assign entries key other value

/-- An assignment that may be left out. -/
theorem find_ite_set (condition : Prop) [Decidable condition] (node : Node) (key other : String)
    (value : Node) :
    (if condition then node.set key value else node).find other =
      if condition ∧ key = other then some value else node.find other := by
  by_cases holds : condition <;> simp [holds, find_set]

/-- The node is a map or has not been assigned to yet. -/
def IsMap : Node → Prop
  | .Null => True
  | .Map _ => True
  | _ => False

theorem subscript_of_isMap {node : Node} (isMap : node.IsMap) (key : String) :
    node.subscript key = .ok (node.find key) := by
  cases node with
  | Scalar text => exact isMap.elim
  | _ => rfl

theorem isMap_set (node : Node) (key : String) (value : Node) : (node.set key value).IsMap := by
  cases node <;> trivial

theorem isMap_ite_set (condition : Prop) [Decidable condition] {node : Node} (isMap : node.IsMap)
    (key : String) (value : Node) : (if condition then node.set key value else node).IsMap := by
  split
  · exact isMap_set node key value
  · exact isMap

theorem isMap_pushBacks {α : Type*} (key : String) (write : α → Node) (items : List α) :
    ∀ {node : Node}, node.IsMap →
      (items.foldl (fun node item => node.pushBackAt key (write item)) node).IsMap := by
  induction items with
  | nil => exact fun isMap => isMap
  | cons item rest ih => exact fun _ => ih (isMap_set _ _ _)

/-- Appending to a sequence under a key leaves the other keys alone. -/
theorem find_pushBacks {α : Type*} (key : String) (write : α → Node) (items : List α) :
    ∀ (node : Node) (other : String),
      (items.foldl (fun node item => node.pushBackAt key (write item)) node).find other =
        if key = other ∧ items ≠ [] then
          some (items.foldl (fun sequence item => sequence.push_back (write item))
            ((node.find key).getD .Null))
        else node.find other := by
  induction items with
  | nil => intro node other; simp
  | cons item rest ih =>
    intro node other
    rw [List.foldl_cons, ih, List.foldl_cons]
    by_cases same : key = other
    · subst same
      cases rest with
      | nil => simp [pushBackAt, find_set]
      | cons next rest => simp [pushBackAt, find_set]
    · simp [same, pushBackAt, find_set]

/-- A fresh node to which elements are appended holds them, or stays null without any. -/
theorem push_backs {α : Type*} (write : α → Node) (items : List α) :
    items.foldl (fun (sequence : Node) item => sequence.push_back (write item)) Node.Null =
      if items = [] then .Null else .Sequence (items.map write) := by
  have appended : ∀ (rest : List α) (before : List Node),
      rest.foldl (fun (sequence : Node) item => sequence.push_back (write item))
        (Node.Sequence before) = .Sequence (before ++ rest.map write) := by
    intro rest
    induction rest with
    | nil => intro before; simp
    | cons item rest ih =>
      intro before
      rw [List.foldl_cons, push_back, ih, List.map_cons, List.append_assoc, List.singleton_append]
  cases items with
  | nil => rfl
  | cons item rest =>
    have first : Null.push_back (write item) = .Sequence [write item] := rfl
    rw [List.foldl_cons, first, appended, if_neg (List.cons_ne_nil item rest)]
    rfl

theorem assign_fresh {entries : List (String × Node)} {key : String}
    (fresh : key ∉ entries.map Prod.fst) (value : Node) :
    assign key value entries = entries ++ [(key, value)] := by
  induction entries with
  | nil => rfl
  | cons entry rest ih =>
    rw [List.map_cons, List.mem_cons, not_or] at fresh
    rw [assign, if_neg (Ne.symm fresh.1), ih fresh.2, List.cons_append]

/-- A fresh node to which different keys are assigned holds them, or stays null without
any. -/
theorem sets {α : Type*} (write : α → Node) (entries : List (String × α))
    (distinct : (entries.map Prod.fst).Nodup) :
    entries.foldl (fun (node : Node) entry => node.set entry.1 (write entry.2)) Node.Null =
      if entries = [] then .Null else .Map (entries.map fun entry => (entry.1, write entry.2)) := by
  have assigned : ∀ (rest : List (String × α)) (before : List (String × Node)),
      (before.map Prod.fst ++ rest.map Prod.fst).Nodup →
      rest.foldl (fun (node : Node) entry => node.set entry.1 (write entry.2)) (Node.Map before) =
        .Map (before ++ rest.map fun entry => (entry.1, write entry.2)) := by
    intro rest
    induction rest with
    | nil => intro before _; simp
    | cons entry rest ih =>
      intro before distinct
      have fresh : entry.1 ∉ before.map Prod.fst := fun member =>
        (List.nodup_append.mp distinct).2.2 entry.1 member entry.1 List.mem_cons_self rfl
      rw [List.foldl_cons, set, assign_fresh fresh, ih]
      · rw [List.map_cons, List.append_assoc, List.singleton_append]
      · simpa using distinct
  cases entries with
  | nil => rfl
  | cons entry rest =>
    have first : Null.set entry.1 (write entry.2) = .Map [(entry.1, write entry.2)] := rfl
    rw [List.foldl_cons, first, assigned rest _ (by simpa using distinct),
      if_neg (List.cons_ne_nil entry rest)]
    rfl

end Node

/-- The loader and the emitter. `asIndex` reads the text of a key as a `size_t`, and
`asString` is `as<std::string>()`, whose answer on a null node has changed between
versions. Loading what was emitted gives back the tree. -/
structure YamlCpp where
  Load : String → Except Exception Node
  emit : Node → String
  asIndex : String → Option Nat
  asString : Node → Except Exception String
  Load_emit : ∀ node, Load (emit node) = .ok node
  asString_Scalar : ∀ text, asString (.Scalar text) = .ok text

/-- `node[i]`: an element of a sequence, or the value of a key that reads as `i`. -/
def YamlCpp.index (yaml : YamlCpp) : Node → Nat → Option Node
  | .Sequence items, i => items[i]?
  | .Map entries, i => (entries.find? fun entry => yaml.asIndex entry.1 = some i).map (·.2)
  | _, _ => none

/-- `node[0]`, `node[1]`, .. up to the node's size. -/
def YamlCpp.elements (yaml : YamlCpp) (node : Node) : List (Option Node) :=
  (List.range node.size).map (yaml.index node)

theorem YamlCpp.elements_Sequence (yaml : YamlCpp) (items : List Node) :
    yaml.elements (.Sequence items) = items.map some := by
  refine List.ext_getElem (by simp [elements, Node.size]) fun i inside _ => ?_
  have bound : i < items.length := by simpa [elements, Node.size] using inside
  simp [elements, index, bound]

theorem YamlCpp.elements_push_backs {α : Type*} (yaml : YamlCpp) (write : α → Node)
    (items : List α) :
    yaml.elements (items.foldl (fun (sequence : Node) item => sequence.push_back (write item))
        Node.Null) = items.map fun item => some (write item) := by
  rw [Node.push_backs]
  split
  · rename_i empty
    subst empty
    rfl
  · rw [elements_Sequence, List.map_map]
    rfl

end YAML
