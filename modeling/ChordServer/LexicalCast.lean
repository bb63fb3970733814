import ChordServer.Fallible
import ChordServer.HashedSet
import ChordServer.KeyedSet
import ChordServer.Yaml
import Mathlib.Data.String.Basic

set_option autoImplicit false

namespace Chord

open YAML

/-- What a cast throws, all of it derived from `std::exception`. -/
inductive CastException
  | yaml (thrown : YAML.Exception)
  | bad_lexical_cast
  deriving DecidableEq, Repr

namespace LexicalCast

variable (yaml : YamlCpp) {T C : Type}

/-- `YAML::Load(v)`. -/
def Load (v : String) : Except CastException Node := (yaml.Load v).mapError .yaml

/-- `ss << node[i]`; an undefined node prints nothing. -/
def print : Option Node → String
  | some node => yaml.emit node
  | none => ""

/-- The loop over `node[i]` in the casts to a container: every element is printed, cast
and added. -/
def fromElements (empty : C) (add : C → T → C) (FromStr : String → Except CastException T)
    (v : String) : Except CastException C := do
  let node ← Load yaml v
  (yaml.elements node).foldlM (fun c i => return add c (← FromStr (print yaml i))) empty

/-- The loop over `v` in the casts from a container: every element is cast, loaded and
pushed back. -/
def toElements (ToStr : T → Except CastException String) (v : List T) :
    Except CastException String := do
  let node ← v.foldlM (fun (node : Node) i => return node.push_back (← Load yaml (← ToStr i)))
    Node.Null
  return yaml.emit node

/-- The pairs from `node.begin()` to `node.end()`. A sequence iterates over elements
without a key, and to ask for the key throws. -/
def iterate : Node → Except CastException (List (String × Node))
  | .Map entries => .ok entries
  | .Sequence (_ :: _) => .error (.yaml .invalidNode)
  | _ => .ok []

/-- The loop over the pairs of a node in the casts to a map. -/
def fromEntries (empty : C) (insert : C → String × T → C)
    (FromStr : String → Except CastException T) (v : String) : Except CastException C := do
  let node ← Load yaml v
  let pairs ← iterate node
  pairs.foldlM (fun m it => return insert m (it.1, ← FromStr (yaml.emit it.2))) empty

/-- The loop over `v` in the casts from a map: `node[i.first] = YAML::Load(..)`. -/
def toEntries (ToStr : T → Except CastException String) (v : List (String × T)) :
    Except CastException String := do
  let node ← v.foldlM
    (fun (node : Node) i => return node.set i.1 (← Load yaml (← ToStr i.2))) Node.Null
  return yaml.emit node

section
variable (FromStr : String → Except CastException T) (ToStr : T → Except CastException String)

/-- `LexicalCast<std::string, std::vector<T>>`. -/
def toVector (v : String) : Except CastException (List T) :=
  fromElements yaml [] (fun vec i => vec ++ [i]) FromStr v

/-- `LexicalCast<std::vector<T>, std::string>`. -/
def fromVector (v : List T) : Except CastException String := toElements yaml ToStr v

/-- `LexicalCast<std::string, std::list<T>>`. -/
def toList (v : String) : Except CastException (List T) :=
  fromElements yaml [] (fun l i => l ++ [i]) FromStr v

/-- `LexicalCast<std::list<T>, std::string>`. -/
def fromList (v : List T) : Except CastException String := toElements yaml ToStr v

/-- `LexicalCast<std::string, std::set<T>>`. -/
def toSet [LinearOrder T] (v : String) : Except CastException (KeyedSet (id : T → T)) :=
  fromElements yaml ∅ KeyedSet.insert FromStr v

/-- `LexicalCast<std::set<T>, std::string>`. -/
def fromSet [LinearOrder T] (v : KeyedSet (id : T → T)) : Except CastException String :=
  toElements yaml ToStr v.toList

/-- `LexicalCast<std::string, std::unordered_set<T>>`. -/
def toUnorderedSet [DecidableEq T] (hashing : Hashing) (v : String) :
    Except CastException (HashedSet (id : T → T)) :=
  fromElements yaml .empty (HashedSet.insert hashing) FromStr v

/-- `LexicalCast<std::unordered_set<T>, std::string>`. -/
def fromUnorderedSet (v : HashedSet (id : T → T)) : Except CastException String :=
  toElements yaml ToStr v.toList

/-- `LexicalCast<std::string, std::map<std::string, T>>`. -/
def toMap (v : String) : Except CastException (KeyedSet (Prod.fst : String × T → String)) :=
  fromEntries yaml ∅ KeyedSet.insert FromStr v

/-- `LexicalCast<std::map<std::string, T>, std::string>`. -/
def fromMap (v : KeyedSet (Prod.fst : String × T → String)) : Except CastException String :=
  toEntries yaml ToStr v.toList

/-- `LexicalCast<std::string, std::unordered_map<std::string, T>>`. -/
def toUnorderedMap (hashing : Hashing) (v : String) :
    Except CastException (HashedSet (Prod.fst : String × T → String)) :=
  fromEntries yaml .empty (HashedSet.insert hashing) FromStr v

/-- `LexicalCast<std::unordered_map<std::string, T>, std::string>`. -/
def fromUnorderedMap (v : HashedSet (Prod.fst : String × T → String)) :
    Except CastException String :=
  toEntries yaml ToStr v.toList

end

variable {yaml} {FromStr : String → Except CastException T}
  {ToStr : T → Except CastException String}

@[simp] theorem Load_emit (node : Node) : Load yaml (yaml.emit node) = .ok node := by
  rw [Load, yaml.Load_emit]
  rfl

/-- An element whose text loads as a node is added to what has been built of the others. -/
theorem load_round {α : Type} {i : T} {node : Node}
    (loads : (ToStr i).bind (Load yaml) = .ok node) (add : Node → α) :
    (do return add (← Load yaml (← ToStr i)) : Except CastException α) = .ok (add node) := by
  obtain ⟨text, written, loaded⟩ : ∃ text, ToStr i = .ok text ∧ Load yaml text = .ok node := by
    cases written : ToStr i with
    | error thrown => rw [written] at loads; cases loads
    | ok text => exact ⟨text, rfl, by rwa [written] at loads⟩
  simp only [bind, Except.bind, written, loaded, pure, Except.pure]

/-- Elements whose texts load as nodes become a sequence of these, or a null node. -/
theorem toElements_ok (node : T → Node) {items : List T}
    (loads : ∀ i ∈ items, (ToStr i).bind (Load yaml) = .ok (node i)) :
    toElements yaml ToStr items = .ok (yaml.emit
      (items.foldl (fun (sequence : Node) i => sequence.push_back (node i)) Node.Null)) := by
  rw [toElements, Fallible.foldlM_ok fun i member sequence =>
    load_round (loads i member) sequence.push_back]
  rfl

theorem fromElements_ok {empty : C} {add : C → T → C} (node : T → Node) (back : T → T)
    {items : List T} (reads : ∀ i ∈ items, FromStr (yaml.emit (node i)) = .ok (back i)) :
    fromElements yaml empty add FromStr (yaml.emit
      (items.foldl (fun (sequence : Node) i => sequence.push_back (node i)) Node.Null)) =
      .ok ((items.map back).foldl add empty) := by
  rw [fromElements, Load_emit]
  show ((yaml.elements _).foldlM _ empty) = _
  rw [YamlCpp.elements_push_backs, List.foldlM_map, List.foldl_map]
  refine Fallible.foldlM_ok fun i member c => ?_
  simp only [print, reads i member, bind, Except.bind, pure, Except.pure]

/-- Pairs whose values' texts load as nodes become a map to these, or a null node. -/
theorem toEntries_ok (node : T → Node) {items : List (String × T)}
    (loads : ∀ i ∈ items, (ToStr i.2).bind (Load yaml) = .ok (node i.2)) :
    toEntries yaml ToStr items = .ok (yaml.emit
      (items.foldl (fun (map : Node) i => map.set i.1 (node i.2)) Node.Null)) := by
  rw [toEntries, Fallible.foldlM_ok fun i member map => load_round (loads i member) (map.set i.1)]
  rfl

theorem fromEntries_ok {empty : C} {insert : C → String × T → C} (node : T → Node)
    (back : T → T) {items : List (String × T)} (distinct : (items.map Prod.fst).Nodup)
    (reads : ∀ i ∈ items, FromStr (yaml.emit (node i.2)) = .ok (back i.2)) :
    fromEntries yaml empty insert FromStr (yaml.emit
      (items.foldl (fun (map : Node) i => map.set i.1 (node i.2)) Node.Null)) =
      .ok ((items.map fun i => (i.1, back i.2)).foldl insert empty) := by
  have pairs : iterate (items.foldl (fun (map : Node) i => map.set i.1 (node i.2)) Node.Null) =
      .ok (items.map fun i => (i.1, node i.2)) := by
    rw [Node.sets node items distinct]
    split
    · rename_i none
      rw [none]
      rfl
    · rfl
  rw [fromEntries, Load_emit]
  show ((iterate _).bind fun pairs => pairs.foldlM _ empty) = _
  rw [pairs]
  show ((items.map _).foldlM _ empty) = _
  rw [List.foldlM_map, List.foldl_map]
  refine Fallible.foldlM_ok fun i member m => ?_
  simp only [reads i member, bind, Except.bind, pure, Except.pure]

end LexicalCast

end Chord
