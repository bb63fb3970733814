import ChordServer.Config
import Mathlib.Data.List.Infix

set_option autoImplicit false

namespace Chord

open YAML

/-- The dotted path of a list of keys: empty keys in front leave no trace. -/
def dotted (keys : List String) : String := ".".intercalate (keys.dropWhile (· = ""))

/-- `ListAllMember` gets to the node with these keys: every path on the way is valid. -/
def listed (keys : List String) : Bool := keys.inits.all fun path => validName (dotted path)

mutual
/-- The nodes of a document in preorder, each with the keys that lead to it. -/
def preorder (keys : List String) : Node → List (List String × Node)
  | .Map entries => (keys, .Map entries) :: preorder.entries keys entries
  | node => [(keys, node)]
def preorder.entries (keys : List String) : List (String × Node) → List (List String × Node)
  | [] => []
  | (key, value) :: rest => preorder (keys ++ [key]) value ++ preorder.entries keys rest
end

theorem dotted_concat (keys : List String) (key : String) :
    dotted (keys ++ [key]) = memberName (dotted keys) key := by
  induction keys with
  | nil =>
    by_cases empty : key = "" <;> simp [dotted, memberName, empty]
  | cons first rest ih =>
    by_cases empty : first = ""
    · simpa [dotted, empty] using ih
    · have nonempty : ".".intercalate (first :: rest) ≠ "" := by
        cases rest with
        | nil => simpa using empty
        | cons second rest =>
          rw [String.intercalate_cons_cons]
          simp
      have joined := String.intercalate_append_of_ne_nil (s := ".") (List.cons_ne_nil first rest)
        (List.cons_ne_nil key [])
      simp only [String.intercalate_singleton] at joined
      rw [List.cons_append] at joined
      simp [dotted, empty, memberName, nonempty, joined]

/-- The path from another one, key by key. -/
def extend (path : String) (keys : List String) : String := keys.foldl memberName path

theorem dotted_append (first keys : List String) :
    dotted (first ++ keys) = extend (dotted first) keys := by
  induction keys using List.reverseRecOn with
  | nil => rw [List.append_nil]; rfl
  | append_singleton keys key ih =>
    rw [← List.append_assoc, dotted_concat, ih, extend, extend, List.foldl_concat]

theorem dotted_eq_extend (keys : List String) : dotted keys = extend "" keys :=
  dotted_append [] keys

theorem listed_concat (keys : List String) (key : String) :
    listed (keys ++ [key]) = (listed keys && validName (dotted (keys ++ [key]))) := by
  simp [listed, List.inits_append]

mutual
/-- Below a name that is not listed nothing is. -/
theorem preorder_unlisted (keys : List String) (hidden : listed keys = false) :
    ∀ node, ∀ entry ∈ preorder keys node, listed entry.1 = false
  | .Null => by simpa [preorder] using hidden
  | .Scalar _ => by simpa [preorder] using hidden
  | .Sequence _ => by simpa [preorder] using hidden
  | .Map entries => by
      rw [preorder, List.forall_mem_cons]
      exact ⟨hidden, preorder_entries_unlisted keys hidden entries⟩
theorem preorder_entries_unlisted (keys : List String) (hidden : listed keys = false) :
    ∀ entries, ∀ entry ∈ preorder.entries keys entries, listed entry.1 = false
  | [] => by simp [preorder.entries]
  | (key, value) :: rest => by
      rw [preorder.entries]
      have below : listed (keys ++ [key]) = false := by rw [listed_concat, hidden, Bool.false_and]
      intro entry member
      rcases List.mem_append.mp member with member | member
      · exact preorder_unlisted (keys ++ [key]) below value entry member
      · exact preorder_entries_unlisted keys hidden rest entry member
end

/-- The listed part of a preorder, under dotted names. -/
def listing (entries : List (List String × Node)) : List (String × Node) :=
  (entries.filter fun entry => listed entry.1).map fun entry => (dotted entry.1, entry.2)

theorem listing_append (first second : List (List String × Node)) :
    listing (first ++ second) = listing first ++ listing second := by
  simp [listing]

theorem listing_unlisted {entries : List (List String × Node)}
    (hidden : ∀ entry ∈ entries, listed entry.1 = false) : listing entries = [] := by
  rw [listing, List.filter_eq_nil_iff.mpr fun entry member => by simp [hidden entry member],
    List.map_nil]

theorem listing_cons_of_listed {entry : List String × Node} (known : listed entry.1 = true)
    (rest : List (List String × Node)) :
    listing (entry :: rest) = (dotted entry.1, entry.2) :: listing rest := by
  simp [listing, known]

theorem listing_cons_of_unlisted {entry : List String × Node} (hidden : ¬ listed entry.1 = true)
    (rest : List (List String × Node)) : listing (entry :: rest) = listing rest := by
  simp [listing, hidden]

theorem listing_leaf (keys : List String) (node : Node) (errors : List String)
    (checked : listed keys = validName (dotted keys)) :
    (if validName (dotted keys) then ([(dotted keys, node)], ([] : List String))
      else ([], errors)).1 = listing [(keys, node)] := by
  cases valid : validName (dotted keys) <;> simp [listing, checked, valid]

mutual
/-- `ListAllMember` lists the preorder, less what is below an invalid name. -/
theorem ListAllMember_eq (yaml : YamlCpp) (keys : List String)
    (checked : listed keys = validName (dotted keys)) :
    ∀ node, (ListAllMember yaml (dotted keys) node).1 = listing (preorder keys node)
  | .Null => listing_leaf keys .Null _ checked
  | .Scalar text => listing_leaf keys (.Scalar text) _ checked
  | .Sequence items => listing_leaf keys (.Sequence items) _ checked
  | .Map entries => by
      rw [ListAllMember]
      split
      · rename_i valid
        have known : listed keys = true := checked.trans valid
        have members := ListAllMember_entries_eq yaml keys known entries
        rw [preorder, listing, List.filter_cons_of_pos (by exact known), List.map_cons]
        exact congrArg _ members
      · rename_i invalid
        have hidden : listed keys = false := checked.trans (by simpa using invalid)
        rw [listing_unlisted (preorder_unlisted keys hidden (.Map entries))]
theorem ListAllMember_entries_eq (yaml : YamlCpp) (keys : List String)
    (known : listed keys = true) :
    ∀ entries, (ListAllMember.entries yaml (dotted keys) entries).1 =
      listing (preorder.entries keys entries)
  | [] => rfl
  | (key, value) :: rest => by
      have checked : listed (keys ++ [key]) = validName (dotted (keys ++ [key])) := by
        rw [listed_concat, known, Bool.true_and]
      have first := ListAllMember_eq yaml (keys ++ [key]) checked value
      have later := ListAllMember_entries_eq yaml keys known rest
      rw [dotted_concat] at first
      rw [preorder.entries, listing_append, ← first, ← later]
      rfl
end

/-- What the loader lists of a document. -/
theorem ListAllMember_root (yaml : YamlCpp) (root : Node) :
    (ListAllMember yaml "" root).1 = listing (preorder [] root) :=
  ListAllMember_eq yaml [] (by decide) root

end Chord
