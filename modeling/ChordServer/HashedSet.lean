import Mathlib.Data.List.Nodup
import Mathlib.Data.List.Perm.Subperm

set_option autoImplicit false

/-- What an implementation of hash tables makes of the order of iteration: a new element
may come to any place, and the others may move. -/
structure Hashing where
  arrange : ∀ {α : Type}, List α → List α
  perm : ∀ {α : Type} (items : List α), (arrange items).Perm items

/-- A hash table with one element for each key, such as a `std::unordered_set`, or a
`std::unordered_map`, whose elements are its pairs. The list is in the order of
iteration. -/
structure HashedSet {α κ : Type} (key : α → κ) where
  toList : List α
  distinct : (toList.map key).Nodup

namespace HashedSet

variable {α κ : Type} [DecidableEq κ] {key : α → κ} (hashing : Hashing)

def empty : HashedSet key := ⟨[], List.nodup_nil⟩

/-- The element with the key. -/
def find (s : HashedSet key) (k : κ) : Option α := s.toList.find? fun a => key a = k

/-- `insert(a)`: without effect if the key is present. -/
def insert (s : HashedSet key) (a : α) : HashedSet key :=
  if present : key a ∈ s.toList.map key then s
  else
    { toList := hashing.arrange (a :: s.toList)
      distinct := by
        refine ((hashing.perm _).map key).nodup_iff.mpr ?_
        exact List.nodup_cons.mpr ⟨present, s.distinct⟩ }

theorem insert_fresh {s : HashedSet key} {a : α} (fresh : key a ∉ s.toList.map key) :
    (s.insert hashing a).toList.Perm (a :: s.toList) := by
  rw [insert, dif_neg fresh]
  exact hashing.perm _

/-- Inserting elements with different keys keeps them all. -/
theorem foldl_insert_perm (items : List α) :
    ∀ s : HashedSet key, ((s.toList ++ items).map key).Nodup →
      (items.foldl (insert hashing) s).toList.Perm (s.toList ++ items) := by
  induction items with
  | nil =>
    intro s _
    rw [List.append_nil]
    exact .refl _
  | cons a rest ih =>
    intro s distinct
    have moved : (s.toList ++ a :: rest).Perm (a :: s.toList ++ rest) := List.perm_middle
    have fresh : key a ∉ s.toList.map key := by
      have apart := (moved.map key).nodup_iff.mp distinct
      rw [List.cons_append, List.map_cons, List.nodup_cons, List.map_append,
        List.mem_append, not_or] at apart
      exact apart.1.1
    have inserted := insert_fresh hashing fresh
    have appended := (inserted.append_right rest).trans moved.symm
    rw [List.foldl_cons]
    exact (ih _ ((appended.map key).nodup_iff.mpr distinct)).trans appended

variable {s : HashedSet key} {a b : α} {k : κ}

theorem find_eq_none_iff : s.find k = none ↔ ∀ a ∈ s.toList, key a ≠ k := by
  simp only [find, List.find?_eq_none, decide_eq_true_eq, ne_eq]

theorem find_eq_some_iff : s.find k = some a ↔ a ∈ s.toList ∧ key a = k := by
  have found : ∀ {b}, s.find k = some b → b ∈ s.toList ∧ key b = k := fun same =>
    ⟨List.mem_of_find?_eq_some same, by simpa using List.find?_some same⟩
  refine ⟨found, ?_⟩
  rintro ⟨member, rfl⟩
  cases other : s.find (key a) with
  | none => exact absurd rfl (find_eq_none_iff.mp other a member)
  | some b =>
    obtain ⟨inside, same⟩ := found other
    rw [List.inj_on_of_nodup_map s.distinct inside member same]

theorem find_insert (s : HashedSet key) (a : α) (k : κ) :
    (s.insert hashing a).find k = if key a = k then some ((s.find k).getD a) else s.find k := by
  by_cases present : key a ∈ s.toList.map key
  · rw [insert, dif_pos present]
    split_ifs with same
    · obtain ⟨b, member, here⟩ := List.mem_map.mp present
      rw [find_eq_some_iff.mpr ⟨member, here.trans same⟩, Option.getD_some]
    · rfl
  · have absent : s.find (key a) = none :=
      find_eq_none_iff.mpr fun b member same => present (List.mem_map.mpr ⟨b, member, same⟩)
    have inserted := insert_fresh hashing present
    split_ifs with same
    · subst same
      rw [absent, Option.getD_none, find_eq_some_iff, inserted.mem_iff]
      exact ⟨List.mem_cons_self, rfl⟩
    · ext b
      rw [find_eq_some_iff, find_eq_some_iff, inserted.mem_iff, List.mem_cons]
      refine and_congr_left fun here => or_iff_right ?_
      rintro rfl
      exact same here

/-- The table with another element at a key. -/
def modify (s : HashedSet key) (k : κ) (f : α → α) (same : ∀ a, key (f a) = key a) :
    HashedSet key where
  toList := s.toList.map fun a => if key a = k then f a else a
  distinct := by
    have keys : (s.toList.map fun a => if key a = k then f a else a).map key =
        s.toList.map key := by
      rw [List.map_map]
      refine List.map_congr_left fun a _ => ?_
      rw [Function.comp_apply]
      split_ifs
      · exact same a
      · rfl
    exact keys ▸ s.distinct

theorem find_modify (s : HashedSet key) (k other : κ) (f : α → α)
    (same : ∀ a, key (f a) = key a) :
    (s.modify k f same).find other = (s.find other).map fun a => if other = k then f a else a := by
  have keys : ∀ a, key (if key a = k then f a else a) = key a := by
    intro a
    split_ifs
    · exact same a
    · rfl
  simp only [find, modify, List.find?_map, Function.comp_def, keys]
  cases found : s.toList.find? fun a => key a = other with
  | none => rfl
  | some a =>
    have here : key a = other := by simpa using List.find?_some found
    rw [Option.map_some, Option.map_some, here]

section Covers

omit [DecidableEq κ]

variable {related : α → α → Prop} {t u : HashedSet key}

/-- `operator==` of hash containers: they have as many elements, and each one of the first has a
related one in the second. -/
def Covers (related : α → α → Prop) (s t : HashedSet key) : Prop :=
  s.toList.length = t.toList.length ∧ ∀ a ∈ s.toList, ∃ b ∈ t.toList, related a b

/-- The keys are the same ones, so that each element of the second has its own one in the
first. -/
theorem Covers.symm (keyed : ∀ a b, related a b → key a = key b)
    (symm : ∀ a b, related a b → related b a) (covers : s.Covers related t) :
    t.Covers related s := by
  obtain ⟨lengths, covered⟩ := covers
  have included : s.toList.map key ⊆ t.toList.map key := by
    intro k member
    obtain ⟨a, inside, rfl⟩ := List.mem_map.mp member
    obtain ⟨b, there, same⟩ := covered a inside
    exact List.mem_map.mpr ⟨b, there, (keyed a b same).symm⟩
  have keys : (s.toList.map key).Perm (t.toList.map key) := by
    apply (s.distinct.subperm included).perm_of_length_le
    simp only [List.length_map, lengths, Nat.le_refl]
  refine ⟨lengths.symm, fun b there => ?_⟩
  obtain ⟨a, inside, same⟩ := List.mem_map.mp (keys.mem_iff.mpr (List.mem_map_of_mem there))
  obtain ⟨other, found, equal⟩ := covered a inside
  have key_eq : key other = key b := (keyed a other equal).symm.trans same
  obtain rfl := List.inj_on_of_nodup_map t.distinct found there key_eq
  exact ⟨a, inside, symm a other equal⟩

theorem Covers.trans (trans : ∀ a b c, related a b → related b c → related a c)
    (first : s.Covers related t) (second : t.Covers related u) : s.Covers related u := by
  refine ⟨first.1.trans second.1, fun a member => ?_⟩
  obtain ⟨b, inside, before⟩ := first.2 a member
  obtain ⟨c, there, after⟩ := second.2 b inside
  exact ⟨c, there, trans a b c before after⟩

end Covers

end HashedSet
