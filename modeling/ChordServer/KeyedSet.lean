import Mathlib.Data.List.Nodup
import Mathlib.Order.Lattice

set_option autoImplicit false

/-- An ordered container with one element for each key, such as a `std::set` whose
comparison reads a key, or a `std::map`, whose elements are its pairs. -/
@[ext] structure KeyedSet {α κ : Type*} [LinearOrder κ] (key : α → κ) where
  toList : List α
  sorted : toList.Pairwise fun a b => key a < key b

namespace KeyedSet

variable {α κ : Type*} [LinearOrder κ] {key : α → κ}

instance [DecidableEq α] : DecidableEq (KeyedSet key) := fun s t =>
  decidable_of_iff (s.toList = t.toList) KeyedSet.ext_iff.symm

def empty : KeyedSet key := ⟨[], .nil⟩

instance : EmptyCollection (KeyedSet key) := ⟨empty⟩

instance : Membership α (KeyedSet key) := ⟨fun s a => a ∈ s.toList⟩

theorem mem_def {s : KeyedSet key} {a : α} : a ∈ s ↔ a ∈ s.toList := Iff.rfl

theorem not_mem_empty (a : α) : a ∉ (∅ : KeyedSet key) := List.not_mem_nil

/-- The element with the key. -/
def find (s : KeyedSet key) (k : κ) : Option α := s.toList.find? fun a => key a = k

/-- The list with `a` in its place; an element with the same key stays and wins. -/
def insertInto (key : α → κ) (a : α) : List α → List α
  | [] => [a]
  | b :: rest =>
      if key a < key b then a :: b :: rest
      else if key b < key a then b :: insertInto key a rest
      else b :: rest

theorem mem_insertInto {a b : α} {items : List α}
    (sorted : items.Pairwise fun a b => key a < key b) :
    b ∈ insertInto key a items ↔ b ∈ items ∨ b = a ∧ ∀ c ∈ items, key c ≠ key a := by
  induction items with
  | nil => simp [insertInto]
  | cons head rest ih =>
    obtain ⟨above, sorted⟩ := List.pairwise_cons.mp sorted
    rw [insertInto]
    split_ifs with before after
    · have fresh : ∀ c ∈ head :: rest, key c ≠ key a := by
        intro c member
        rcases List.mem_cons.mp member with rfl | member
        · exact before.ne'
        · exact (before.trans (above c member)).ne'
      rw [List.mem_cons, or_comm, and_iff_left fresh]
    · simp only [List.mem_cons, ih sorted, forall_eq_or_imp, after.ne, ne_eq, not_false_eq_true,
        true_and, or_assoc]
    · have same : key head = key a := le_antisymm (not_lt.mp before) (not_lt.mp after)
      simp [same]

theorem insertInto_sorted (a : α) {items : List α}
    (sorted : items.Pairwise fun a b => key a < key b) :
    (insertInto key a items).Pairwise fun a b => key a < key b := by
  induction items with
  | nil => simp [insertInto]
  | cons head rest ih =>
    obtain ⟨above, sorted⟩ := List.pairwise_cons.mp sorted
    rw [insertInto]
    split_ifs with before after
    · refine List.pairwise_cons.mpr ⟨fun b member => ?_, List.pairwise_cons.mpr ⟨above, sorted⟩⟩
      rcases List.mem_cons.mp member with rfl | member
      · exact before
      · exact before.trans (above b member)
    · refine List.pairwise_cons.mpr ⟨fun b member => ?_, ih sorted⟩
      rcases (mem_insertInto sorted).mp member with member | ⟨rfl, -⟩
      · exact above b member
      · exact after
    · exact List.pairwise_cons.mpr ⟨above, sorted⟩

/-- `insert(a)`: without effect if the key is present. -/
def insert (s : KeyedSet key) (a : α) : KeyedSet key :=
  ⟨insertInto key a s.toList, insertInto_sorted a s.sorted⟩

variable {s : KeyedSet key} {a b : α} {k : κ}

theorem find_eq_none_iff : s.find k = none ↔ ∀ a ∈ s, key a ≠ k := by
  simp only [find, List.find?_eq_none, decide_eq_true_eq, mem_def, ne_eq]

/-- Two elements of one key are one element. -/
theorem eq_of_key_eq (first : a ∈ s) (second : b ∈ s) (same : key a = key b) : a = b :=
  List.inj_on_of_nodup_map
    (List.pairwise_map.mpr (s.sorted.imp fun less => less.ne)) first second same

theorem find_eq_some_iff : s.find k = some a ↔ a ∈ s ∧ key a = k := by
  have found : ∀ {b}, s.find k = some b → b ∈ s ∧ key b = k := fun same =>
    ⟨List.mem_of_find?_eq_some same, by simpa using List.find?_some same⟩
  refine ⟨found, ?_⟩
  rintro ⟨member, rfl⟩
  cases other : s.find (key a) with
  | none => exact absurd rfl (find_eq_none_iff.mp other a member)
  | some b =>
    obtain ⟨inside, same⟩ := found other
    rw [eq_of_key_eq inside member same]

theorem find_key (member : a ∈ s) : s.find (key a) = some a := find_eq_some_iff.mpr ⟨member, rfl⟩

theorem find_isSome_iff : (s.find k).isSome ↔ ∃ a ∈ s, key a = k := by
  simp only [Option.isSome_iff_exists, find_eq_some_iff]

/-- At most one element has the key. -/
theorem filter_key (s : KeyedSet key) (k : κ) :
    (s.toList.filter fun a => key a = k) = (s.find k).toList := by
  obtain ⟨items, sorted⟩ := s
  show items.filter _ = (items.find? _).toList
  induction items with
  | nil => rfl
  | cons a rest ih =>
    obtain ⟨above, sorted⟩ := List.pairwise_cons.mp sorted
    by_cases here : key a = k
    · have others : rest.filter (fun b => key b = k) = [] :=
        List.filter_eq_nil_iff.mpr fun b member same =>
          (above b member).ne (here.trans (decide_eq_true_eq.mp same).symm)
      simp [here, others]
    · simpa [here] using ih sorted

theorem mem_insert : b ∈ s.insert a ↔ b ∈ s ∨ b = a ∧ s.find (key a) = none := by
  rw [find_eq_none_iff]
  exact mem_insertInto s.sorted

theorem find_insert (s : KeyedSet key) (a : α) (k : κ) :
    (s.insert a).find k = if key a = k then some ((s.find k).getD a) else s.find k := by
  split_ifs with same
  · subst same
    rw [find_eq_some_iff, mem_insert]
    cases present : s.find (key a) with
    | none => exact ⟨.inr ⟨rfl, rfl⟩, rfl⟩
    | some b => exact (find_eq_some_iff.mp present).imp_left .inl
  · ext b
    simp only [find_eq_some_iff, mem_insert, or_and_right, or_iff_left_iff_imp]
    rintro ⟨⟨rfl, -⟩, found⟩
    exact absurd found same

/-- What a loop of insertions leaves was there or has been inserted. -/
theorem mem_foldl_insert {items : List α} :
    ∀ {s : KeyedSet key}, b ∈ items.foldl insert s → b ∈ s ∨ b ∈ items := by
  induction items with
  | nil => exact fun member => .inl member
  | cons a rest ih =>
    intro s member
    rcases ih member with inserted | later
    · rcases mem_insert.mp inserted with before | ⟨same, -⟩
      · exact .inl before
      · exact .inr (same ▸ List.mem_cons_self)
    · exact .inr (List.mem_cons_of_mem a later)

/-- Of the inserted elements of one key the first is kept. -/
theorem find_foldl_insert (k : κ) (items : List α) :
    ∀ s : KeyedSet key,
      (items.foldl insert s).find k = (s.find k).or (items.find? fun a => key a = k) := by
  induction items with
  | nil => exact fun s => (Option.or_none).symm
  | cons a rest ih =>
    intro s
    rw [List.foldl_cons, ih, find_insert, List.find?_cons]
    by_cases here : key a = k
    · rw [if_pos here, decide_eq_true here]
      cases s.find k <;> rfl
    · rw [if_neg here, decide_eq_false here]

/-- An element above all others goes to the end. -/
theorem toList_insert_of_above (above : ∀ b ∈ s, key b < key a) :
    (s.insert a).toList = s.toList ++ [a] := by
  have appended : ∀ items : List α, (∀ b ∈ items, key b < key a) →
      insertInto key a items = items ++ [a] := by
    intro items above
    induction items with
    | nil => rfl
    | cons head rest ih =>
      obtain ⟨less, above⟩ := List.forall_mem_cons.mp above
      rw [insertInto, if_neg less.not_gt, if_pos less, ih above, List.cons_append]
  exact appended s.toList above

/-- Inserting in ascending order copies the list. -/
theorem toList_foldl_insert (items : List α) :
    ∀ s : KeyedSet key, ((s.toList ++ items).Pairwise fun a b => key a < key b) →
      (items.foldl insert s).toList = s.toList ++ items := by
  induction items with
  | nil => exact fun s _ => (List.append_nil _).symm
  | cons a rest ih =>
    intro s ascending
    have above : ∀ b ∈ s, key b < key a := fun b member =>
      (List.pairwise_append.mp ascending).2.2 b member a (by simp)
    have appended := toList_insert_of_above above
    rw [List.foldl_cons, ih (s.insert a) (by rw [appended]; simpa using ascending), appended,
      List.append_assoc, List.singleton_append]

/-- The elements with something else at their keys. -/
def map {β : Type*} {image : β → κ} (f : α → β) (same : ∀ a, image (f a) = key a)
    (s : KeyedSet key) : KeyedSet image :=
  ⟨s.toList.map f, List.pairwise_map.mpr (by simpa only [same] using s.sorted)⟩

/-- `erase(k)`. -/
def erase (s : KeyedSet key) (k : κ) : KeyedSet key :=
  ⟨s.toList.filter fun a => key a ≠ k, s.sorted.filter _⟩

theorem mem_erase : a ∈ s.erase k ↔ a ∈ s ∧ key a ≠ k := by
  rw [mem_def, erase, List.mem_filter, decide_eq_true_eq]
  exact Iff.rfl

theorem find_erase (s : KeyedSet key) (k other : κ) :
    (s.erase k).find other = if other = k then none else s.find other := by
  split_ifs with same
  · rw [find_eq_none_iff]
    intro a member
    exact same ▸ (mem_erase.mp member).2
  · ext a
    simp only [find_eq_some_iff, mem_erase, and_assoc]
    refine and_congr_right fun _ => ⟨And.right, fun here => ⟨?_, here⟩⟩
    exact here ▸ same

/-- The assignment `s[key] = value` of a map: the new element takes the place of one with the
same key. -/
def assign (s : KeyedSet key) (a : α) : KeyedSet key := (s.erase (key a)).insert a

theorem mem_assign : b ∈ s.assign a ↔ b = a ∨ b ∈ s ∧ key b ≠ key a := by
  have erased : (s.erase (key a)).find (key a) = none := by rw [find_erase, if_pos rfl]
  rw [assign, mem_insert, mem_erase, and_iff_left erased, or_comm]

theorem find_assign (s : KeyedSet key) (a : α) (k : κ) :
    (s.assign a).find k = if key a = k then some a else s.find k := by
  rw [assign, find_insert, find_erase]
  split_ifs with same other other
  · rfl
  · exact absurd same.symm other
  · exact absurd other.symm same
  · rfl

theorem erase_of_absent (absent : s.find k = none) : s.erase k = s := by
  refine KeyedSet.ext (List.filter_eq_self.mpr fun a member => ?_)
  exact decide_eq_true (find_eq_none_iff.mp absent a member)

theorem assign_of_absent (absent : s.find (key a) = none) : s.assign a = s.insert a := by
  rw [assign, erase_of_absent absent]

end KeyedSet
