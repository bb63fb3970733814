import ChordServer.LexicalCast
import ChordServer.YamlFlow
import Mathlib

set_option autoImplicit false

/-- `operator<` of an ordered container compares the elements lexicographically. -/
@[reducible] def KeyedSet.order {α κ : Type} [LinearOrder κ] {key : α → κ}
    (elements : LinearOrder α) : LinearOrder (KeyedSet key) :=
  LinearOrder.lift' KeyedSet.toList fun _ _ => KeyedSet.ext

namespace Chord

open YAML

/-- `boost::lexical_cast` between `int` and its decimal text, which is the text of a plain
scalar. -/
structure IntText (yaml : YamlCpp) where
  lexical_cast : String → Option Int32
  lexical_cast_toString : ∀ n : Int32, lexical_cast (toString n) = some n
  emit_toString : ∀ n : Int32, yaml.emit (.Scalar (toString n)) = toString n

theorem startsNumber_toString (n : Int32) : Flow.startsNumber (toString n) = true := by
  have digits : ∀ m : Nat, Flow.startsNumber m.repr = true := by
    intro m
    rw [Flow.startsNumber, Nat.toList_repr]
    cases shape : Nat.toDigits 10 m with
    | nil => exact absurd shape Nat.toDigits_ne_nil
    | cons c rest =>
      have digit : c.isDigit = true :=
        Nat.isDigit_of_mem_toDigits (b := 10) (by decide) (by decide) (shape ▸ List.mem_cons_self)
      simp [digit]
  show Flow.startsNumber n.toInt.repr = true
  rw [Int.repr_eq_if]
  split
  · exact digits _
  · simp [Flow.startsNumber]

/-- The decimal text of an `int` is read back by the library instance with plain numbers. -/
def IntText.plain : IntText Flow.plain where
  lexical_cast text := text.toInt?.map Int32.ofInt
  lexical_cast_toString n := by
    show (n.toInt.repr.toInt?).map Int32.ofInt = some n
    rw [Int.toInt?_repr, Option.map_some, Int32.ofInt_toInt]
  emit_toString n := by
    show (if _ then _ else _) = _
    rw [if_pos (startsNumber_toString n)]

/-- The types that are built from `int`, with whether they have an `operator<` and whether
`std::hash` is there for them. -/
inductive NestedType : (ordered hashable : Bool) → Type
  | int : NestedType true true
  | vector {o h : Bool} (T : NestedType o h) : NestedType o false
  | list {o h : Bool} (T : NestedType o h) : NestedType o false
  | set {h : Bool} (T : NestedType true h) : NestedType true false
  | unordered_set {o : Bool} (T : NestedType o true) : NestedType false false
  | map {o h : Bool} (T : NestedType o h) : NestedType o false
  | unordered_map {o h : Bool} (T : NestedType o h) : NestedType false false

/-- What the casts use of a type: its values, its `operator<` if it is ordered, its
`operator==`, and its own casts. Where there is an order or a hash, `operator==` holds of
equal values only. -/
structure CppType (ordered hashable : Bool) where
  Value : Type
  order : ordered = true → LinearOrder Value
  decEq : hashable = true → DecidableEq Value
  equal : Value → Value → Prop
  equal_iff : ordered = true ∨ hashable = true → ∀ v w, equal v w ↔ v = w
  ToStr : Value → Except CastException String
  FromStr : String → Except CastException Value

namespace CppType

variable (yaml : YamlCpp) (hashing : Hashing) {o h : Bool}

/-- The primary template at `int`. -/
def int (text : IntText yaml) : CppType true true where
  Value := Int32
  order _ := LinearOrder.lift' Int32.toInt fun _ _ => Int32.toInt_inj.mp
  decEq _ := inferInstance
  equal v w := v = w
  equal_iff _ _ _ := Iff.rfl
  ToStr n := .ok (toString n)
  FromStr v := ((text.lexical_cast v).map .ok).getD (.error .bad_lexical_cast)

theorem forall₂_iff_eq {α : Type} {equal : α → α → Prop} (same : ∀ v w, equal v w ↔ v = w)
    (v w : List α) : List.Forall₂ equal v w ↔ v = w := by
  obtain rfl : equal = Eq := funext₂ fun v w => propext (same v w)
  rw [List.forall₂_eq_eq_eq]

/-- `operator==` of the pairs in a map. -/
def equalPair (T : CppType o h) (p q : String × T.Value) : Prop := p.1 = q.1 ∧ T.equal p.2 q.2

def vector (T : CppType o h) : CppType o false where
  Value := List T.Value
  order ordered :=
    have := T.order ordered
    inferInstance
  decEq := nofun
  equal := List.Forall₂ T.equal
  equal_iff ordered := forall₂_iff_eq (T.equal_iff (.inl (ordered.resolve_right nofun)))
  ToStr := LexicalCast.fromVector yaml T.ToStr
  FromStr := LexicalCast.toVector yaml T.FromStr

def list (T : CppType o h) : CppType o false where
  Value := List T.Value
  order ordered :=
    have := T.order ordered
    inferInstance
  decEq := nofun
  equal := List.Forall₂ T.equal
  equal_iff ordered := forall₂_iff_eq (T.equal_iff (.inl (ordered.resolve_right nofun)))
  ToStr := LexicalCast.fromList yaml T.ToStr
  FromStr := LexicalCast.toList yaml T.FromStr

def set (T : CppType true h) : CppType true false :=
  let _ := T.order rfl
  { Value := KeyedSet (id : T.Value → T.Value)
    order := fun _ => KeyedSet.order (T.order rfl)
    decEq := nofun
    equal := fun v w => List.Forall₂ T.equal v.toList w.toList
    equal_iff := fun _ v w =>
      (forall₂_iff_eq (T.equal_iff (.inl rfl)) v.toList w.toList).trans KeyedSet.ext_iff.symm
    ToStr := LexicalCast.fromSet yaml T.ToStr
    FromStr := LexicalCast.toSet yaml T.FromStr }

def unordered_set (T : CppType o true) : CppType false false :=
  let _ := T.decEq rfl
  { Value := HashedSet (id : T.Value → T.Value)
    order := nofun
    decEq := nofun
    equal := HashedSet.Covers T.equal
    equal_iff := nofun
    ToStr := LexicalCast.fromUnorderedSet yaml T.ToStr
    FromStr := LexicalCast.toUnorderedSet yaml T.FromStr hashing }

def map (T : CppType o h) : CppType o false where
  Value := KeyedSet (Prod.fst : String × T.Value → String)
  order ordered :=
    have := T.order ordered
    KeyedSet.order (inferInstanceAs (LinearOrder (String ×ₗ T.Value)))
  decEq := nofun
  equal v w := List.Forall₂ T.equalPair v.toList w.toList
  equal_iff ordered v w := by
    have same := T.equal_iff (.inl (ordered.resolve_right nofun))
    have pairs : ∀ p q : String × T.Value, T.equalPair p q ↔ p = q := fun p q =>
      (and_congr_right fun _ => same p.2 q.2).trans Prod.ext_iff.symm
    exact (forall₂_iff_eq pairs v.toList w.toList).trans KeyedSet.ext_iff.symm
  ToStr := LexicalCast.fromMap yaml T.ToStr
  FromStr := LexicalCast.toMap yaml T.FromStr

def unordered_map (T : CppType o h) : CppType false false where
  Value := HashedSet (Prod.fst : String × T.Value → String)
  order := nofun
  decEq := nofun
  equal := HashedSet.Covers T.equalPair
  equal_iff := nofun
  ToStr := LexicalCast.fromUnorderedMap yaml T.ToStr
  FromStr := LexicalCast.toUnorderedMap yaml T.FromStr hashing

/-- The text that is cast from a value is that of a node, and casts back to an equal value. -/
def RoundTrips (T : CppType o h) : Prop :=
  ∀ v, ∃ node w, T.ToStr v = .ok (yaml.emit node) ∧ T.FromStr (yaml.emit node) = .ok w ∧
    T.equal w v

variable {yaml} {hashing}

/-- The elements that come back from a container equal those that went into it. -/
theorem RoundTrips.elements {T : CppType o h} (trips : T.RoundTrips yaml) :
    ∃ back : T.Value → T.Value, (∀ i, T.equal (back i) i) ∧
      ∀ items : List T.Value, ∃ node, LexicalCast.toElements yaml T.ToStr items =
        .ok (yaml.emit node) ∧ ∀ (C : Type) (empty : C) (add : C → T.Value → C),
          LexicalCast.fromElements yaml empty add T.FromStr (yaml.emit node) =
            .ok ((items.map back).foldl add empty) := by
  choose node back written read same using trips
  refine ⟨back, same, fun items => ⟨_, LexicalCast.toElements_ok node fun i _ => ?_,
    fun C empty add => LexicalCast.fromElements_ok node back fun i _ => read i⟩⟩
  rw [written]
  exact LexicalCast.Load_emit (node i)

theorem RoundTrips.entries {T : CppType o h} (trips : T.RoundTrips yaml) :
    ∃ back : T.Value → T.Value, (∀ i, T.equal (back i) i) ∧
      ∀ items : List (String × T.Value), (items.map Prod.fst).Nodup →
        ∃ node, LexicalCast.toEntries yaml T.ToStr items = .ok (yaml.emit node) ∧
          ∀ (C : Type) (empty : C) (insert : C → String × T.Value → C),
            LexicalCast.fromEntries yaml empty insert T.FromStr (yaml.emit node) =
              .ok ((items.map fun i => (i.1, back i.2)).foldl insert empty) := by
  choose node back written read same using trips
  refine ⟨back, same, fun items distinct => ⟨_, LexicalCast.toEntries_ok node fun i _ => ?_,
    fun C empty insert => LexicalCast.fromEntries_ok node back distinct fun i _ => read i.2⟩⟩
  rw [written]
  exact LexicalCast.Load_emit (node i.2)

theorem foldl_append {α : Type} (items before : List α) :
    items.foldl (fun vec i => vec ++ [i]) before = before ++ items := by
  induction items generalizing before with
  | nil => exact (List.append_nil before).symm
  | cons i rest ih => rw [List.foldl_cons, ih, List.append_assoc, List.singleton_append]

theorem forall₂_map_left {α : Type} {equal : α → α → Prop} {back : α → α}
    (same : ∀ i, equal (back i) i) (items : List α) :
    List.Forall₂ equal (items.map back) items := by
  rw [List.forall₂_map_left_iff]
  exact List.forall₂_same.mpr fun i _ => same i

theorem vector_roundTrips {T : CppType o h} (trips : T.RoundTrips yaml) :
    (vector yaml T).RoundTrips yaml := by
  obtain ⟨back, same, elements⟩ := trips.elements
  intro v
  obtain ⟨node, written, read⟩ := elements v
  refine ⟨node, _, written, read _ _ _, ?_⟩
  rw [foldl_append]
  exact forall₂_map_left same v

theorem list_roundTrips {T : CppType o h} (trips : T.RoundTrips yaml) :
    (list yaml T).RoundTrips yaml := by
  obtain ⟨back, same, elements⟩ := trips.elements
  intro v
  obtain ⟨node, written, read⟩ := elements v
  refine ⟨node, _, written, read _ _ _, ?_⟩
  rw [foldl_append]
  exact forall₂_map_left same v

/-- The elements of an ordered type come back themselves, in ascending order. -/
theorem set_roundTrips {T : CppType true h} (trips : T.RoundTrips yaml) :
    (set yaml T).RoundTrips yaml := by
  obtain ⟨back, same, elements⟩ := trips.elements
  obtain rfl : back = id := funext fun i => (T.equal_iff (.inl rfl) _ _).mp (same i)
  intro v
  let _ := T.order rfl
  obtain ⟨node, written, read⟩ := elements v.toList
  refine ⟨node, _, written, read _ _ _, ?_⟩
  have copied := KeyedSet.toList_foldl_insert v.toList (∅ : KeyedSet (id : T.Value → T.Value))
    v.sorted
  rw [List.map_id]
  show List.Forall₂ T.equal (v.toList.foldl KeyedSet.insert ∅).toList v.toList
  rw [copied]
  exact List.forall₂_same.mpr fun i _ => same i

theorem unordered_set_roundTrips {T : CppType o true} (trips : T.RoundTrips yaml) :
    (unordered_set yaml hashing T).RoundTrips yaml := by
  obtain ⟨back, same, elements⟩ := trips.elements
  obtain rfl : back = id := funext fun i => (T.equal_iff (.inr rfl) _ _).mp (same i)
  intro v
  let _ := T.decEq rfl
  obtain ⟨node, written, read⟩ := elements v.toList
  refine ⟨node, _, written, read _ _ _, ?_⟩
  have kept := HashedSet.foldl_insert_perm hashing v.toList
    (HashedSet.empty : HashedSet (id : T.Value → T.Value)) v.distinct
  rw [List.map_id]
  exact ⟨kept.length_eq, fun a member => ⟨a, kept.mem_iff.mp member, same a⟩⟩

theorem keys_map {α : Type} (back : α → α) (items : List (String × α)) :
    (items.map fun i => (i.1, back i.2)).map Prod.fst = items.map Prod.fst := by
  rw [List.map_map]
  rfl

/-- The keys come back in ascending order, with values equal to theirs. -/
theorem map_roundTrips {T : CppType o h} (trips : T.RoundTrips yaml) :
    (map yaml T).RoundTrips yaml := by
  obtain ⟨back, same, entries⟩ := trips.entries
  intro v
  have ascending : (v.toList.map Prod.fst).Pairwise (· < ·) := List.pairwise_map.mpr v.sorted
  obtain ⟨node, written, read⟩ := entries v.toList (ascending.imp fun less => less.ne)
  refine ⟨node, _, written, read _ _ _, ?_⟩
  have copied := KeyedSet.toList_foldl_insert (v.toList.map fun i => (i.1, back i.2))
    (∅ : KeyedSet (Prod.fst : String × T.Value → String))
    (List.pairwise_map.mp ((keys_map back v.toList).symm ▸ ascending))
  show List.Forall₂ T.equalPair (KeyedSet.toList _) v.toList
  rw [copied]
  exact (List.forall₂_map_left_iff).mpr (List.forall₂_same.mpr fun i _ => ⟨rfl, same i.2⟩)

theorem unordered_map_roundTrips {T : CppType o h} (trips : T.RoundTrips yaml) :
    (unordered_map yaml hashing T).RoundTrips yaml := by
  obtain ⟨back, same, entries⟩ := trips.entries
  intro v
  obtain ⟨node, written, read⟩ := entries v.toList v.distinct
  refine ⟨node, _, written, read _ _ _, ?_⟩
  have kept := HashedSet.foldl_insert_perm hashing (v.toList.map fun i => (i.1, back i.2))
    (HashedSet.empty : HashedSet (Prod.fst : String × T.Value → String))
    ((keys_map back v.toList).symm ▸ v.distinct)
  refine ⟨kept.length_eq.trans (List.length_map _), fun p member => ?_⟩
  obtain ⟨i, inside, rfl⟩ := List.mem_map.mp (kept.mem_iff.mp member)
  exact ⟨i, inside, rfl, same i.2⟩

end CppType

/-- The casts that the templates have for a type. -/
def NestedType.cpp (yaml : YamlCpp) (text : IntText yaml) (hashing : Hashing) :
    {o h : Bool} → NestedType o h → CppType o h
  | _, _, .int => .int yaml text
  | _, _, .vector T => .vector yaml (T.cpp yaml text hashing)
  | _, _, .list T => .list yaml (T.cpp yaml text hashing)
  | _, _, .set T => .set yaml (T.cpp yaml text hashing)
  | _, _, .unordered_set T => .unordered_set yaml hashing (T.cpp yaml text hashing)
  | _, _, .map T => .map yaml (T.cpp yaml text hashing)
  | _, _, .unordered_map T => .unordered_map yaml hashing (T.cpp yaml text hashing)

namespace NestedType

variable {yaml : YamlCpp} {text : IntText yaml} {hashing : Hashing} {o h : Bool}

theorem int_roundTrips : (CppType.int yaml text).RoundTrips yaml := by
  intro (n : Int32)
  refine ⟨.Scalar (toString n), n, ?_, ?_, rfl⟩
  · rw [text.emit_toString]
    rfl
  · rw [text.emit_toString]
    simp only [CppType.int, text.lexical_cast_toString]
    rfl

/-- The casts of a type are as good as those of the types it is built from. -/
theorem cpp_roundTrips (T : NestedType o h) : (T.cpp yaml text hashing).RoundTrips yaml := by
  induction T with
  | int => exact int_roundTrips
  | vector T trips => exact CppType.vector_roundTrips trips
  | list T trips => exact CppType.list_roundTrips trips
  | set T trips => exact CppType.set_roundTrips trips
  | unordered_set T trips => exact CppType.unordered_set_roundTrips trips
  | map T trips => exact CppType.map_roundTrips trips
  | unordered_map T trips => exact CppType.unordered_map_roundTrips trips

/-- A value of any type that is built from `int` is cast to a text, and this text is cast
back to a value that `operator==` finds equal. -/
theorem fromStr_toStr (yaml : YamlCpp) (text : IntText yaml) (hashing : Hashing)
    (T : NestedType o h) (v : (T.cpp yaml text hashing).Value) :
    ∃ written w, (T.cpp yaml text hashing).ToStr v = .ok written ∧
      (T.cpp yaml text hashing).FromStr written = .ok w ∧
      (T.cpp yaml text hashing).equal w v := by
  obtain ⟨node, w, written, read, same⟩ := cpp_roundTrips T v
  exact ⟨yaml.emit node, w, written, read, same⟩

/-- A map of sets, one of which is empty. -/
theorem fromStr_toStr_map_of_sets :
    let T := NestedType.cpp Flow.plain .plain ⟨id, .refl⟩ (.map (.unordered_set .int))
    let even : HashedSet (id : Int32 → Int32) := ⟨[4, 2], by decide⟩
    let odd : HashedSet (id : Int32 → Int32) := ⟨[-7], by decide⟩
    let v : T.Value := ⟨[("even", even), ("none", HashedSet.empty), ("odd", odd)], by decide⟩
    ∃ written w, T.ToStr v = .ok written ∧ T.FromStr written = .ok w ∧ T.equal w v :=
  fromStr_toStr Flow.plain .plain ⟨id, .refl⟩ (.map (.unordered_set .int)) _

end NestedType

end Chord
