import ChordServer.LexicalCastTypes

set_option autoImplicit false

namespace Chord

open YAML

namespace CppType

/-- The primary template at `std::string`: `boost::lexical_cast` is the identity. -/
def string : CppType true true where
  Value := String
  order _ := inferInstance
  decEq _ := inferInstance
  equal v w := v = w
  equal_iff _ _ _ := Iff.rfl
  ToStr v := .ok v
  FromStr v := .ok v

/-- The value is cast to a text, and this text is cast back to the value. -/
def Returns {o h : Bool} (T : CppType o h) (v : T.Value) : Prop :=
  ∃ written, T.ToStr v = .ok written ∧ T.FromStr written = .ok v

end CppType

namespace LexicalCast

variable (yaml : YamlCpp)

/-- The string is the text that the emitter gives for the document that it reads as. -/
def Reprinted (s : String) : Prop := ∃ node, yaml.Load s = .ok node ∧ yaml.emit node = s

/-- The node that a string becomes in a container. -/
def loaded (s : String) : Node := (yaml.Load s).toOption.getD .Null

/-- What comes back of a string in a container. -/
def reprint (s : String) : String := yaml.emit (loaded yaml s)

variable {yaml}

theorem Load_ok_iff {s : String} {node : Node} :
    Load yaml s = .ok node ↔ yaml.Load s = .ok node := by
  unfold Load
  cases yaml.Load s with
  | error thrown => exact ⟨nofun, nofun⟩
  | ok other => exact ⟨congrArg Except.ok ∘ Except.ok.inj, congrArg Except.ok ∘ Except.ok.inj⟩

theorem reprinted_iff {s : String} :
    Reprinted yaml s ↔ (∃ node, yaml.Load s = .ok node) ∧ reprint yaml s = s := by
  constructor
  · rintro ⟨node, load, printed⟩
    refine ⟨⟨node, load⟩, ?_⟩
    rw [reprint, loaded, load]
    exact printed
  · rintro ⟨⟨node, load⟩, printed⟩
    refine ⟨node, load, ?_⟩
    rw [reprint, loaded, load] at printed
    exact printed

/-- What has come back once comes back again. -/
theorem reprint_reprint (s : String) : reprint yaml (reprint yaml s) = reprint yaml s := by
  have again : loaded yaml (reprint yaml s) = loaded yaml s := by
    rw [reprint, loaded, yaml.Load_emit]
    rfl
  rw [reprint, again]
  rfl

theorem load_reprints {s : String} (loads : ∃ node, yaml.Load s = .ok node) :
    (Except.ok s : Except CastException String).bind (Load yaml) =
      .ok (loaded yaml s) := by
  obtain ⟨node, load⟩ := loads
  rw [loaded, load]
  exact Load_ok_iff.mpr load

theorem loads_of_round {α : Type} {s : String} {add : Node → α} {after : α}
    (passed : (do return add (← Load yaml (← Except.ok s)) : Except CastException α) =
      .ok after) : ∃ node, yaml.Load s = .ok node := by
  obtain ⟨text, same, passed⟩ := Fallible.bind_ok.mp passed
  obtain rfl := Except.ok.inj same
  obtain ⟨node, loaded, -⟩ := Fallible.bind_ok.mp passed
  exact ⟨node, Load_ok_iff.mp loaded⟩

theorem loads_of_toElements {items : List String} {written : String}
    (wrote : toElements yaml Except.ok items = .ok written) :
    ∀ s ∈ items, ∃ node, yaml.Load s = .ok node := by
  obtain ⟨sequence, ran, -⟩ := Fallible.bind_ok.mp wrote
  intro s member
  obtain ⟨before, after, passed⟩ := Fallible.foldlM_passes ran s member
  exact loads_of_round passed

theorem loads_of_toEntries {items : List (String × String)} {written : String}
    (wrote : toEntries yaml Except.ok items = .ok written) :
    ∀ i ∈ items, ∃ node, yaml.Load i.2 = .ok node := by
  obtain ⟨map, ran, -⟩ := Fallible.bind_ok.mp wrote
  intro i member
  obtain ⟨before, after, passed⟩ := Fallible.foldlM_passes ran i member
  exact loads_of_round passed

/-- A container of strings comes back if every string loads, with every string reprinted. -/
theorem elements_returns_iff {C : Type} (empty : C) (add : C → String → C) (items : List String)
    (v : C) :
    (∃ written, toElements yaml Except.ok items = .ok written ∧
      fromElements yaml empty add Except.ok written = .ok v) ↔
      (∀ s ∈ items, ∃ node, yaml.Load s = .ok node) ∧
        (items.map (reprint yaml)).foldl add empty = v := by
  have given : (∀ s ∈ items, ∃ node, yaml.Load s = .ok node) →
      ∃ written, toElements yaml Except.ok items = .ok written ∧
        fromElements yaml empty add Except.ok written =
          .ok ((items.map (reprint yaml)).foldl add empty) := fun loads =>
    ⟨_, toElements_ok (loaded yaml) fun s member => load_reprints (loads s member),
      fromElements_ok (loaded yaml) (reprint yaml) fun s _ => rfl⟩
  constructor
  · rintro ⟨written, wrote, read⟩
    have loads := loads_of_toElements wrote
    obtain ⟨other, same, back⟩ := given loads
    obtain rfl := Except.ok.inj (wrote.symm.trans same)
    exact ⟨loads, Except.ok.inj (back.symm.trans read)⟩
  · rintro ⟨loads, rfl⟩
    exact given loads

theorem entries_returns_iff {C : Type} (empty : C) (insert : C → String × String → C)
    {items : List (String × String)} (distinct : (items.map Prod.fst).Nodup) (v : C) :
    (∃ written, toEntries yaml Except.ok items = .ok written ∧
      fromEntries yaml empty insert Except.ok written = .ok v) ↔
      (∀ i ∈ items, ∃ node, yaml.Load i.2 = .ok node) ∧
        (items.map fun i => (i.1, reprint yaml i.2)).foldl insert empty = v := by
  have given : (∀ i ∈ items, ∃ node, yaml.Load i.2 = .ok node) →
      ∃ written, toEntries yaml Except.ok items = .ok written ∧
        fromEntries yaml empty insert Except.ok written =
          .ok ((items.map fun i => (i.1, reprint yaml i.2)).foldl insert empty) := fun loads =>
    ⟨_, toEntries_ok (loaded yaml) fun i member => load_reprints (loads i member),
      fromEntries_ok (loaded yaml) (reprint yaml) distinct fun i _ => rfl⟩
  constructor
  · rintro ⟨written, wrote, read⟩
    have loads := loads_of_toEntries wrote
    obtain ⟨other, same, back⟩ := given loads
    obtain rfl := Except.ok.inj (wrote.symm.trans same)
    exact ⟨loads, Except.ok.inj (back.symm.trans read)⟩
  · rintro ⟨loads, rfl⟩
    exact given loads

theorem forall_reprinted_iff {items : List String} :
    (∀ s ∈ items, Reprinted yaml s) ↔
      (∀ s ∈ items, ∃ node, yaml.Load s = .ok node) ∧ items.map (reprint yaml) = items := by
  simp only [reprinted_iff, forall_and, and_congr_right_iff]
  intro _
  have mapped : items.map (reprint yaml) = items.map id ↔ ∀ s ∈ items, reprint yaml s = s :=
    List.map_inj_left
  rw [List.map_id] at mapped
  exact mapped.symm

theorem vector_returns_iff (v : List String) :
    (CppType.vector yaml .string).Returns v ↔ ∀ s ∈ v, Reprinted yaml s := by
  rw [forall_reprinted_iff]
  refine (elements_returns_iff [] (fun vec i => vec ++ [i]) v v).trans ?_
  rw [CppType.foldl_append, List.nil_append]

theorem list_returns_iff (v : List String) :
    (CppType.list yaml .string).Returns v ↔ ∀ s ∈ v, Reprinted yaml s := by
  rw [forall_reprinted_iff]
  refine (elements_returns_iff [] (fun l i => l ++ [i]) v v).trans ?_
  rw [CppType.foldl_append, List.nil_append]

/-- In a set another string might come back in a string's place, but it would come back
itself. -/
theorem set_returns_iff (v : KeyedSet (id : String → String)) :
    (CppType.set yaml .string).Returns v ↔ ∀ s ∈ v.toList, Reprinted yaml s := by
  rw [forall_reprinted_iff]
  have returned : (CppType.set yaml .string).Returns v ↔
      (∀ s ∈ v.toList, ∃ node, yaml.Load s = .ok node) ∧
        (v.toList.map (reprint yaml)).foldl KeyedSet.insert
          (∅ : KeyedSet (id : String → String)) = v := elements_returns_iff _ _ _ v
  refine returned.trans (and_congr_right fun _ => ⟨fun same => ?_, fun same => ?_⟩)
  · have back : ∀ s ∈ v.toList, reprint yaml s = s := by
      intro s member
      have inserted : s ∈ (v.toList.map (reprint yaml)).foldl KeyedSet.insert
          (∅ : KeyedSet (id : String → String)) := by
        rw [same]
        exact member
      rcases KeyedSet.mem_foldl_insert inserted with none | come
      · exact absurd none (KeyedSet.not_mem_empty s)
      · obtain ⟨other, -, rfl⟩ := List.mem_map.mp come
        exact reprint_reprint other
    exact (List.map_congr_left back).trans (List.map_id _)
  · rw [same]
    exact KeyedSet.ext
      (KeyedSet.toList_foldl_insert v.toList (∅ : KeyedSet (id : String → String)) v.sorted)

theorem map_returns_iff (v : KeyedSet (Prod.fst : String × String → String)) :
    (CppType.map yaml .string).Returns v ↔ ∀ i ∈ v.toList, Reprinted yaml i.2 := by
  have ascending : (v.toList.map Prod.fst).Pairwise (· < ·) := List.pairwise_map.mpr v.sorted
  have copied := KeyedSet.toList_foldl_insert (v.toList.map fun i => (i.1, reprint yaml i.2))
    (∅ : KeyedSet (Prod.fst : String × String → String))
    (List.pairwise_map.mp ((CppType.keys_map (reprint yaml) v.toList).symm ▸ ascending))
  have kept : (v.toList.map fun i => (i.1, reprint yaml i.2)) = v.toList.map id ↔
      ∀ i ∈ v.toList, reprint yaml i.2 = i.2 :=
    List.map_inj_left.trans
      (forall₂_congr fun i _ => ⟨congrArg Prod.snd, fun same => Prod.ext rfl same⟩)
  rw [List.map_id] at kept
  have returned : (CppType.map yaml .string).Returns v ↔
      (∀ i ∈ v.toList, ∃ node, yaml.Load i.2 = .ok node) ∧
        (v.toList.map fun i => (i.1, reprint yaml i.2)).foldl KeyedSet.insert
          (∅ : KeyedSet (Prod.fst : String × String → String)) = v :=
    entries_returns_iff _ _ (ascending.imp fun less => less.ne) v
  rw [returned, KeyedSet.ext_iff, copied]
  simp only [reprinted_iff, forall_and, and_congr_right_iff]
  exact fun _ => kept

/-- Strings come back from a container exactly if each is the text that the emitter gives
for the document that it reads as. -/
theorem strings_return_iff (yaml : YamlCpp) :
    (∀ v : List String, (CppType.vector yaml .string).Returns v ↔ ∀ s ∈ v, Reprinted yaml s) ∧
    (∀ v : List String, (CppType.list yaml .string).Returns v ↔ ∀ s ∈ v, Reprinted yaml s) ∧
    (∀ v : KeyedSet (id : String → String),
      (CppType.set yaml .string).Returns v ↔ ∀ s ∈ v.toList, Reprinted yaml s) ∧
    ∀ v : KeyedSet (Prod.fst : String × String → String),
      (CppType.map yaml .string).Returns v ↔ ∀ i ∈ v.toList, Reprinted yaml i.2 :=
  ⟨vector_returns_iff, list_returns_iff, set_returns_iff, map_returns_iff⟩

/-- The empty string reads as a null node, and comes back as what this is written as. -/
theorem empty_string_returns_as_tilde :
    Flow.plain.Load "" = .ok .Null ∧ Flow.plain.emit .Null = "~" ∧
      (∃ written, (CppType.vector Flow.plain .string).ToStr [""] = .ok written ∧
        (CppType.vector Flow.plain .string).FromStr written = .ok ["~"]) ∧
      ¬ (CppType.vector Flow.plain .string).Returns [""] := by
  have load : Flow.plain.Load "" = .ok .Null := rfl
  have emit : Flow.plain.emit .Null = "~" := rfl
  refine ⟨load, emit, ⟨"[~,]", rfl, rfl⟩, fun returns => ?_⟩
  obtain ⟨node, loaded, printed⟩ := (vector_returns_iff [""]).mp returns "" List.mem_cons_self
  obtain rfl := Except.ok.inj (load.symm.trans loaded)
  rw [emit] at printed
  exact absurd printed (by decide)

end LexicalCast

end Chord
