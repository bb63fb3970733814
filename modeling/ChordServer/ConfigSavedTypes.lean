import ChordServer.ConfigSaved
import ChordServer.LexicalCastTypes

set_option autoImplicit false

namespace Chord

open YAML

deriving instance DecidableEq for NestedType

namespace LexicalCast

variable {yaml : YamlCpp} {T : Type} {ToStr : T → Except CastException String} {written : String}

/-- The node is not a scalar, so that the loader prints it. -/
def Container : Node → Prop
  | .Scalar _ => False
  | _ => True

theorem nodeText_container {node : Node} (container : Container node) :
    nodeText yaml node = yaml.emit node := by
  cases node with
  | Scalar text => exact container.elim
  | Null => rfl
  | Sequence items => rfl
  | Map entries => rfl

theorem toElements_container {items : List T} (wrote : toElements yaml ToStr items = .ok written) :
    ∃ node, written = yaml.emit node ∧ Container node := by
  obtain ⟨sequence, ran, printed⟩ := Fallible.bind_ok.mp wrote
  refine ⟨sequence, (Except.ok.inj printed).symm, ?_⟩
  apply Fallible.foldlM_invariant (fun i _ node next _ round => ?_) trivial ran
  obtain ⟨text, -, rest⟩ := Fallible.bind_ok.mp round
  obtain ⟨loaded, -, pushed⟩ := Fallible.bind_ok.mp rest
  obtain rfl := Except.ok.inj pushed
  cases node <;> trivial

theorem toEntries_container {items : List (String × T)}
    (wrote : toEntries yaml ToStr items = .ok written) :
    ∃ node, written = yaml.emit node ∧ Container node := by
  obtain ⟨map, ran, printed⟩ := Fallible.bind_ok.mp wrote
  refine ⟨map, (Except.ok.inj printed).symm, ?_⟩
  apply Fallible.foldlM_invariant (fun i _ node next _ round => ?_) trivial ran
  obtain ⟨text, -, rest⟩ := Fallible.bind_ok.mp round
  obtain ⟨loaded, -, set⟩ := Fallible.bind_ok.mp rest
  obtain rfl := Except.ok.inj set
  cases node <;> trivial

end LexicalCast

namespace CppType

variable {yaml : YamlCpp} {hashing : Hashing} {o h : Bool}

/-- `operator==` is symmetric and transitive. -/
structure Equivalence (T : CppType o h) : Prop where
  symm : ∀ v w, T.equal v w → T.equal w v
  trans : ∀ u v w, T.equal u v → T.equal v w → T.equal u w

theorem forall₂_symm {α : Type} {equal : α → α → Prop} (symm : ∀ v w, equal v w → equal w v)
    {v w : List α} (same : List.Forall₂ equal v w) : List.Forall₂ equal w v := by
  induction same with
  | nil => exact .nil
  | cons here _ ih => exact .cons (symm _ _ here) ih

theorem forall₂_trans {α : Type} {equal : α → α → Prop}
    (trans : ∀ u v w, equal u v → equal v w → equal u w) {u v w : List α}
    (first : List.Forall₂ equal u v) (second : List.Forall₂ equal v w) :
    List.Forall₂ equal u w := by
  induction first generalizing w with
  | nil => exact second
  | cons here _ ih =>
    cases second with
    | cons there later => exact .cons (trans _ _ _ here there) (ih later)

namespace Equivalence

variable {T : CppType o h}

theorem pair (lawful : T.Equivalence) :
    (∀ p q, T.equalPair p q → T.equalPair q p) ∧
      ∀ p q r, T.equalPair p q → T.equalPair q r → T.equalPair p r :=
  ⟨fun _ _ same => ⟨same.1.symm, lawful.symm _ _ same.2⟩,
    fun _ _ _ first second =>
      ⟨first.1.trans second.1, lawful.trans _ _ _ first.2 second.2⟩⟩

/-- The equality of values is one. -/
theorem of_ordered (plain : o = true ∨ h = true) : T.Equivalence := by
  have same := T.equal_iff plain
  constructor
  · intro v w equal
    exact (same w v).mpr ((same v w).mp equal).symm
  · intro u v w first second
    exact (same u w).mpr (((same u v).mp first).trans ((same v w).mp second))

theorem vector (lawful : T.Equivalence) : (CppType.vector yaml T).Equivalence :=
  ⟨fun _ _ => forall₂_symm lawful.symm, fun _ _ _ => forall₂_trans lawful.trans⟩

theorem list (lawful : T.Equivalence) : (CppType.list yaml T).Equivalence :=
  ⟨fun _ _ => forall₂_symm lawful.symm, fun _ _ _ => forall₂_trans lawful.trans⟩

theorem unordered_set {T : CppType o true} : (CppType.unordered_set yaml hashing T).Equivalence :=
  have lawful : T.Equivalence := of_ordered (.inr rfl)
  ⟨fun _ _ => HashedSet.Covers.symm (T.equal_iff (.inr rfl) · · |>.mp) lawful.symm,
    fun _ _ _ => HashedSet.Covers.trans lawful.trans⟩

theorem map (lawful : T.Equivalence) : (CppType.map yaml T).Equivalence :=
  ⟨fun _ _ => forall₂_symm lawful.pair.1, fun _ _ _ => forall₂_trans lawful.pair.2⟩

theorem unordered_map (lawful : T.Equivalence) :
    (CppType.unordered_map yaml hashing T).Equivalence :=
  ⟨fun _ _ => HashedSet.Covers.symm (fun _ _ => And.left) lawful.pair.1,
    fun _ _ _ => HashedSet.Covers.trans lawful.pair.2⟩

end Equivalence

instance (T : CppType o h) [DecidableRel T.equal] : DecidableRel T.equalPair :=
  fun p q => inferInstanceAs (Decidable (p.1 = q.1 ∧ T.equal p.2 q.2))

/-- The text that is cast from a value is that of a node of which the loader reads a text that
casts back to an equal value. -/
def Reloads (yaml : YamlCpp) (T : CppType o h) : Prop :=
  ∀ v, ∃ node w, T.ToStr v = .ok (yaml.emit node) ∧ T.FromStr (nodeText yaml node) = .ok w ∧
    T.equal w v

theorem RoundTrips.reloads {T : CppType o h} (trips : T.RoundTrips yaml)
    (container : ∀ v written, T.ToStr v = .ok written →
      ∃ node, written = yaml.emit node ∧ LexicalCast.Container node) : T.Reloads yaml := by
  intro v
  obtain ⟨node, w, written, read, same⟩ := trips v
  obtain ⟨other, text, shape⟩ := container v _ written
  refine ⟨other, w, by rw [written, text], ?_, same⟩
  rw [LexicalCast.nodeText_container shape, ← text]
  exact read

end CppType

namespace NestedType

variable {yaml : YamlCpp} {text : IntText yaml} {hashing : Hashing} {o h : Bool}

theorem cpp_equivalence (T : NestedType o h) : (T.cpp yaml text hashing).Equivalence := by
  induction T with
  | int => exact .of_ordered (.inl rfl)
  | vector T lawful => exact lawful.vector
  | list T lawful => exact lawful.list
  | set T lawful => exact .of_ordered (.inl rfl)
  | unordered_set T lawful => exact .unordered_set
  | map T lawful => exact lawful.map
  | unordered_map T lawful => exact lawful.unordered_map

theorem cpp_reloads (T : NestedType o h) : (T.cpp yaml text hashing).Reloads yaml := by
  have trips := @cpp_roundTrips yaml text hashing o h T
  cases T with
  | int =>
    intro (n : Int32)
    refine ⟨.Scalar (toString n), n, ?_, ?_, rfl⟩
    · rw [text.emit_toString]
      rfl
    · show ((text.lexical_cast (toString n)).map Except.ok).getD _ = _
      rw [text.lexical_cast_toString]
      rfl
  | vector T => exact trips.reloads fun v written => LexicalCast.toElements_container
  | list T => exact trips.reloads fun v written => LexicalCast.toElements_container
  | set T => exact trips.reloads fun v written => LexicalCast.toElements_container
  | unordered_set T => exact trips.reloads fun v written => LexicalCast.toElements_container
  | map T => exact trips.reloads fun v written => LexicalCast.toEntries_container
  | unordered_map T => exact trips.reloads fun v written => LexicalCast.toEntries_container

/-- `operator==` can be evaluated. -/
@[reducible] def decEqual (yaml : YamlCpp) (text : IntText yaml) (hashing : Hashing) :
    {o h : Bool} → (T : NestedType o h) → DecidableRel (T.cpp yaml text hashing).equal
  | _, _, .int => fun (v w : Int32) => inferInstanceAs (Decidable (v = w))
  | _, _, .vector T | _, _, .list T =>
      have := decEqual yaml text hashing T
      fun (v w : List (T.cpp yaml text hashing).Value) =>
        inferInstanceAs (Decidable (List.Forall₂ (T.cpp yaml text hashing).equal v w))
  | _, _, .set T =>
      have := decEqual yaml text hashing T
      fun _ _ => inferInstanceAs (Decidable (List.Forall₂ _ _ _))
  | _, _, .unordered_set T =>
      have := decEqual yaml text hashing T
      fun _ _ => inferInstanceAs (Decidable (_ ∧ _))
  | _, _, .map T =>
      have := decEqual yaml text hashing T
      fun _ _ => inferInstanceAs (Decidable (List.Forall₂ _ _ _))
  | _, _, .unordered_map T =>
      have := decEqual yaml text hashing T
      fun _ _ => inferInstanceAs (Decidable (_ ∧ _))

instance (T : NestedType o h) : DecidableRel (T.cpp yaml text hashing).equal :=
  T.decEqual yaml text hashing

end NestedType

/-- The types that are built from `int`, as the types of variables. `what` is the text of what a
cast throws. -/
def nestedTypes (yaml : YamlCpp) (text : IntText yaml) (hashing : Hashing)
    (what : CastException → String)
    (typeid : (o : Bool) × (h : Bool) × NestedType o h → String) : VarTypes where
  Tag := (o : Bool) × (h : Bool) × NestedType o h
  Value tag := (tag.2.2.cpp yaml text hashing).Value
  eq tag := ⟨fun v w => decide ((tag.2.2.cpp yaml text hashing).equal v w)⟩
  FromStr tag val := ((tag.2.2.cpp yaml text hashing).FromStr val).mapError what
  ToStr tag v := ((tag.2.2.cpp yaml text hashing).ToStr v).mapError what
  typeid := typeid

section

variable (yaml : YamlCpp) (text : IntText yaml) (hashing : Hashing)
  (what : CastException → String) (typeid : (o : Bool) × (h : Bool) × NestedType o h → String)

theorem nestedTypes_equal {tag : (nestedTypes yaml text hashing what typeid).Tag}
    {v w : (nestedTypes yaml text hashing what typeid).Value tag} :
    (v == w) = true ↔ (tag.2.2.cpp yaml text hashing).equal v w :=
  @decide_eq_true_iff _ (tag.2.2.decEqual yaml text hashing v w)

theorem nestedTypes_lasting : (nestedTypes yaml text hashing what typeid).Lasting yaml := by
  constructor
  · intro tag v
    obtain ⟨node, w, written, read, same⟩ := tag.2.2.cpp_reloads v
    refine ⟨node, w, ?_, ?_, (nestedTypes_equal yaml text hashing what typeid).mpr same⟩
    · show ((tag.2.2.cpp yaml text hashing).ToStr v).mapError what = _
      rw [written]
      rfl
    · show ((tag.2.2.cpp yaml text hashing).FromStr _).mapError what = _
      rw [read]
      rfl
  · intro tag v w same
    rw [nestedTypes_equal] at same ⊢
    exact tag.2.2.cpp_equivalence.symm v w same
  · intro tag u v w first second
    rw [nestedTypes_equal] at first second ⊢
    exact tag.2.2.cpp_equivalence.trans u v w first second

end

/-- There is an order with every name after those that enclose it: that of the lengths. -/
theorem exists_enclosing_first {entries : List (String × String)}
    (distinct : (entries.map Prod.fst).Nodup) :
    ∃ sorted : List (String × String), sorted.Perm entries ∧ EnclosingFirst sorted := by
  let shorter : String × String → String × String → Bool :=
    fun first second => decide (first.1.length ≤ second.1.length)
  have sorted : (entries.mergeSort shorter).Pairwise (shorter · ·) := by
    apply List.pairwise_mergeSort
    · intro a b c first second
      simp only [shorter, decide_eq_true_eq] at first second ⊢
      omega
    · intro a b
      simp only [shorter, Bool.or_eq_true, decide_eq_true_eq]
      omega
  have perm := List.mergeSort_perm entries shorter
  have apart := List.pairwise_map.mp ((perm.map Prod.fst).nodup_iff.mpr distinct)
  refine ⟨_, perm, (sorted.and apart).imp ?_⟩
  rintro first second ⟨ordered, differ⟩ encloses
  have lengths : first.1.length ≤ second.1.length := of_decide_eq_true ordered
  rcases encloses with empty | ⟨rest, same⟩
  · rw [empty] at lengths
    apply differ
    rw [empty]
    exact String.length_eq_zero_iff.mp (Nat.le_zero.mp lengths)
  · have longer := congrArg String.length same
    simp only [String.length_append] at longer
    have dot : ".".length = 1 := rfl
    omega

namespace TypedConfig

/-- What a callback of `Visit` finds out about the variables is enough to restore them. In every
state of every run it gets the name and the text of each. Put into one document with enclosing
names first, which some order always is, these give every variable with a name its value back,
whatever has been done to the registry in the meantime. -/
theorem LoadFromYaml_restores {yaml : YamlCpp} (text : IntText yaml) (hashing : Hashing)
    (what : CastException → String)
    (typeid : (o : Bool) × (h : Bool) × NestedType o h → String) {φ σ : Type}
    (world : σ × List (String × String))
    {actions meantime : List (Action (nestedTypes yaml text hashing what typeid) φ
      (σ × List (String × String)))}
    {s s' : TypedConfig (nestedTypes yaml text hashing what typeid) φ
      (σ × List (String × String))}
    (ran : Transition.run (step hashing yaml) { world := world } actions = some s)
    (continued : Transition.run (step hashing yaml) s meantime = some s')
    (quiet : s'.config.Quiet) :
    ∃ visited recorded, s.Visit recorder = .ok visited ∧ visited.GetDatas = s.GetDatas ∧
      visited.world = (s.world.1, s.world.2 ++ recorded) ∧
      (∃ sorted : List (String × String), sorted.Perm recorded ∧ EnclosingFirst sorted) ∧
      ∀ entries : List (String × String), entries.Perm recorded → EnclosingFirst entries →
        ∃ root final, savedDocument yaml entries = .ok root ∧
          s'.LoadFromYaml yaml root = .ok final ∧
          ∀ name v, name ≠ "" → s.find name = some v →
            ∃ later, final.find name = some later ∧ later.EqualTo v := by
  have lasting := nestedTypes_lasting yaml text hashing what typeid
  have sound : s.Sound := by
    have initial : ({ world := world } : TypedConfig (nestedTypes yaml text hashing what typeid) φ
        (σ × List (String × String))).Sound :=
      ⟨fun _ _ => nofun, fun _ _ => nofun, fun _ _ _ _ => nofun⟩
    refine Transition.run_invariant (fun state action next held stepped => ?_) initial ran
    obtain ⟨_, -, performed⟩ := step_performed stepped
    exact performed.sound held
  have typed : ∀ name v, s.find name = some v →
      ∃ target, s'.find name = some target ∧ target.tag = v.tag := by
    intro name v found
    obtain ⟨target, there, object⟩ := run_extends continued name v found
    exact ⟨target, there, object.tag⟩
  obtain ⟨visited, looped, kept, recorded⟩ := s.Visit_records
  refine ⟨visited, s.shown, looped, kept, recorded, ?_, fun entries saved order => ?_⟩
  · apply exists_enclosing_first
    rw [sound.shown_names]
    exact s.GetDatas.distinct
  · exact restores lasting sound typed quiet saved order

/-- The types of the example. -/
abbrev plainTypes : VarTypes :=
  nestedTypes Flow.plain .plain ⟨id, .refl⟩ (fun _ => "") fun _ => ""

/-- A port, lists under a name that encloses that of the port, and another value of the port. -/
def portActions : List (Action plainTypes Empty (Unit × List (String × String))) :=
  [.Lookup ⟨true, true, .int⟩ "server.port" (8020 : Int32) "port",
    .Lookup ⟨true, false, .vector (.list .int)⟩ "server" ([[1, 2], []] : List (List Int32)) "lists",
    .use "server.port" (fun tag var =>
      match tag, var with
      | ⟨_, _, .int⟩, var => { var with m_val := (80 : Int32) }
      | _, var => var) id]

/-- The registry with the two variables. -/
def twoPorts : TypedConfig plainTypes Empty (Unit × List (String × String)) :=
  (Transition.run (step ⟨id, .refl⟩ Flow.plain) { world := ((), []) } (portActions.take 2)).get
    (by decide +kernel)

/-- The registry with the other port. -/
def changedPorts : TypedConfig plainTypes Empty (Unit × List (String × String)) :=
  (Transition.run (step ⟨id, .refl⟩ Flow.plain) twoPorts (portActions.drop 2)).get
    (by decide +kernel)

theorem LoadFromYaml_restores_ports :
    ∃ visited recorded, twoPorts.Visit recorder = .ok visited ∧
      visited.GetDatas = twoPorts.GetDatas ∧
      visited.world = (twoPorts.world.1, twoPorts.world.2 ++ recorded) ∧
      (∃ sorted : List (String × String), sorted.Perm recorded ∧ EnclosingFirst sorted) ∧
      ∀ entries : List (String × String), entries.Perm recorded → EnclosingFirst entries →
        ∃ root final, savedDocument Flow.plain entries = .ok root ∧
          changedPorts.LoadFromYaml Flow.plain root = .ok final ∧
          ∀ name v, name ≠ "" → twoPorts.find name = some v →
            ∃ later, final.find name = some later ∧ later.EqualTo v := by
  refine LoadFromYaml_restores .plain ⟨id, .refl⟩ (fun _ => "") (fun _ => "") ((), [])
    (Option.some_get _).symm (Option.some_get _).symm ?_
  have unheard : ∀ it ∈ changedPorts.GetDatas.toList, it.2.var.m_cbs.toList.isEmpty = true := by
    decide +kernel
  intro name base found listener member
  obtain ⟨v, bound, rfl⟩ := Option.map_eq_some_iff.mp found
  obtain ⟨it, inside, rfl⟩ := Option.map_eq_some_iff.mp bound
  have none := unheard it (HashedSet.find_eq_some_iff.mp inside).1
  have member : listener ∈ it.2.var.m_cbs.toList := member
  rw [List.isEmpty_iff.mp none] at member
  cases member

end TypedConfig

end Chord
