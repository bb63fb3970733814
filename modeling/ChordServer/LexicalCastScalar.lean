import ChordServer.ConfigVarFromString
import ChordServer.LexicalCast
import ChordServer.YamlFlow

set_option autoImplicit false

namespace Chord

open YAML

/-- The containers that have a cast from `std::string`, with elements, or values under string
keys, of a type `T`. The elements of a set are kept apart by what its comparison, or its hash,
reads of them. -/
inductive Container (T : Type) : Type 1
  | vector
  | list
  | set {κ : Type} [LinearOrder κ] (key : T → κ)
  | unordered_set {κ : Type} [DecidableEq κ] (key : T → κ)
  | map
  | unordered_map

namespace Container

variable {T : Type} (yaml : YamlCpp) (hashing : Hashing)

def Value : Container T → Type
  | .vector => List T
  | .list => List T
  | @set _ _ _ key => KeyedSet key
  | @unordered_set _ _ _ key => HashedSet key
  | .map => KeyedSet (Prod.fst : String × T → String)
  | .unordered_map => HashedSet (Prod.fst : String × T → String)

/-- The casts that the templates define, for any cast of the elements. -/
def FromStr (cast : String → Except CastException T) :
    (container : Container T) → String → Except CastException container.Value
  | .vector => LexicalCast.toVector yaml cast
  | .list => LexicalCast.toList yaml cast
  | @set _ _ _ key => LexicalCast.fromElements yaml (∅ : KeyedSet key) KeyedSet.insert cast
  | @unordered_set _ _ _ key =>
      LexicalCast.fromElements yaml (HashedSet.empty : HashedSet key) (HashedSet.insert hashing)
        cast
  | .map => LexicalCast.toMap yaml cast
  | .unordered_map => LexicalCast.toUnorderedMap yaml cast hashing

/-- `empty()`. -/
def isEmpty : (container : Container T) → container.Value → Bool
  | .vector, v => List.isEmpty v
  | .list, v => List.isEmpty v
  | @set _ _ _ _, v => v.toList.isEmpty
  | @unordered_set _ _ _ _, v => v.toList.isEmpty
  | .map, v => v.toList.isEmpty
  | .unordered_map, v => v.toList.isEmpty

/-- `operator==`, which goes through the elements, or for a hash container looks each one of
the first up in the second. -/
instance [BEq T] : (container : Container T) → BEq container.Value
  | .vector => inferInstanceAs (BEq (List T))
  | .list => inferInstanceAs (BEq (List T))
  | @set _ _ _ _ => ⟨fun v w => v.toList == w.toList⟩
  | @unordered_set _ _ _ _ =>
      ⟨fun v w => v.toList.length == w.toList.length && v.toList.all fun a => w.toList.any (a == ·)⟩
  | .map => ⟨fun v w => v.toList == w.toList⟩
  | .unordered_map =>
      ⟨fun v w => v.toList.length == w.toList.length && v.toList.all fun p => w.toList.any (p == ·)⟩

/-- The container without elements. -/
def empty : (container : Container T) → container.Value
  | .vector => ([] : List T)
  | .list => ([] : List T)
  | @set _ _ _ key => (∅ : KeyedSet key)
  | @unordered_set _ _ _ key => (HashedSet.empty : HashedSet key)
  | .map => (∅ : KeyedSet (Prod.fst : String × T → String))
  | .unordered_map => (HashedSet.empty : HashedSet (Prod.fst : String × T → String))

variable {yaml} {hashing} {cast : String → Except CastException T} {v text : String}

/-- A scalar has neither elements nor entries, so every cast goes through its loop in no time. -/
theorem FromStr_of_scalar (loads : yaml.Load v = .ok (.Scalar text)) (container : Container T) :
    container.FromStr yaml hashing cast v = .ok container.empty := by
  have loaded : LexicalCast.Load yaml v = .ok (.Scalar text) := by
    rw [LexicalCast.Load, loads]
    rfl
  cases container <;>
    simp only [FromStr, LexicalCast.toVector, LexicalCast.toList, LexicalCast.toMap,
      LexicalCast.toUnorderedMap, LexicalCast.fromElements, LexicalCast.fromEntries, loaded] <;> rfl

/-- The sets of elements that have the order, or the hash, themselves. -/
theorem FromStr_set [LinearOrder T] :
    (Container.set (id : T → T)).FromStr yaml hashing cast = LexicalCast.toSet yaml cast := rfl

theorem FromStr_unordered_set [DecidableEq T] :
    (Container.unordered_set (id : T → T)).FromStr yaml hashing cast =
      LexicalCast.toUnorderedSet yaml cast hashing := rfl

theorem nil_beq {α : Type} [BEq α] (items : List α) :
    (([] : List α) == items) = items.isEmpty := by
  cases items <;> rfl

theorem beq_empty [BEq T] (container : Container T) (v : container.Value) :
    (container.empty == v) = container.isEmpty v := by
  have found : ∀ {α : Type} [BEq α] (items : List α),
      ((([] : List α).length == items.length) && ([] : List α).all fun a => items.any (a == ·)) =
        items.isEmpty := by
    intro α _ items
    cases items <;> rfl
  cases container with
  | vector => exact nil_beq _
  | list => exact nil_beq _
  | set key => exact nil_beq _
  | unordered_set key => exact found _
  | map => exact nil_beq _
  | unordered_map => exact found _

theorem isEmpty_empty (container : Container T) : container.isEmpty container.empty = true := by
  cases container <;> rfl

variable {φ σ : Type} (what : CastException → String)

/-- A text that loads as a scalar is read as the empty container. It leaves no trace exactly on a
variable that is empty already. -/
theorem scalar_untouched_iff_isEmpty [BEq T] (container : Container T)
    (var : ConfigVar container.Value φ σ) (loads : yaml.Load v = .ok (.Scalar text)) (state : σ) :
    (var.fromString (fun v => (container.FromStr yaml hashing cast v).mapError what) v
        state).Untouched var ↔ container.isEmpty var.m_val = true := by
  have read : (container.FromStr yaml hashing cast v).mapError what = .ok container.empty := by
    rw [FromStr_of_scalar loads]
    rfl
  rw [ConfigVar.fromString_untouched_iff]
  constructor
  · intro same
    rcases same _ read with equal | ⟨-, equal⟩
    · exact container.beq_empty var.m_val ▸ equal
    · exact equal ▸ container.isEmpty_empty
  · intro empty parsed parses
    obtain rfl := Except.ok.inj (read.symm.trans parses)
    exact .inl (container.beq_empty var.m_val ▸ empty)

theorem empty_vector_stays :
    (({ m_val := ([] : List Int) } : ConfigVar (Container.vector : Container Int).Value Empty Unit)
      |>.fromString (fun v => (Container.vector.FromStr Flow.yaml ⟨id, .refl⟩
        (fun _ => .error .bad_lexical_cast) v).mapError fun _ => "bad cast")
        (Flow.yaml.emit (.Scalar "8080")) ()).Untouched { m_val := ([] : List Int) } :=
  (scalar_untouched_iff_isEmpty _ _ _ (Flow.yaml.Load_emit _) ()).mpr rfl

/-- The condition is not met: a list of ports is set to the empty one by a single port. -/
theorem scalar_empties_vector :
    ¬ (({ m_val := ([8080, 8081] : List Int) } :
        ConfigVar (Container.vector : Container Int).Value Empty Unit)
      |>.fromString (fun v => (Container.vector.FromStr Flow.yaml ⟨id, .refl⟩
        (fun _ => .error .bad_lexical_cast) v).mapError fun _ => "bad cast")
        (Flow.yaml.emit (.Scalar "8080")) ()).Untouched
          { m_val := ([8080, 8081] : List Int) } := by
  rintro ⟨kept, -⟩
  rw [ConfigVar.fromString, FromStr_of_scalar (Flow.yaml.Load_emit _)] at kept
  cases kept

end Container

end Chord
