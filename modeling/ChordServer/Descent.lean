import Mathlib.Data.Finite.Sum
import Mathlib.Data.Fintype.Card
import Mathlib.Logic.Relation

set_option autoImplicit false

/- Descents of limited depth, and when some depth is enough. Nothing below is specific to one
program. -/
namespace Descent

theorem mapM_isSome_iff {σ β : Type*} {f : σ → Option β} {states : List σ} :
    (states.mapM f).isSome ↔ ∀ state ∈ states, (f state).isSome := by
  induction states with
  | nil => simp
  | cons state rest ih =>
    rw [List.forall_mem_cons, ← ih, List.mapM_cons]
    cases f state with
    | none => simp
    | some value => cases List.mapM f rest <;> simp

/-- What one function finds, a function that finds no less finds too. -/
theorem mapM_eq_some_of_le {σ β : Type*} {f g : σ → Option β} {states : List σ} :
    ∀ {values : List β}, (∀ state ∈ states, ∀ value, f state = some value → g state = some value) →
      states.mapM f = some values → states.mapM g = some values := by
  induction states with
  | nil => exact fun _ found => found
  | cons state rest ih =>
    intro values le found
    obtain ⟨here, later⟩ := List.forall_mem_cons.mp le
    rw [List.mapM_cons] at found ⊢
    obtain ⟨value, first, found⟩ := Option.bind_eq_some_iff.mp found
    obtain ⟨others, behind, done⟩ := Option.bind_eq_some_iff.mp found
    rw [here value first, ih later behind]
    exact done

section Depth

variable {σ β : Type*} (children : σ → List σ) (combine : σ → List β → β)

/-- Combines what is found at all children; `none` is a descent of more than `depth` calls. -/
def visit : Nat → σ → Option β
  | 0, _ => none
  | depth + 1, state => ((children state).mapM (visit depth)).map (combine state)

variable {children combine}

theorem visit_isSome_succ {depth : Nat} {state : σ} :
    (visit children combine (depth + 1) state).isSome ↔
      ∀ child ∈ children state, (visit children combine depth child).isSome := by
  rw [visit, Option.isSome_map, mapM_isSome_iff]

/-- More depth changes nothing that has been found. -/
theorem visit_eq_of_le (depth : Nat) : ∀ {more : Nat} {state : σ} {value : β}, depth ≤ more →
    visit children combine depth state = some value →
      visit children combine more state = some value := by
  induction depth with
  | zero =>
    intro more state value _ found
    cases found
  | succ depth ih =>
    intro more state value le found
    obtain ⟨more, rfl⟩ := Nat.exists_eq_add_of_le' (Nat.one_le_of_lt le)
    obtain ⟨values, each, done⟩ := Option.map_eq_some_iff.mp found
    have deeper := Nat.le_of_succ_le_succ le
    have same := mapM_eq_some_of_le (fun child _ value => @ih more child value deeper) each
    rw [visit, same, Option.map_some, done]

theorem visit_isSome_of_le {depth more : Nat} (le : depth ≤ more) {state : σ}
    (found : (visit children combine depth state).isSome) :
    (visit children combine more state).isSome := by
  obtain ⟨value, found⟩ := Option.isSome_iff_exists.mp found
  exact Option.isSome_iff_exists.mpr ⟨value, visit_eq_of_le depth le found⟩

/-- Finitely many descents that end have a depth in common. -/
theorem exists_common_depth (states : List σ)
    (ends : ∀ state ∈ states, ∃ depth, (visit children combine depth state).isSome) :
    ∃ depth, ∀ state ∈ states, (visit children combine depth state).isSome := by
  induction states with
  | nil => exact ⟨0, fun _ member => absurd member List.not_mem_nil⟩
  | cons state rest ih =>
    obtain ⟨⟨first, here⟩, later⟩ := List.forall_mem_cons.mp ends
    obtain ⟨second, every⟩ := ih later
    refine ⟨max first second, List.forall_mem_cons.mpr ⟨?_, fun other member => ?_⟩⟩
    · exact visit_isSome_of_le (Nat.le_max_left _ _) here
    · exact visit_isSome_of_le (Nat.le_max_right _ _) (every other member)

theorem acc_of_visit (depth : Nat) : ∀ {state : σ}, (visit children combine depth state).isSome →
    Acc (fun child parent => child ∈ children parent) state := by
  induction depth with
  | zero =>
    intro state found
    cases found
  | succ depth ih =>
    intro state found
    exact ⟨state, fun child member => ih (visit_isSome_succ.mp found child member)⟩

/-- Some depth is enough exactly where the children are well founded. -/
theorem exists_visit_iff {state : σ} :
    (∃ depth, (visit children combine depth state).isSome) ↔
      Acc (fun child parent => child ∈ children parent) state := by
  constructor
  · rintro ⟨depth, found⟩
    exact acc_of_visit depth found
  · intro accessible
    induction accessible with
    | intro state _ ih =>
      obtain ⟨depth, every⟩ := exists_common_depth (children state) ih
      exact ⟨depth + 1, visit_isSome_succ.mpr every⟩

end Depth

section Cycles

variable {α : Type*} (step : α → α → Prop)

/-- Nothing that is reached from the root reaches itself again. -/
def AcyclicFrom (root : α) : Prop :=
  ∀ node, Relation.ReflTransGen step root node → ¬ Relation.TransGen step node node

variable {step}

theorem not_transGen_of_acc {node : α} (accessible : Acc (Function.swap step) node) :
    ¬ Relation.TransGen step node node := by
  intro cycle
  rw [← Relation.transGen_swap] at cycle
  induction accessible.transGen with
  | intro node _ ih => exact ih node cycle accessible cycle

theorem acyclicFrom_of_acc {root : α} (accessible : Acc (Function.swap step) root) :
    AcyclicFrom step root := by
  intro node reached
  refine not_transGen_of_acc ?_
  induction reached with
  | refl => exact accessible
  | tail _ edge ih => exact ih.inv edge

/-- Among finitely many nodes a descent without an end comes back to a node. -/
theorem acc_of_acyclicFrom [Finite α] {root : α} (acyclic : AcyclicFrom step root) :
    Acc (Function.swap step) root := by
  let below (first second : { node // Relation.ReflTransGen step root node }) : Prop :=
    Relation.TransGen step second.1 first.1
  have transitive : IsTrans _ below := ⟨fun _ _ _ first second => second.trans first⟩
  have irreflexive : Std.Irrefl below := ⟨fun node => acyclic node.1 node.2⟩
  have founded : WellFounded below := Finite.wellFounded_of_trans_of_irrefl below
  have every : ∀ node : { node // Relation.ReflTransGen step root node },
      Acc (Function.swap step) node.1 := by
    intro node
    induction node using founded.induction with
    | _ node ih =>
      exact ⟨node.1, fun child edge => ih ⟨child, node.2.tail edge⟩ (.single edge)⟩
  exact every ⟨root, .refl⟩

theorem acc_iff_acyclicFrom [Finite α] {root : α} :
    Acc (Function.swap step) root ↔ AcyclicFrom step root :=
  ⟨acyclicFrom_of_acc, acc_of_acyclicFrom⟩

end Cycles

end Descent
