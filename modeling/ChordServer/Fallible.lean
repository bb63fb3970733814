import Mathlib.Data.List.Basic

set_option autoImplicit false

/- Loops whose rounds may fail: a fold over a list in which a failed round is the end. -/
namespace Fallible

variable {ε σ α : Type*} {round : σ → α → Except ε σ} {items : List α} {state final : σ}

theorem bind_ok {α β : Type*} {x : Except ε α} {next : α → Except ε β} {result : β} :
    x.bind next = .ok result ↔ ∃ value, x = .ok value ∧ next value = .ok result := by
  cases x with
  | error fault =>
    constructor
    · intro failed
      cases failed
    · rintro ⟨value, failed, -⟩
      cases failed
  | ok value =>
    refine ⟨fun ran => ⟨value, rfl, ran⟩, ?_⟩
    rintro ⟨_, ⟨⟩, ran⟩
    exact ran

theorem map_ok {α β : Type*} {x : Except ε α} {f : α → β} {result : β} :
    x.map f = .ok result ↔ ∃ value, x = .ok value ∧ f value = result := by
  cases x with
  | error fault =>
    constructor
    · intro failed
      cases failed
    · rintro ⟨value, failed, -⟩
      cases failed
  | ok value =>
    refine ⟨fun ran => ⟨value, rfl, Except.ok.inj ran⟩, ?_⟩
    rintro ⟨_, ⟨⟩, rfl⟩
    rfl

theorem foldlM_cons_ok {item : α} {rest : List α} :
    (item :: rest).foldlM round state = .ok final ↔
      ∃ next, round state item = .ok next ∧ rest.foldlM round next = .ok final := by
  rw [List.foldlM_cons]
  exact bind_ok

/-- What every round preserves holds when the loop is through. -/
theorem foldlM_invariant {invariant : σ → Prop}
    (keeps : ∀ item ∈ items, ∀ state next, invariant state → round state item = .ok next →
      invariant next)
    (initial : invariant state) (ran : items.foldlM round state = .ok final) :
    invariant final := by
  induction items generalizing state with
  | nil => cases ran; exact initial
  | cons item rest ih =>
    obtain ⟨here, later⟩ := List.forall_mem_cons.mp keeps
    obtain ⟨next, stepped, ran⟩ := foldlM_cons_ok.mp ran
    exact ih later (here state next initial stepped) ran

/-- Where every round returns to the invariant, the loop is got through. -/
theorem foldlM_returns {invariant : σ → Prop}
    (returns : ∀ item ∈ items, ∀ state, invariant state →
      ∃ next, round state item = .ok next ∧ invariant next)
    (initial : invariant state) :
    ∃ final, items.foldlM round state = .ok final ∧ invariant final := by
  induction items generalizing state with
  | nil => exact ⟨state, rfl, initial⟩
  | cons item rest ih =>
    obtain ⟨here, later⟩ := List.forall_mem_cons.mp returns
    obtain ⟨next, stepped, held⟩ := here state initial
    obtain ⟨final, ran, ended⟩ := ih later held
    exact ⟨final, foldlM_cons_ok.mpr ⟨next, stepped, ran⟩, ended⟩

/-- A loop whose rounds do not fail. -/
theorem foldlM_ok {f : σ → α → σ}
    (rounds : ∀ item ∈ items, ∀ state, round state item = .ok (f state item)) :
    items.foldlM round state = .ok (items.foldl f state) := by
  induction items generalizing state with
  | nil => rfl
  | cons item rest ih =>
    obtain ⟨here, later⟩ := List.forall_mem_cons.mp rounds
    exact foldlM_cons_ok.mpr ⟨f state item, here state, ih later⟩

/-- A loop whose rounds are those of another one, seen through a function of the state. -/
theorem foldlM_map_state {τ : Type*} {image : σ → τ} {other : τ → α → Except ε τ}
    (rounds : ∀ state item, (round state item).map image = other (image state) item) :
    (items.foldlM round state).map image = items.foldlM other (image state) := by
  induction items generalizing state with
  | nil => rfl
  | cons item rest ih =>
    rw [List.foldlM_cons, List.foldlM_cons, ← rounds state item]
    cases round state item with
    | error fault => rfl
    | ok next => exact ih

/-- A loop that is got through has got through every item. -/
theorem foldlM_passes (ran : items.foldlM round state = .ok final) :
    ∀ item ∈ items, ∃ before after, round before item = .ok after := by
  induction items generalizing state with
  | nil => exact fun item member => absurd member List.not_mem_nil
  | cons head rest ih =>
    obtain ⟨next, stepped, ran⟩ := foldlM_cons_ok.mp ran
    exact List.forall_mem_cons.mpr ⟨⟨state, next, stepped⟩, ih ran⟩

/-- A fold that carries a failure along, from a state without one. -/
theorem foldl_map_ok (f : σ → α → σ) (items : List α) (state : σ) :
    items.foldl (fun (result : Except ε σ) item => result.map fun state => f state item)
      (.ok state) = .ok (items.foldl f state) := by
  induction items generalizing state with
  | nil => rfl
  | cons item rest ih => exact ih (f state item)

end Fallible
