import Mathlib.Logic.Basic

set_option autoImplicit false

/- Partial deterministic transition systems and their runs. Nothing below is
specific to one program: a step that is impossible in a state has no successor. -/
namespace Transition

variable {σ α : Type*} (step : σ → α → Option σ)

/-- Performs the actions from left to right and stops at the first impossible one. -/
def run : σ → List α → Option σ
  | state, [] => some state
  | state, action :: rest => (step state action).bind fun next => run next rest

@[simp] theorem run_nil (state : σ) : run step state [] = some state := rfl

theorem run_cons (state : σ) (action : α) (rest : List α) :
    run step state (action :: rest) =
      (step state action).bind fun next => run step next rest := rfl

theorem run_append (state : σ) (first second : List α) :
    run step state (first ++ second) =
      (run step state first).bind fun middle => run step middle second := by
  induction first generalizing state with
  | nil => rfl
  | cons action rest ih =>
    rw [List.cons_append, run_cons, run_cons, Option.bind_assoc]
    exact Option.bind_congr fun next _ => ih next

theorem run_concat (state : σ) (actions : List α) (last : α) :
    run step state (actions ++ [last]) =
      (run step state actions).bind fun middle => step middle last := by
  rw [run_append]
  refine Option.bind_congr fun middle _ => ?_
  simp only [run_cons, run_nil, Option.bind_fun_some]

variable {step}

/-- Every action of the run is taken in a state that meets the condition. -/
def StepsMeet (step : σ → α → Option σ) (condition : σ → α → Prop) : σ → List α → Prop
  | _, [] => True
  | state, action :: rest =>
      condition state action ∧
        ∀ next, step state action = some next → StepsMeet step condition next rest

/-- The condition on a run whose first step is known. -/
theorem stepsMeet_cons {condition : σ → α → Prop} {state next : σ} {action : α} {rest : List α}
    (stepped : step state action = some next) :
    StepsMeet step condition state (action :: rest) ↔
      condition state action ∧ StepsMeet step condition next rest := by
  refine and_congr_right fun _ => ⟨fun every => every next stepped, fun meets other same => ?_⟩
  obtain rfl := Option.some.inj (stepped.symm.trans same)
  exact meets

instance decidableStepsMeet {condition : σ → α → Prop}
    [∀ state action, Decidable (condition state action)] :
    ∀ (state : σ) (actions : List α), Decidable (StepsMeet step condition state actions)
  | _, [] => .isTrue trivial
  | state, action :: rest =>
      match stepped : step state action with
      | none =>
          decidable_of_iff (condition state action)
            ⟨fun now => ⟨now, fun _ goes => absurd (stepped.symm.trans goes) nofun⟩, And.left⟩
      | some next =>
          have : Decidable (StepsMeet step condition next rest) := decidableStepsMeet next rest
          decidable_of_iff (condition state action ∧ StepsMeet step condition next rest)
            (and_congr_right fun _ => ⟨fun later _ goes =>
              Option.some.inj (stepped.symm.trans goes) ▸ later, fun later => later next stepped⟩)

theorem stepsMeet_of_forall {condition : α → Prop} {actions : List α}
    (every : ∀ action ∈ actions, condition action) :
    ∀ state, StepsMeet step (fun _ => condition) state actions := by
  induction actions with
  | nil => exact fun _ => trivial
  | cons action rest ih =>
    obtain ⟨first, later⟩ := List.forall_mem_cons.mp every
    exact fun _ => ⟨first, fun next _ => ih later next⟩

theorem stepsMeet_iff {condition : σ → α → Prop} {state : σ} {actions : List α} :
    StepsMeet step condition state actions ↔
      ∀ before action after middle, actions = before ++ action :: after →
        run step state before = some middle → condition middle action := by
  induction actions generalizing state with
  | nil =>
    refine ⟨fun _ before action after middle shape => ?_, fun _ => trivial⟩
    simp at shape
  | cons head rest ih =>
    constructor
    · rintro ⟨now, later⟩ before action after middle shape reached
      cases before with
      | nil =>
        obtain ⟨rfl, -⟩ : head = action ∧ rest = after := by simpa using shape
        cases reached
        exact now
      | cons first before =>
        obtain ⟨rfl, rfl⟩ : head = first ∧ rest = before ++ action :: after := by
          simpa using shape
        rw [run_cons, Option.bind_eq_some_iff] at reached
        obtain ⟨next, stepped, reached⟩ := reached
        exact ih.mp (later next stepped) before action after middle rfl reached
    · intro every
      refine ⟨every [] head rest state rfl rfl, fun next stepped => ih.mpr ?_⟩
      intro before action after middle shape reached
      refine every (head :: before) action after middle (by rw [shape]; rfl) ?_
      rw [run_cons, stepped]
      exact reached

theorem StepsMeet.and {condition other : σ → α → Prop} {state : σ} {actions : List α}
    (first : StepsMeet step condition state actions)
    (second : StepsMeet step other state actions) :
    StepsMeet step (fun state action => condition state action ∧ other state action) state
      actions := by
  induction actions generalizing state with
  | nil => trivial
  | cons action rest ih =>
    exact ⟨⟨first.1, second.1⟩,
      fun next stepped => ih (first.2 next stepped) (second.2 next stepped)⟩

/-- A condition that an invariant of the run turns into another one. -/
theorem StepsMeet.imp_of_invariant {condition other : σ → α → Prop} {invariant : σ → Prop}
    (keeps : ∀ state action next, invariant state → condition state action →
      step state action = some next → invariant next)
    (turns : ∀ state action, invariant state → condition state action → other state action)
    {state : σ} {actions : List α} (initial : invariant state)
    (meets : StepsMeet step condition state actions) : StepsMeet step other state actions := by
  induction actions generalizing state with
  | nil => trivial
  | cons action rest ih =>
    refine ⟨turns state action initial meets.1, fun next stepped => ?_⟩
    exact ih (keeps state action next initial meets.1 stepped) (meets.2 next stepped)

/-- An invariant that rules something out rules it out along every run. -/
theorem stepsMeet_of_invariant {invariant : σ → Prop} {other : σ → α → Prop}
    (keeps : ∀ state action next, invariant state → step state action = some next →
      invariant next)
    (turns : ∀ state action, invariant state → other state action)
    {state : σ} (initial : invariant state) (actions : List α) :
    StepsMeet step other state actions :=
  StepsMeet.imp_of_invariant
    (fun state action next held (_ : True) stepped => keeps state action next held stepped)
    (fun state action held _ => turns state action held) initial
    (stepsMeet_of_forall (fun _ _ => trivial) state)

/-- Two systems that stay related, or are both stuck, whenever a step meets the condition
do so along every run whose steps do. -/
theorem run_related {τ : Type*} {other : τ → α → Option τ} {related : σ → τ → Prop}
    {condition : σ → α → Prop}
    (lockstep : ∀ state image action, related state image → condition state action →
      Option.Rel related (step state action) (other image action))
    {state : σ} {image : τ} {actions : List α} (initial : related state image)
    (meets : StepsMeet step condition state actions) :
    Option.Rel related (run step state actions) (run other image actions) := by
  induction actions generalizing state image with
  | nil => exact .some initial
  | cons action rest ih =>
    rw [run_cons, run_cons]
    have here := lockstep state image action initial meets.1
    cases stepped : step state action with
    | none =>
      rw [stepped] at here
      cases imaged : other image action with
      | none => exact .none
      | some next =>
        rw [imaged] at here
        cases here
    | some next =>
      rw [stepped] at here
      cases imaged : other image action with
      | none =>
        rw [imaged] at here
        cases here
      | some nextImage =>
        rw [imaged] at here
        cases here with
        | some after => exact ih after (meets.2 next stepped)

/-- The induction over a run: what one conditioned step preserves holds at its end. -/
theorem run_invariant_of_stepsMeet {condition : σ → α → Prop} {invariant : σ → Prop}
    (keeps : ∀ state action next, invariant state → condition state action →
      step state action = some next → invariant next)
    {state final : σ} {actions : List α} (initial : invariant state)
    (meets : StepsMeet step condition state actions)
    (ran : run step state actions = some final) : invariant final := by
  induction actions generalizing state with
  | nil => cases ran; exact initial
  | cons action rest ih =>
    rw [run_cons, Option.bind_eq_some_iff] at ran
    obtain ⟨next, stepped, ran⟩ := ran
    exact ih (keeps state action next initial meets.1 stepped) (meets.2 next stepped) ran

theorem run_invariant {invariant : σ → Prop}
    (keeps : ∀ state action next, invariant state →
      step state action = some next → invariant next)
    {state final : σ} {actions : List α} (initial : invariant state)
    (ran : run step state actions = some final) : invariant final :=
  run_invariant_of_stepsMeet
    (fun state action next held (_ : True) stepped => keeps state action next held stepped)
    initial (stepsMeet_iff.mpr fun _ _ _ _ _ _ => trivial) ran

/-- The induction over a run whose invariant looks back at the actions so far. -/
theorem run_history {condition : α → Prop} {invariant : List α → σ → Prop}
    (keeps : ∀ past state action next, invariant past state → condition action →
      step state action = some next → invariant (past ++ [action]) next)
    {actions : List α} (every : ∀ action ∈ actions, condition action) :
    ∀ {past : List α} {state final : σ}, invariant past state →
      run step state actions = some final → invariant (past ++ actions) final := by
  induction actions with
  | nil =>
    intro past state final held ran
    cases ran
    rwa [List.append_nil]
  | cons action rest ih =>
    intro past state final held ran
    obtain ⟨first, later⟩ := List.forall_mem_cons.mp every
    rw [run_cons, Option.bind_eq_some_iff] at ran
    obtain ⟨next, stepped, ran⟩ := ran
    have kept := ih later (keeps past state action next held first stepped) ran
    rwa [List.append_assoc, List.singleton_append] at kept

/-- The property holds in every state that the run passes through. -/
def EveryState (step : σ → α → Option σ) (property : σ → Prop) (state : σ)
    (actions : List α) : Prop :=
  ∀ before after middle, actions = before ++ after → run step state before = some middle →
    property middle

theorem everyState_cons {property : σ → Prop} {state : σ} {action : α} {rest : List α} :
    EveryState step property state (action :: rest) ↔
      property state ∧ ∀ next, step state action = some next →
        EveryState step property next rest := by
  constructor
  · intro every
    refine ⟨every [] (action :: rest) state rfl rfl, fun next stepped => ?_⟩
    intro before after middle shape reached
    refine every (action :: before) after middle (by rw [shape]; rfl) ?_
    rw [run_cons, stepped]
    exact reached
  · rintro ⟨now, later⟩ before after middle shape reached
    cases before with
    | nil =>
      cases reached
      exact now
    | cons first before =>
      obtain ⟨rfl, rfl⟩ : action = first ∧ rest = before ++ after := by simpa using shape
      rw [run_cons, Option.bind_eq_some_iff] at reached
      obtain ⟨next, stepped, reached⟩ := reached
      exact later next stepped before after middle rfl reached

theorem everyState_nil {property : σ → Prop} {state : σ} :
    EveryState step property state [] ↔ property state := by
  refine ⟨fun every => every [] [] state rfl rfl, fun now before after middle shape reached => ?_⟩
  obtain ⟨rfl, -⟩ : before = [] ∧ after = [] := by simpa using shape.symm
  cases reached
  exact now

instance decidableEveryState {property : σ → Prop} [DecidablePred property] :
    ∀ (state : σ) (actions : List α), Decidable (EveryState step property state actions)
  | _, [] => decidable_of_iff _ everyState_nil.symm
  | state, action :: rest =>
      match stepped : step state action with
      | none =>
          decidable_of_iff (property state) <| everyState_cons.trans
            ⟨And.left, fun now => ⟨now, fun _ goes => absurd (stepped.symm.trans goes) nofun⟩⟩
              |>.symm
      | some next =>
          have : Decidable (EveryState step property next rest) := decidableEveryState next rest
          decidable_of_iff (property state ∧ EveryState step property next rest) <|
            everyState_cons.trans (and_congr_right fun _ => ⟨fun later => later next stepped,
              fun later _ goes => Option.some.inj (stepped.symm.trans goes) ▸ later⟩) |>.symm

/-- A property that an invariant of the conditioned steps implies holds all along a run
whose steps meet the condition. -/
theorem everyState_of_stepsMeet {invariant property : σ → Prop} {condition : σ → α → Prop}
    (holds : ∀ state, invariant state → property state)
    (enough : ∀ state action next, invariant state → step state action = some next →
      condition state action → invariant next)
    {state : σ} {actions : List α} (initial : invariant state)
    (meets : StepsMeet step condition state actions) :
    EveryState step property state actions := by
  induction actions generalizing state with
  | nil => exact everyState_nil.mpr (holds state initial)
  | cons action rest ih =>
    refine everyState_cons.mpr ⟨holds state initial, fun next stepped => ?_⟩
    exact ih (enough state action next initial stepped meets.1) (meets.2 next stepped)

theorem everyState_of_invariant {invariant property : σ → Prop}
    (holds : ∀ state, invariant state → property state)
    (keeps : ∀ state action next, invariant state → step state action = some next →
      invariant next)
    {state : σ} {actions : List α} (initial : invariant state) :
    EveryState step property state actions :=
  everyState_of_stepsMeet holds
    (fun state action next held stepped (_ : True) => keeps state action next held stepped)
    initial (stepsMeet_of_forall (fun _ _ => trivial) state)

/-- In a run whose steps are as `given`, where a condition on the steps is exactly what a
property of the next state needs, it is exactly what the property needs along the run. -/
theorem everyState_iff_of_given {given condition : σ → α → Prop} {invariant property : σ → Prop}
    (holds : ∀ state, invariant state → property state)
    (enough : ∀ state action next, invariant state → given state action →
      step state action = some next → condition state action → invariant next)
    (needed : ∀ state action next, invariant state → given state action →
      step state action = some next → property next → condition state action)
    (blocked : ∀ state action, invariant state → given state action →
      step state action = none → condition state action)
    {state : σ} {actions : List α} (initial : invariant state)
    (assumed : StepsMeet step given state actions) :
    EveryState step property state actions ↔ StepsMeet step condition state actions := by
  induction actions generalizing state with
  | nil => exact iff_of_true (everyState_nil.mpr (holds state initial)) trivial
  | cons action rest ih =>
    rw [everyState_cons, and_iff_right (holds state initial)]
    cases stepped : step state action with
    | none =>
      refine iff_of_true nofun ⟨blocked state action initial assumed.1 stepped, fun next goes => ?_⟩
      rw [stepped] at goes
      cases goes
    | some next =>
      have follows := assumed.2 next stepped
      constructor
      · intro every
        have later := every next rfl
        have met := needed state action next initial assumed.1 stepped
          (later [] rest next rfl rfl)
        have kept := enough state action next initial assumed.1 stepped met
        refine ⟨met, fun other goes => ?_⟩
        obtain rfl := Option.some.inj (stepped.symm.trans goes)
        exact (ih kept follows).mp later
      · rintro ⟨met, meets⟩ other goes
        obtain rfl := Option.some.inj goes
        have kept := enough state action next initial assumed.1 stepped met
        exact (ih kept follows).mpr (meets next stepped)

/-- Where a condition on the steps is exactly what a property of the next state
needs, it is exactly what the property needs along a run. -/
theorem everyState_iff_stepsMeet {invariant property : σ → Prop} {condition : σ → α → Prop}
    (holds : ∀ state, invariant state → property state)
    (enough : ∀ state action next, invariant state → step state action = some next →
      condition state action → invariant next)
    (needed : ∀ state action next, invariant state → step state action = some next →
      property next → condition state action)
    (blocked : ∀ state action, invariant state → step state action = none →
      condition state action)
    {state : σ} {actions : List α} (initial : invariant state) :
    EveryState step property state actions ↔ StepsMeet step condition state actions :=
  everyState_iff_of_given holds
    (fun state action next held (_ : True) stepped met =>
      enough state action next held stepped met)
    (fun state action next held _ stepped met => needed state action next held stepped met)
    (fun state action held _ stuck => blocked state action held stuck)
    initial (stepsMeet_of_forall (fun _ _ => trivial) state)

end Transition
