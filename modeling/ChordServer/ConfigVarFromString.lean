import ChordServer.ConfigVar

set_option autoImplicit false

namespace Chord.ConfigVar

variable {T φ σ : Type}

/-- The listeners are called one after the other with the old and the new value, and all of
them return. -/
inductive Told (old new : T) : List (Nat × on_change_cb T φ σ) → σ → σ → Prop
  | none (state : σ) : Told old new [] state state
  | next {key : Nat} {cb : on_change_cb T φ σ} {rest : List (Nat × on_change_cb T φ σ)}
      {state middle final : σ} (called : cb old new state = .returned middle)
      (later : Told old new rest middle final) : Told old new ((key, cb) :: rest) state final

/-- The loop over the listeners gets through exactly if all of them return, and has then called
each of them once. -/
theorem notify_eq_returned_iff {old new : T} {listeners : List (Nat × on_change_cb T φ σ)}
    {state final : σ} {called : List Nat} :
    notify old new listeners state = (called, .returned final) ↔
      Told old new listeners state final ∧ called = listeners.map Prod.fst := by
  induction listeners generalizing state called with
  | nil =>
    constructor
    · intro ran
      cases ran
      exact ⟨.none final, rfl⟩
    · rintro ⟨⟨⟩, rfl⟩
      rfl
  | cons listener rest ih =>
    obtain ⟨key, cb⟩ := listener
    constructor
    · intro ran
      rw [notify] at ran
      split at ran
      · rename_i middle returned
        obtain ⟨rfl, ended⟩ := Prod.mk.inj ran
        obtain ⟨told, keys⟩ := ih.mp (Prod.ext rfl ended)
        exact ⟨.next returned told, congrArg (key :: ·) keys⟩
      · rename_i stopped unfinished
        obtain ⟨-, ended⟩ := Prod.mk.inj ran
        exact absurd ended (unfinished final)
    · rintro ⟨told, rfl⟩
      cases told with
      | next returned told =>
        have later := ih.mpr ⟨told, rfl⟩
        simp only [notify, returned, later, List.map_cons]

/-- The loop calls no listener if there is none. -/
theorem notify_called_eq_nil_iff {old new : T} {listeners : List (Nat × on_change_cb T φ σ)}
    {state : σ} : (notify old new listeners state).1 = [] ↔ listeners = [] := by
  cases listeners with
  | nil => exact iff_of_true rfl rfl
  | cons listener rest =>
    refine iff_of_false (fun none => ?_) (List.cons_ne_nil _ _)
    rw [notify] at none
    split at none <;> cases none

/-- A loop that does not get through has called someone. -/
theorem called_ne_nil_of_stopped {old new : T} {listeners : List (Nat × on_change_cb T φ σ)}
    {state : σ} {called : List Nat} {stopped : Outcome φ σ}
    (notified : notify old new listeners state = (called, stopped))
    (unfinished : ∀ final, stopped ≠ .returned final) : called ≠ [] := by
  rintro rfl
  obtain rfl := notify_called_eq_nil_iff.mp (congrArg Prod.fst notified)
  exact unfinished state (Prod.mk.inj notified).2.symm

variable [BEq T]

/-- The value is left alone and no listener hears of it. -/
def Result.Untouched (result : Result T φ σ) (var : ConfigVar T φ σ) : Prop :=
  result.var.m_val = var.m_val ∧ result.called = []

/-- A value that is assigned leaves no trace exactly if it equals the stored one, by its
`operator==` or, where there is nobody to tell, in itself. -/
theorem setValue_untouched_iff (var : ConfigVar T φ σ) (val : T) (state : σ) :
    (var.setValue val state).Untouched var ↔
      (val == var.m_val) = true ∨ var.m_cbs.toList = [] ∧ val = var.m_val := by
  unfold setValue Result.Untouched
  split
  · rename_i equal
    exact iff_of_true ⟨rfl, rfl⟩ (.inl equal)
  · rename_i differs
    rw [or_iff_right differs, ← @notify_called_eq_nil_iff T φ σ var.m_val val _ state]
    split
    · rename_i called final notified
      rw [notified]
      exact and_comm
    · rename_i called stopped unfinished notified
      have someone := called_ne_nil_of_stopped notified unfinished
      rw [notified]
      exact iff_of_false (fun untouched => someone untouched.2) fun none => someone none.1

theorem fromString_of_error {FromStr : String → Except String T} {val what : String}
    (fails : FromStr val = .error what) (var : ConfigVar T φ σ) (state : σ) :
    var.fromString FromStr val state =
      { var := var, errors := [exceptionMessage what val], outcome := .returned state } := by
  rw [fromString, fails]

/-- The handler that ends a `setValue` which throws neither calls a listener nor stores. -/
theorem fromString_untouched_iff_of_ok {FromStr : String → Except String T} {val : String}
    {parsed : T} (parses : FromStr val = .ok parsed) (var : ConfigVar T φ σ) (state : σ) :
    (var.fromString FromStr val state).Untouched var ↔
      (var.setValue parsed state).Untouched var := by
  rw [fromString, parses]
  dsimp only
  split <;> rfl

/-- A text leaves no trace exactly if it does not parse or parses to the stored value. -/
theorem fromString_untouched_iff (FromStr : String → Except String T) (var : ConfigVar T φ σ)
    (val : String) (state : σ) :
    (var.fromString FromStr val state).Untouched var ↔
      ∀ parsed, FromStr val = .ok parsed →
        (parsed == var.m_val) = true ∨ var.m_cbs.toList = [] ∧ parsed = var.m_val := by
  cases parses : FromStr val with
  | error what =>
    rw [fromString_of_error parses]
    exact iff_of_true ⟨rfl, rfl⟩ nofun
  | ok parsed =>
    rw [fromString_untouched_iff_of_ok parses, setValue_untouched_iff]
    simp only [Except.ok.injEq, forall_eq']

/-- `fromString(val)` with the value that it returns: the block and the handler both go on to
`return false`. -/
def fromStringReturns (FromStr : String → Except String T) (var : ConfigVar T φ σ) (val : String)
    (state : σ) : Result T φ σ × Option Bool :=
  let result := var.fromString FromStr val state
  match result.outcome with
  | .returned _ => (result, some false)
  | _ => (result, none)

/-- The text is parsed and `true` is returned; if the parsed value differs from the stored one,
every listener is called once with the old and the parsed value, and that is stored. -/
def Applied (FromStr : String → Except String T) (var : ConfigVar T φ σ) (val : String)
    (state : σ) (ended : Result T φ σ × Option Bool) : Prop :=
  ∃ parsed final, FromStr val = .ok parsed ∧
    (if parsed == var.m_val then
        final = state ∧ ended.1.called = [] ∧ ended.1.var.m_val = var.m_val
      else
        Told var.m_val parsed var.m_cbs.toList state final ∧
          ended.1.called = var.m_cbs.toList.map Prod.fst ∧ ended.1.var.m_val = parsed) ∧
    ended.1.outcome = .returned final ∧ ended.2 = some true

/-- The text is applied, or it leaves no trace and `false` is returned. -/
def AllOrNothing (FromStr : String → Except String T) (var : ConfigVar T φ σ) (val : String)
    (state : σ) : Prop :=
  let ended := var.fromStringReturns FromStr val state
  Applied FromStr var val state ended ∨ ended.1.Untouched var ∧ ended.2 = some false

theorem setValue_returned_of_called {var : ConfigVar T φ σ} {val : T} {state : σ}
    (none : (var.setValue val state).called = []) :
    ∃ final, (var.setValue val state).outcome = .returned final := by
  revert none
  unfold setValue
  split
  · exact fun _ => ⟨state, rfl⟩
  · split
    · rename_i called final notified
      exact fun _ => ⟨final, rfl⟩
    · rename_i called stopped unfinished notified
      exact fun none => absurd none (called_ne_nil_of_stopped notified unfinished)

theorem returns_false_of_untouched {FromStr : String → Except String T} {val : String}
    {var : ConfigVar T φ σ} {state : σ}
    (untouched : (var.fromString FromStr val state).Untouched var) :
    (var.fromStringReturns FromStr val state).2 = some false := by
  cases parses : FromStr val with
  | error what => rw [fromStringReturns, fromString_of_error parses]
  | ok parsed =>
    rw [fromString_untouched_iff_of_ok parses] at untouched
    obtain ⟨final, returned⟩ := setValue_returned_of_called untouched.2
    simp only [fromStringReturns, fromString, parses, returned]

theorem fromStringReturns_fst (FromStr : String → Except String T) (var : ConfigVar T φ σ)
    (val : String) (state : σ) :
    (var.fromStringReturns FromStr val state).1 = var.fromString FromStr val state := by
  rw [fromStringReturns]
  split <;> rfl

theorem not_returns_true (FromStr : String → Except String T) (var : ConfigVar T φ σ)
    (val : String) (state : σ) : (var.fromStringReturns FromStr val state).2 ≠ some true := by
  rw [fromStringReturns]
  split <;> exact nofun

/-- As `true` is never returned, all or nothing holds exactly of the texts that do not parse and
of those that are parsed to the stored value. -/
theorem allOrNothing_iff (FromStr : String → Except String T) (var : ConfigVar T φ σ)
    (val : String) (state : σ) :
    AllOrNothing FromStr var val state ↔
      ∀ parsed, FromStr val = .ok parsed →
        (parsed == var.m_val) = true ∨ var.m_cbs.toList = [] ∧ parsed = var.m_val := by
  rw [← fromString_untouched_iff FromStr var val state, AllOrNothing, fromStringReturns_fst]
  constructor
  · rintro (⟨parsed, final, -, -, -, returned⟩ | ⟨untouched, -⟩)
    · exact absurd returned (not_returns_true FromStr var val state)
    · exact untouched
  · exact fun untouched => .inr ⟨untouched, returns_false_of_untouched untouched⟩

/-- A variable without listeners is set to a value that has been parsed, and `fromString` says
that it has not. -/
theorem set_but_returns_false :
    ¬ AllOrNothing (fun val => .ok val) ({ m_val := "0.0.0.0" } : ConfigVar String Empty Unit)
      "127.0.0.1" () := by
  rintro (⟨parsed, final, -, -, -, returned⟩ | ⟨⟨kept, -⟩, -⟩)
  · cases returned
  · exact absurd kept (by decide)

end Chord.ConfigVar
