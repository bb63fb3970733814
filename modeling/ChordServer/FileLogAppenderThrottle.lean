import ChordServer.FileLogAppenderReopen
import Mathlib.Data.List.Chain

set_option autoImplicit false

namespace Chord.FileLogAppender

/-- An accepted call in this state calls `reopen()`. -/
def Reopens (state : FileLogAppender × Host) (call : Attempt) : Prop :=
  call.env.now ≠ state.1.m_lastTime + 3

instance (state : FileLogAppender × Host) (call : Attempt) : Decidable (Reopens state call) :=
  inferInstanceAs (Decidable (_ ≠ _))

theorem reopenAt_eq (state : FileLogAppender × Host) (call : Attempt) :
    state.1.reopenAt call.env state.2 =
      if Reopens state call then
        ({ (state.1.reopen call.env state.2).1 with m_lastTime := call.env.now },
          (state.1.reopen call.env state.2).2.1)
      else state := rfl

/-- A run of accepted calls, with the clock of the last one that reopened the file. -/
def watched (platform : Platform) (state : (FileLogAppender × Host) × Option UInt64)
    (call : Attempt) : Option ((FileLogAppender × Host) × Option UInt64) :=
  (attempt platform state.1 call).map fun next =>
    (next, if Reopens state.1 call then some call.env.now else state.2)

/-- The call reopens the file if and only if three seconds have passed since the last one that
did. -/
def OnTime (state : (FileLogAppender × Host) × Option UInt64) (call : Attempt) : Prop :=
  ∀ since ∈ state.2, (Reopens state.1 call ↔ since.toNat + 3 ≤ call.env.now.toNat)

def Throttled (platform : Platform) (start : FileLogAppender × Host) (calls : List Attempt) :
    Prop :=
  Transition.StepsMeet (watched platform) OnTime (start, none) calls

def clocks (calls : List Attempt) : List UInt64 := calls.map fun call => call.env.now

/-- More than three seconds lie between the two. -/
def Apart (first second : UInt64) : Prop := first.toNat + 3 < second.toNat

instance : DecidableRel Apart := fun first second =>
  inferInstanceAs (Decidable (first.toNat + 3 < second.toNat))

/-- The calls from the first that reopens the file on are all apart. -/
def Spaced (lastTime : UInt64) (times : List UInt64) : Prop :=
  (times.dropWhile fun now => now = lastTime + 3).IsChain Apart

instance (lastTime : UInt64) (times : List UInt64) : Decidable (Spaced lastTime times) :=
  inferInstanceAs (Decidable (List.IsChain Apart _))

/-- The wrapped sum is the clock of a later call only where the sum does not wrap. -/
theorem eq_add_three_iff {since now : UInt64} (later : since ≤ now) :
    now = since + 3 ↔ now.toNat = since.toNat + 3 := by
  have order := UInt64.le_iff_toNat_le.mp later
  have bound := now.toNat_lt
  rw [← UInt64.toNat_inj, UInt64.toNat_add]
  have three : (3 : UInt64).toNat = 3 := rfl
  rw [three]
  omega

theorem onTime_iff {state : FileLogAppender × Host} {call : Attempt}
    (later : state.1.m_lastTime ≤ call.env.now) :
    OnTime (state, some state.1.m_lastTime) call ↔
      Apart state.1.m_lastTime call.env.now := by
  have order := UInt64.le_iff_toNat_le.mp later
  have single : OnTime (state, some state.1.m_lastTime) call ↔
      (Reopens state call ↔ state.1.m_lastTime.toNat + 3 ≤ call.env.now.toNat) :=
    ⟨fun every => every _ rfl, by rintro same _ ⟨⟩; exact same⟩
  rw [single, Reopens, ne_eq, eq_add_three_iff later, Apart]
  omega

/-- What the calls of a run need to return and to be accepted. -/
structure Accepts (formatter : LogFormatter) (calls : List Attempt) (appender : FileLogAppender) :
    Prop where
  formatted : appender.m_formatter = some formatter
  accepted : ∀ call ∈ calls, appender.m_level ≤ call.level

variable (platform : Platform) {formatter : LogFormatter}

/-- An accepted call returns, and stores its clock exactly if it reopens the file. -/
theorem Accepts.attempt {state : FileLogAppender × Host} {call : Attempt} {rest : List Attempt}
    (accepts : Accepts formatter (call :: rest) state.1) :
    ∃ next, attempt platform state call = some next ∧ Accepts formatter rest next.1 ∧
      next.1.m_lastTime =
        if Reopens state call then call.env.now else state.1.m_lastTime := by
  obtain ⟨here, later⟩ := List.forall_mem_cons.mp accepts.accepted
  have kept : (state.1.reopenAt call.env state.2).1.toLogAppender = state.1.toLogAppender := by
    rw [reopenAt_eq]
    split <;> rfl
  have formatted : (state.1.reopenAt call.env state.2).1.m_formatter = some formatter := by
    rw [kept, accepts.formatted]
  refine ⟨(state.1.reopenAt call.env state.2).1.write
    (formatter.format platform call.level call.event) call.env
    (state.1.reopenAt call.env state.2).2, ?_, ⟨formatted, ?_⟩, ?_⟩
  · rw [FileLogAppender.attempt, log, if_pos here]
    dsimp only
    rw [formatted, Option.map_some]
  · have leveled := congrArg LogAppender.m_level kept
    exact fun other member => leveled.trans_le (later other member)
  · show (state.1.reopenAt call.env state.2).1.m_lastTime = _
    rw [reopenAt_eq]
    split <;> rfl

variable {platform} in
/-- One step of a watched run. -/
theorem stepsMeet_watched {state next : FileLogAppender × Host} {call : Attempt}
    (logged : attempt platform state call = some next) (since : Option UInt64)
    (rest : List Attempt) :
    Transition.StepsMeet (watched platform) OnTime (state, since) (call :: rest) ↔
      OnTime (state, since) call ∧
        Transition.StepsMeet (watched platform) OnTime
          (next, if Reopens state call then some call.env.now else since) rest := by
  have goes : watched platform (state, since) call =
      some (next, if Reopens state call then some call.env.now else since) := by
    rw [watched, logged, Option.map_some]
  exact Transition.stepsMeet_cons goes

/-- Once the file has been reopened, `m_lastTime` is the clock of that call, and every later
call has to be apart from the one before it. -/
theorem throttled_since (calls : List Attempt) : ∀ (state : FileLogAppender × Host),
    Accepts formatter calls state.1 →
    (state.1.m_lastTime :: clocks calls).IsChain (· ≤ ·) →
    (Transition.StepsMeet (watched platform) OnTime (state, some state.1.m_lastTime) calls ↔
      (state.1.m_lastTime :: clocks calls).IsChain Apart) := by
  induction calls with
  | nil => exact fun state _ _ => iff_of_true trivial (List.isChain_singleton _)
  | cons call rest ih =>
    intro state accepts ordered
    obtain ⟨next, logged, accepted, stored⟩ := accepts.attempt platform
    obtain ⟨later, ordered⟩ := List.isChain_cons_cons.mp ordered
    rw [stepsMeet_watched logged, onTime_iff later, clocks, List.map_cons,
      List.isChain_cons_cons]
    refine and_congr_right fun apart => ?_
    have reopens : Reopens state call := by
      rw [Reopens, ne_eq, eq_add_three_iff later]
      exact Nat.ne_of_gt apart
    rw [if_pos reopens] at stored ⊢
    have behind := ih next accepted
    rw [stored] at behind
    exact behind ordered

theorem throttled_iff_spaced (calls : List Attempt) : ∀ (state : FileLogAppender × Host),
    Accepts formatter calls state.1 → (clocks calls).IsChain (· ≤ ·) →
    (Throttled platform state calls ↔ Spaced state.1.m_lastTime (clocks calls)) := by
  induction calls with
  | nil => exact fun state _ _ => iff_of_true trivial List.isChain_nil
  | cons call rest ih =>
    intro state accepts ordered
    obtain ⟨next, logged, accepted, stored⟩ := accepts.attempt platform
    have free : OnTime (state, none) call := by
      rintro since ⟨⟩
    rw [Throttled, stepsMeet_watched logged, and_iff_right free, Spaced, clocks, List.map_cons]
    by_cases reopens : Reopens state call
    · have other : ¬ (call.env.now = state.1.m_lastTime + 3) := reopens
      have behind := throttled_since platform rest next accepted
      rw [if_pos reopens] at stored ⊢
      rw [stored] at behind
      rw [List.dropWhile_cons_of_neg (by simpa using other)]
      exact behind ordered
    · have same : call.env.now = state.1.m_lastTime + 3 := not_not.mp reopens
      have behind := ih next accepted ordered.of_cons
      rw [if_neg reopens] at stored ⊢
      rw [stored] at behind
      rw [List.dropWhile_cons_of_pos (by simpa using same)]
      exact behind

/-- In a run of accepted calls the file is reopened every three seconds exactly if, from the
first call that reopens it on, every call comes more than three seconds after the one before it
(and reopens the file). -/
theorem throttled_iff (platform : Platform) (start : FileLogAppender × Host)
    (calls : List Attempt) (formatted : start.1.m_formatter.isSome)
    (accepted : ∀ call ∈ calls, start.1.m_level ≤ call.level)
    (ordered : (clocks calls).Pairwise (· ≤ ·)) :
    Throttled platform start calls ↔ Spaced start.1.m_lastTime (clocks calls) := by
  obtain ⟨formatter, found⟩ := Option.isSome_iff_exists.mp formatted
  exact throttled_iff_spaced platform calls start ⟨found, accepted⟩ ordered.isChain

/-- Calls at the given seconds. -/
def callsAt (times : List UInt64) : List Attempt := times.map fun now => infoAt now true

theorem throttled_ten_seconds_apart :
    Throttled default (onLogTxt {}, default) (callsAt [10, 20, 30]) :=
  (throttled_iff _ _ _ rfl (by decide) (by decide)).mpr (by decide)

/-- A second call in the same second reopens the file, and one three seconds later does not. -/
theorem not_throttled :
    ¬ Throttled default (onLogTxt {}, default) (callsAt [10, 10]) ∧
      ¬ Throttled default (onLogTxt {}, default) (callsAt [10, 13]) := by
  constructor
  · intro throttled
    have same := (throttled.2 _ rfl).1 10 rfl
    exact absurd (same.mp (by decide)) (by decide)
  · intro throttled
    have same := (throttled.2 _ rfl).1 10 rfl
    exact absurd (same.mpr (by decide)) (by decide)

end Chord.FileLogAppender
