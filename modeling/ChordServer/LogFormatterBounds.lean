import ChordServer.LogFormatterScan
import Mathlib.Logic.Relation
import Mathlib.Tactic.SplitIfs

set_option autoImplicit false

namespace Chord.LogFormatter

/-- What the scanner must not do: read behind the pattern, call `substr` with a position behind
its end, which throws `std::out_of_range`, or take a `size_t` below zero. -/
inductive Fault
  | read (index : Nat)
  | outOfRange (pos : Nat)
  | wrap (left right : Nat)
  deriving DecidableEq, Repr

/-- `m_pattern[index]`. -/
def charAt (pattern : List Char) (index : Nat) : Except Fault Char :=
  match pattern[index]? with
  | some c => .ok c
  | none => .error (.read index)

/-- `m_pattern.substr(pos, len)`. -/
def substrAt (pattern : List Char) (pos len : Nat) : Except Fault (List Char) :=
  if pos ≤ pattern.length then .ok (substr pattern pos len) else .error (.outOfRange pos)

/-- `m_pattern.substr(pos)`. -/
def substrFrom (pattern : List Char) (pos : Nat) : Except Fault (List Char) :=
  if pos ≤ pattern.length then .ok (pattern.drop pos) else .error (.outOfRange pos)

/-- `left - right` of two `size_t`. -/
def minus (left right : Nat) : Except Fault Nat :=
  if right ≤ left then .ok (left - right) else .error (.wrap left right)

/-- Where `init()` stands: at the head of the outer loop, at the head of the inner loop, behind
it, or behind both. -/
inductive Point
  | outer (i : Nat) (s : Init)
  | inner (i : Nat) (s : Init) (d : Scan)
  | after (i : Nat) (s : Init) (d : Scan)
  | done (s : Init)

/-- To the next point, with every access and every subtraction checked. -/
def step (pattern : List Char) : Point → Except Fault (Option Point)
  | .outer i s =>
      if i < pattern.length then do
        let c ← charAt pattern i
        if c ≠ '%' then return some (.outer (i + 1) { s with nstr := s.nstr ++ [c] })
        else if i + 1 < pattern.length then do
          let next ← charAt pattern (i + 1)
          if next = '%' then return some (.outer (i + 1) { s with nstr := s.nstr ++ ['%'] })
          else return some (.inner i s { n := i + 1 })
        else return some (.inner i s { n := i + 1 })
      else return some (.done s)
  | .inner i s d =>
      if d.n < pattern.length then do
        let c ← charAt pattern d.n
        if d.fmt_status = 0 ∧ ¬ c.isAlpha ∧ c ≠ '{' ∧ c ≠ '}' then do
          let behind ← minus d.n i
          let len ← minus behind 1
          let str ← substrAt pattern (i + 1) len
          return some (.after i s { d with str := str })
        else if d.fmt_status = 0 ∧ c = '{' then do
          let behind ← minus d.n i
          let len ← minus behind 1
          let str ← substrAt pattern (i + 1) len
          return some (.inner i s
            { d with str := str, fmt_status := 1, fmt_begin := d.n, n := d.n + 1 })
        else if d.fmt_status = 1 ∧ c = '}' then do
          let behind ← minus d.n d.fmt_begin
          let len ← minus behind 1
          let fmt ← substrAt pattern (d.fmt_begin + 1) len
          return some (.after i s { d with fmt := fmt, fmt_status := 0, n := d.n + 1 })
        else if d.n + 1 = pattern.length ∧ d.str = [] then do
          let str ← substrFrom pattern (i + 1)
          return some (.inner i s { d with n := d.n + 1, str := str })
        else return some (.inner i s { d with n := d.n + 1 })
      else return some (.after i s d)
  | .after i s d =>
      if d.fmt_status = 0 then do
        let last ← minus d.n 1
        return some (.outer (last + 1) (s.flush.push (d.str, d.fmt, 1)))
      else if d.fmt_status = 1 then do
        let _ ← substrFrom pattern i
        return some (.outer (i + 1)
          ({ s with m_error := true }.push ("<<pattern_error>>".toList, d.fmt, 0)))
      else if d.fmt_status = 2 then do
        let last ← minus d.n 1
        return some (.outer (last + 1) (s.flush.push (d.str, d.fmt, 1)))
      else return some (.outer (i + 1) s)
  | .done _ => return none

theorem charAt_of_lt {pattern : List Char} {index : Nat} (inside : index < pattern.length) :
    charAt pattern index = .ok pattern[index] := by
  rw [charAt, List.getElem?_eq_getElem inside]

theorem substrAt_of_le {pattern : List Char} {pos : Nat} (inside : pos ≤ pattern.length)
    (len : Nat) : substrAt pattern pos len = .ok (substr pattern pos len) := if_pos inside

theorem substrFrom_of_le {pattern : List Char} {pos : Nat} (inside : pos ≤ pattern.length) :
    substrFrom pattern pos = .ok (pattern.drop pos) := if_pos inside

theorem minus_of_le {left right : Nat} (le : right ≤ left) :
    minus left right = .ok (left - right) := if_pos le

theorem ok_bind {α β : Type} (value : α) (next : α → Except Fault β) :
    (Except.ok value >>= next) = next value := rfl

/-- The variables of the inner loop keep within the pattern. -/
structure Inside (pattern : List Char) (i : Nat) (d : Scan) : Prop where
  outer : i < pattern.length
  above : i + 1 ≤ d.n
  bound : d.n ≤ pattern.length
  status : d.fmt_status = 0 ∨ (d.fmt_status = 1 ∧ i + 1 ≤ d.fmt_begin ∧ d.fmt_begin < d.n)

/-- The length of the part from behind `left` up to `right`. -/
theorem length_checked {α : Type} {left right : Nat} (above : left + 1 ≤ right)
    (next : Nat → Except Fault α) :
    (do
      let behind ← minus right left
      let len ← minus behind 1
      next len) = next (right - left - 1) := by
  rw [minus_of_le (by omega), ok_bind, minus_of_le (by omega), ok_bind]

/-- The inner loop ends, or goes on with the same result. -/
theorem step_inner {pattern : List Char} {i : Nat} {d : Scan} (inside : Inside pattern i d)
    (s : Init) :
    (step pattern (.inner i s d) = .ok (some (.after i s (scanDirective pattern i d))) ∧
        Inside pattern i (scanDirective pattern i d)) ∨
      ∃ next, step pattern (.inner i s d) = .ok (some (.inner i s next)) ∧
        Inside pattern i next ∧ scanDirective pattern i d = scanDirective pattern i next ∧
        d.n < next.n := by
  obtain ⟨outer, above, bound, status⟩ := inside
  rw [step, scanDirective]
  by_cases within : d.n < pattern.length
  · have goes : ∀ str, Inside pattern i { d with n := d.n + 1, str := str } := fun str =>
      ⟨outer, Nat.le_succ_of_le above, within,
        status.imp_right fun both => ⟨both.1, both.2.1, Nat.lt_succ_of_lt both.2.2⟩⟩
    rw [if_pos within, dif_pos within, charAt_of_lt within, ok_bind]
    split_ifs with ends opens closes last
    · left
      rw [length_checked above, substrAt_of_le outer, ok_bind]
      exact ⟨rfl, outer, above, bound, .inl ends.1⟩
    · right
      rw [length_checked above, substrAt_of_le outer, ok_bind]
      exact ⟨_, rfl,
        ⟨outer, Nat.le_succ_of_le above, within, .inr ⟨rfl, above, Nat.lt_succ_self _⟩⟩,
        rfl, Nat.lt_succ_self _⟩
    · left
      obtain ⟨start, started⟩ := (status.resolve_left fun none => by omega).2
      rw [length_checked started, substrAt_of_le (by omega), ok_bind]
      exact ⟨rfl, outer, Nat.le_succ_of_le above, within, .inl rfl⟩
    · right
      rw [substrFrom_of_le outer, ok_bind]
      exact ⟨_, rfl, goes _, rfl, Nat.lt_succ_self _⟩
    · right
      exact ⟨_, rfl, goes _, rfl, Nat.lt_succ_self _⟩
  · left
    rw [if_neg within, dif_neg within]
    exact ⟨rfl, outer, above, bound, status⟩

/-- What `init()` does with a directive that has been read, up to the end. -/
def leave (pattern : List Char) (i : Nat) (s : Init) (d : Scan) : Init :=
  if d.fmt_status = 0 then initLoop pattern (d.n - 1 + 1) (s.flush.push (d.str, d.fmt, 1))
  else if d.fmt_status = 1 then
    initLoop pattern (i + 1)
      ({ s with m_error := true }.push ("<<pattern_error>>".toList, d.fmt, 0))
  else if d.fmt_status = 2 then
    initLoop pattern (d.n - 1 + 1) (s.flush.push (d.str, d.fmt, 1))
  else initLoop pattern (i + 1) s

/-- Behind the inner loop the outer index grows, and stays within the pattern. -/
theorem step_after {pattern : List Char} {i : Nat} {d : Scan} (inside : Inside pattern i d)
    (s : Init) :
    ∃ j t, step pattern (.after i s d) = .ok (some (.outer j t)) ∧ i < j ∧ j ≤ pattern.length ∧
      leave pattern i s d = initLoop pattern j t := by
  obtain ⟨outer, above, bound, status⟩ := inside
  rw [step, leave]
  split_ifs with zero one two
  · rw [minus_of_le (by omega), ok_bind]
    exact ⟨_, _, rfl, by omega, by omega, rfl⟩
  · rw [substrFrom_of_le (Nat.le_of_lt outer), ok_bind]
    exact ⟨_, _, rfl, Nat.lt_succ_self i, outer, rfl⟩
  · omega
  · omega

/-- The outer loop takes a character, or starts the inner loop, or ends. -/
theorem step_outer (pattern : List Char) (i : Nat) (s : Init) :
    (i < pattern.length ∧ ∃ t, step pattern (.outer i s) = .ok (some (.outer (i + 1) t)) ∧
        initLoop pattern i s = initLoop pattern (i + 1) t) ∨
      (step pattern (.outer i s) = .ok (some (.inner i s { n := i + 1 })) ∧
        Inside pattern i { n := i + 1 } ∧
        initLoop pattern i s = leave pattern i s (scanDirective pattern i { n := i + 1 })) ∨
      (step pattern (.outer i s) = .ok (some (.done s)) ∧ initLoop pattern i s = s) := by
  rw [step, initLoop]
  by_cases inside : i < pattern.length
  · rw [if_pos inside, dif_pos inside, charAt_of_lt inside, ok_bind]
    have starts : Inside pattern i { n := i + 1 } :=
      ⟨inside, Nat.le_refl _, inside, .inl rfl⟩
    split_ifs with other next double double
    · exact .inl ⟨inside, _, rfl, rfl⟩
    · have second : charAt pattern (i + 1) = .ok '%' := by rw [charAt, double]
      rw [second, ok_bind]
      exact .inl ⟨inside, _, rfl, rfl⟩
    · have second : pattern[i + 1] ≠ '%' := by
        rw [List.getElem?_eq_getElem next] at double
        exact fun same => double (congrArg some same)
      rw [charAt_of_lt next, ok_bind, if_neg second]
      exact .inr (.inl ⟨rfl, starts, rfl⟩)
    · obtain ⟨there, -⟩ := List.getElem?_eq_some_iff.mp double
      exact absurd there next
    · exact .inr (.inl ⟨rfl, starts, rfl⟩)
  · exact .inr (.inr ⟨by rw [if_neg inside]; rfl, by rw [dif_neg inside]⟩)

/-- One step that raises no fault. -/
def Goes (pattern : List Char) (first second : Point) : Prop :=
  step pattern first = .ok (some second)

/-- The points that `init()` comes to. -/
def Reached (pattern : List Char) : Point → Prop :=
  Relation.ReflTransGen (Goes pattern) (.outer 0 {})

/-- The inner loop terminates with the directive. -/
theorem inner_terminates {pattern : List Char} {i : Nat} (s : Init) (d : Scan)
    (inside : Inside pattern i d) :
    Inside pattern i (scanDirective pattern i d) ∧
      Relation.ReflTransGen (Goes pattern) (.inner i s d)
        (.after i s (scanDirective pattern i d)) := by
  induction remaining : pattern.length - d.n using Nat.strongRecOn generalizing d with
  | ind left ih =>
    rcases step_inner inside s with ⟨ends, there⟩ | ⟨next, goes, there, same, further⟩
    · exact ⟨there, .single ends⟩
    · have bound := there.bound
      obtain ⟨last, behind⟩ := ih (pattern.length - next.n) (by omega) next there rfl
      rw [same]
      exact ⟨last, behind.head goes⟩

/-- The outer loop terminates with the result of `initLoop`. -/
theorem outer_terminates (pattern : List Char) (i : Nat) (s : Init) :
    Relation.ReflTransGen (Goes pattern) (.outer i s) (.done (initLoop pattern i s)) := by
  induction remaining : pattern.length - i using Nat.strongRecOn generalizing i s with
  | ind left ih =>
    rcases step_outer pattern i s with ⟨inside, t, goes, same⟩ | ⟨goes, inside, same⟩ | ⟨ends, same⟩
    · rw [same]
      exact (ih _ (by omega) (i + 1) t rfl).head goes
    · have outer := inside.outer
      obtain ⟨there, read⟩ := inner_terminates s _ inside
      obtain ⟨j, t, leaves, further, bounded, result⟩ := step_after there s
      have later : Relation.ReflTransGen (Goes pattern) (.after i s _) _ :=
        (ih _ (by omega) j t rfl).head leaves
      rw [same, result]
      exact (read.trans later).head goes
    · rw [same]
      exact .single ends

/-- The indices at a point are within the pattern. -/
def Point.Within (pattern : List Char) : Point → Prop
  | .outer i _ => i ≤ pattern.length
  | .inner i _ d => Inside pattern i d
  | .after i _ d => Inside pattern i d
  | .done _ => True

/-- The least index that the outer loop can still have. -/
def Point.least (pattern : List Char) : Point → Nat
  | .outer i _ => i
  | .inner i _ _ => i + 1
  | .after i _ _ => i + 1
  | .done _ => pattern.length + 1

/-- The least index behind the point, when the outer loop has gone on. -/
def Point.next (pattern : List Char) : Point → Nat
  | .outer i _ => i + 1
  | point => point.least pattern

/-- Every point within the pattern is left without a fault, to a point within the pattern. -/
theorem step_within {pattern : List Char} {point : Point} (within : point.Within pattern) :
    (∃ s, point = .done s ∧ step pattern point = .ok none) ∨
      ∃ next, step pattern point = .ok (some next) ∧ next.Within pattern ∧
        point.next pattern ≤ next.least pattern := by
  cases point with
  | outer i s =>
    right
    rcases step_outer pattern i s with ⟨inside, t, goes, -⟩ | ⟨goes, inside, -⟩ | ⟨ends, -⟩
    · exact ⟨_, goes, inside, Nat.le_refl _⟩
    · exact ⟨_, goes, inside, Nat.le_refl _⟩
    · exact ⟨_, ends, trivial, Nat.succ_le_succ within⟩
  | inner i s d =>
    right
    rcases step_inner within s with ⟨ends, there⟩ | ⟨next, goes, there, -, -⟩
    · exact ⟨_, ends, there, Nat.le_refl _⟩
    · exact ⟨_, goes, there, Nat.le_refl _⟩
  | after i s d =>
    right
    obtain ⟨j, t, goes, further, bounded, -⟩ := step_after within s
    exact ⟨_, goes, bounded, further⟩
  | done s => exact .inl ⟨s, rfl, rfl⟩

theorem within_of_goes {pattern : List Char} {first second : Point}
    (within : first.Within pattern) (goes : Goes pattern first second) :
    second.Within pattern ∧ first.next pattern ≤ second.least pattern := by
  rcases step_within within with ⟨s, -, ends⟩ | ⟨next, step, there, least⟩
  · exact absurd (goes.symm.trans ends) (by simp)
  · obtain rfl := Option.some.inj (Except.ok.inj (goes.symm.trans step))
    exact ⟨there, least⟩

theorem least_le_next (pattern : List Char) (point : Point) :
    point.least pattern ≤ point.next pattern := by
  cases point <;> simp [Point.least, Point.next]

theorem within_of_reached {pattern : List Char} {point : Point} (reached : Reached pattern point) :
    point.Within pattern := by
  induction reached with
  | refl => exact Nat.zero_le _
  | tail _ goes ih => exact (within_of_goes ih goes).1

/-- Over any number of steps the outer index grows. -/
theorem next_le_least {pattern : List Char} {first second : Point}
    (within : first.Within pattern) (further : Relation.TransGen (Goes pattern) first second) :
    second.Within pattern ∧ first.next pattern ≤ second.least pattern := by
  induction further with
  | single goes => exact within_of_goes within goes
  | tail _ goes ih =>
    obtain ⟨there, least⟩ := within_of_goes ih.1 goes
    exact ⟨there, Nat.le_trans ih.2 (Nat.le_trans (least_le_next pattern _) least)⟩

/-- `init()` terminates with the result of `initLoop` on every pattern. At every point on the
way its next step reads within the pattern, takes substrings of it and subtracts without
wrapping, its indices are within the pattern, and the outer index grows from one iteration to
the next. -/
theorem scanner_within_bounds (pattern : List Char) :
    Reached pattern (.done (initLoop pattern 0 {})) ∧
      (∀ point, Reached pattern point →
        point.Within pattern ∧ ∀ fault, step pattern point ≠ .error fault) ∧
      ∀ i s j t, Reached pattern (.outer i s) →
        Relation.TransGen (Goes pattern) (.outer i s) (.outer j t) → i < j := by
  refine ⟨outer_terminates pattern 0 {}, fun point reached => ?_,
    fun i s j t reached further => ?_⟩
  · have within := within_of_reached reached
    refine ⟨within, fun fault failed => ?_⟩
    rcases step_within within with ⟨s, -, ends⟩ | ⟨next, goes, -⟩
    · exact absurd (failed.symm.trans ends) (by simp)
    · exact absurd (failed.symm.trans goes) (by simp)
  · exact (next_le_least (within_of_reached reached) further).2

/-- From the '%' of the malformed "%{" the scanner comes back to the outer index 1, where it goes
on within the pattern. -/
theorem scanner_within_bounds_open :
    ∃ i j s t, (i, j) = (0, 1) ∧
      Relation.TransGen (Goes "%\x7b".toList) (.outer i s) (.outer j t) ∧ i < j ∧
      (Point.outer j t).Within "%\x7b".toList ∧
      ∀ fault, step "%\x7b".toList (.outer j t) ≠ .error fault := by
  obtain ⟨-, checked, grows⟩ := scanner_within_bounds "%\x7b".toList
  have opens : Goes "%\x7b".toList (.outer 0 {}) (.inner 0 {} { n := 1 }) := rfl
  have brace : Goes "%\x7b".toList (.inner 0 {} { n := 1 })
      (.inner 0 {} { n := 2, fmt_status := 1, fmt_begin := 1 }) := rfl
  have ends : Goes "%\x7b".toList (.inner 0 {} { n := 2, fmt_status := 1, fmt_begin := 1 })
      (.after 0 {} { n := 2, fmt_status := 1, fmt_begin := 1 }) := rfl
  have marked : Goes "%\x7b".toList (.after 0 {} { n := 2, fmt_status := 1, fmt_begin := 1 })
      (.outer 1 { vec := [("<<pattern_error>>".toList, [], 0)], m_error := true }) := rfl
  have back : Relation.TransGen (Goes "%\x7b".toList) (.outer 0 {}) (.outer 1 _) :=
    .tail (.tail (.tail (.single opens) brace) ends) marked
  exact ⟨0, 1, {}, _, rfl, back, grows 0 {} 1 _ .refl back, checked _ back.to_reflTransGen⟩

end Chord.LogFormatter
