import ChordServer.LogEvent
import ChordServer.LogFormatterGrammar
import Mathlib.Data.List.TakeWhile

set_option autoImplicit false

namespace Chord.LogFormatter

/-- What one round of the outer loop of `init()` takes off the pattern: a character of text, a
directive, or the '%' of a directive whose brace is never closed. -/
inductive Round
  | text (c : Char)
  | directive (name : List Char) (fmt : Option (List Char))
  | unclosed
  deriving DecidableEq, Repr

/-- The rounds that a pattern is read in. -/
def rounds : List Char → List Round
  | [] => []
  | c :: rest =>
      if c ≠ '%' ∨ rest.head? = some '%' then .text c :: rounds rest
      else
        let name := rest.takeWhile isNameChar
        let after := rest.dropWhile isNameChar
        if after.head? ≠ some '{' then .directive name none :: rounds after
        else if '}' ∈ after then
          .directive name (some (after.tail.takeWhile (· ≠ '}'))) ::
            rounds (after.tail.dropWhile (· ≠ '}')).tail
        else .unclosed :: rounds rest
termination_by pattern => pattern.length
decreasing_by
  · exact Nat.lt_succ_self _
  · exact Nat.lt_succ_of_le (List.length_dropWhile_le isNameChar rest)
  · have shorter := List.length_dropWhile_le isNameChar rest
    have inner := List.length_dropWhile_le (· ≠ '}') (rest.dropWhile isNameChar).tail
    rw [List.length_tail] at inner ⊢
    rw [List.length_cons]
    omega
  · exact Nat.lt_succ_self _

/-- The induction over the rounds of a pattern. -/
@[elab_as_elim]
theorem rounds_induction {motive : List Char → Prop} (nil : motive [])
    (text : ∀ c rest, c ≠ '%' ∨ rest.head? = some '%' → motive rest → motive (c :: rest))
    (bare : ∀ name after, (name ++ after).head? ≠ some '%' →
      (∀ c ∈ name, isNameChar c = true) →
      (∀ c ∈ after.head?, isNameChar c = false ∧ c ≠ '{') → motive after →
      motive ('%' :: (name ++ after)))
    (braced : ∀ name fmt after, (name ++ '{' :: (fmt ++ '}' :: after)).head? ≠ some '%' →
      (∀ c ∈ name, isNameChar c = true) → '}' ∉ fmt → motive after →
      motive ('%' :: (name ++ '{' :: (fmt ++ '}' :: after))))
    (unclosed : ∀ name fmt, (name ++ '{' :: fmt).head? ≠ some '%' →
      (∀ c ∈ name, isNameChar c = true) → '}' ∉ fmt → motive (name ++ '{' :: fmt) →
      motive ('%' :: (name ++ '{' :: fmt))) :
    ∀ pattern, motive pattern := by
  intro pattern
  induction size : pattern.length using Nat.strongRecOn generalizing pattern with
  | ind total ih =>
    cases pattern with
    | nil => exact nil
    | cons c rest =>
      rw [List.length_cons] at size
      by_cases plain : c ≠ '%' ∨ rest.head? = some '%'
      · exact text c rest plain (ih rest.length (by omega) rest rfl)
      · obtain ⟨percent, single⟩ := not_or.mp plain
        obtain rfl := not_not.mp percent
        cases directiveBody rest with
        | @bare name after letters stop =>
          refine bare name after single letters stop (ih after.length ?_ after rfl)
          rw [List.length_append] at size
          omega
        | @braced name fmt after letters absent =>
          refine braced name fmt after single letters absent (ih after.length ?_ after rfl)
          simp only [List.length_append, List.length_cons] at size
          omega
        | @unclosed name fmt letters absent =>
          exact unclosed name fmt single letters absent (ih _ (by omega) _ rfl)

@[simp] theorem rounds_nil : rounds [] = [] := by rw [rounds]

theorem rounds_text {c : Char} {rest : List Char} (plain : c ≠ '%' ∨ rest.head? = some '%') :
    rounds (c :: rest) = .text c :: rounds rest := by
  rw [rounds, if_pos plain]

/-- The name ends where the letters do. -/
theorem takeWhile_name {name after : List Char} (letters : ∀ c ∈ name, isNameChar c = true)
    (stop : ∀ c ∈ after.head?, isNameChar c = false) :
    (name ++ after).takeWhile isNameChar = name ∧
      (name ++ after).dropWhile isNameChar = after := by
  rw [List.takeWhile_append_of_pos letters, List.dropWhile_append_of_pos letters]
  cases after with
  | nil => simp
  | cons c after => simp [stop c rfl]

theorem rounds_bare {name after : List Char} (single : (name ++ after).head? ≠ some '%')
    (letters : ∀ c ∈ name, isNameChar c = true)
    (stop : ∀ c ∈ after.head?, isNameChar c = false ∧ c ≠ '{') :
    rounds ('%' :: (name ++ after)) = .directive name none :: rounds after := by
  obtain ⟨taken, left⟩ := takeWhile_name letters fun c first => (stop c first).1
  have bare : after.head? ≠ some '{' := fun first => (stop '{' first).2 rfl
  rw [rounds, if_neg (by simpa using single)]
  simp only [taken, left, bare, ne_eq, not_false_eq_true, ↓reduceIte]

theorem rounds_braced {name fmt after : List Char}
    (single : (name ++ '{' :: (fmt ++ '}' :: after)).head? ≠ some '%')
    (letters : ∀ c ∈ name, isNameChar c = true) (absent : '}' ∉ fmt) :
    rounds ('%' :: (name ++ '{' :: (fmt ++ '}' :: after))) =
      .directive name (some fmt) :: rounds after := by
  obtain ⟨taken, left⟩ := @takeWhile_name name ('{' :: (fmt ++ '}' :: after)) letters
    (by rintro _ ⟨⟩; decide)
  have kept : ∀ c ∈ fmt, (decide (c ≠ '}')) = true := by
    intro c member
    refine decide_eq_true ?_
    rintro rfl
    exact absent member
  rw [rounds, if_neg (by simpa using single)]
  simp only [taken, left, List.head?_cons, ne_eq, not_true_eq_false, ↓reduceIte]
  rw [if_pos (by simp), List.tail_cons, List.takeWhile_append_of_pos kept,
    List.dropWhile_append_of_pos kept]
  simp

theorem rounds_unclosed {name fmt : List Char} (single : (name ++ '{' :: fmt).head? ≠ some '%')
    (letters : ∀ c ∈ name, isNameChar c = true) (absent : '}' ∉ fmt) :
    rounds ('%' :: (name ++ '{' :: fmt)) = .unclosed :: rounds (name ++ '{' :: fmt) := by
  obtain ⟨-, left⟩ := @takeWhile_name name ('{' :: fmt) letters (by rintro _ ⟨⟩; decide)
  rw [rounds, if_neg (by simpa using single)]
  simp only [left, List.head?_cons, ne_eq, not_true_eq_false, ↓reduceIte]
  rw [if_neg (by simpa using absent)]

/-- What a round does to the variables of `init()`. -/
def Init.apply (s : Init) : Round → Init
  | .text c => { s with nstr := s.nstr ++ [c] }
  | .directive name fmt => s.flush.push (name, fmt.getD [], 1)
  | .unclosed => { s with m_error := true }.push ("<<pattern_error>>".toList, [], 0)

/-- A format that is not ended is not stored. -/
theorem scanDirective_fmt_eq {pattern : List Char} {i : Nat} {s : Scan}
    (open_ : (scanDirective pattern i s).fmt_status = 1) :
    (scanDirective pattern i s).fmt = s.fmt := by
  fun_induction scanDirective pattern i s with
  | case1 s inside stop => rfl
  | case2 s inside stop opened ih => exact ih open_
  | case3 s inside stop opened closed => cases open_
  | case4 s inside stop opened closed ih => exact ih open_
  | case5 s outside => rfl

theorem initLoop_escape {pattern rest : List Char} {i : Nat}
    (left : pattern.drop i = '%' :: rest) (double : rest.head? = some '%') (s : Init) :
    initLoop pattern i s = initLoop pattern (i + 1) { s with nstr := s.nstr ++ ['%'] } := by
  obtain ⟨inside, read, after⟩ := read_of_drop left
  have next : pattern[i + 1]? = some '%' := by
    rwa [← after, List.head?_drop] at double
  rw [initLoop]
  simp only [inside, ↓reduceDIte, read, ne_eq, not_true_eq_false, ↓reduceIte, next]

/-- The outer loop of `init()` goes through the rounds of what is left of the pattern. -/
theorem initLoop_eq_rounds {pattern : List Char} (rest : List Char) :
    ∀ (i : Nat) (s : Init), pattern.drop i = rest →
      initLoop pattern i s = (rounds rest).foldl Init.apply s := by
  induction rest using rounds_induction with
  | nil =>
    intro i s left
    rw [initLoop_end left, rounds_nil, List.foldl_nil]
  | text c rest plain ih =>
    intro i s left
    obtain ⟨-, -, after⟩ := read_of_drop left
    rw [rounds_text plain, List.foldl_cons, ← ih (i + 1) _ after]
    by_cases percent : c = '%'
    · subst percent
      exact initLoop_escape left (plain.resolve_left (not_not.mpr rfl)) s
    · exact initLoop_char left percent s
  | bare name after single letters stop ih =>
    intro i s left
    obtain ⟨behind, step⟩ := initLoop_bare left single letters stop s
    rw [rounds_bare single letters stop, List.foldl_cons, step]
    exact ih _ _ behind
  | braced name fmt after single letters absent ih =>
    intro i s left
    obtain ⟨behind, step⟩ := initLoop_braced left single letters absent s
    rw [rounds_braced single letters absent, List.foldl_cons, step]
    exact ih _ _ behind
  | unclosed name fmt single letters absent ih =>
    intro i s left
    obtain ⟨-, after, step⟩ := initLoop_directive left single s
    have open_ := scanDirective_unclosed after letters absent
    rw [rounds_unclosed single letters absent, List.foldl_cons, step]
    simp only [open_, Nat.one_ne_zero, ↓reduceIte, scanDirective_fmt_eq open_]
    exact ih _ _ after

/-- The item that a directive becomes and whether it sets `m_error`. -/
def directiveItem (name : List Char) (fmt : Option (List Char)) : FormatItem × Bool :=
  makeItem (name, fmt.getD [], 1)

/-- The round leaves an error. -/
def Round.fails : Round → Bool
  | .text _ => false
  | .directive name fmt => (directiveItem name fmt).2
  | .unclosed => true

/-- What is printed for the round. -/
def Round.output (platform : Platform) (level : LogLevel) (event : LogEvent) : Round → List Char
  | .text c => [c]
  | .directive name fmt => ((directiveItem name fmt).1.format platform level event).toList
  | .unclosed => "<<pattern_error>>".toList

theorem Round.output_text (platform : Platform) (level : LogLevel) (event : LogEvent) (c : Char) :
    (Round.text c).output platform level event = [c] := rfl

theorem Round.output_directive (platform : Platform) (level : LogLevel) (event : LogEvent)
    (name : List Char) (fmt : Option (List Char)) :
    (Round.directive name fmt).output platform level event =
      ((directiveItem name fmt).1.format platform level event).toList := rfl

/-- No round of the pattern leaves an error. -/
def Accepted (pattern : List Char) : Prop := ∀ round ∈ rounds pattern, round.fails = false

namespace Init

/-- An error has been found, or the last loop will find one. -/
def fails (s : Init) : Bool := s.m_error || s.vec.any fun token => (makeItem token).2

/-- What the tokens and the pending text print. -/
def output (platform : Platform) (level : LogLevel) (event : LogEvent) (s : Init) : List Char :=
  (s.vec.flatMap fun token => ((makeItem token).1.format platform level event).toList) ++ s.nstr

theorem fails_flush (s : Init) : s.flush.fails = s.fails := by
  unfold flush
  split
  · rfl
  · simp [fails, makeItem]

theorem fails_apply (s : Init) (round : Round) :
    (s.apply round).fails = (s.fails || round.fails) := by
  cases round with
  | text c => simp [apply, fails, Round.fails]
  | directive name fmt =>
    rw [← fails_flush s]
    simp [apply, push, fails, Round.fails, directiveItem, Bool.or_assoc]
  | unclosed => simp [apply, push, fails, Round.fails]

variable (platform : Platform) (level : LogLevel) (event : LogEvent)

theorem output_flush (s : Init) :
    s.flush.output platform level event = s.output platform level event ∧ s.flush.nstr = [] := by
  unfold flush
  split
  · rename_i nothing
    exact ⟨rfl, nothing⟩
  · simp [output, makeItem, FormatItem.format]

/-- A token that is pushed with no text pending is printed last. -/
theorem output_push {s : Init} (empty : s.nstr = []) (token : Token) :
    (s.push token).output platform level event =
      s.output platform level event ++
        ((makeItem token).1.format platform level event).toList := by
  simp only [output, push, empty, List.flatMap_append, List.flatMap_cons, List.flatMap_nil,
    List.append_nil]

/-- A round that leaves no error prints behind all that is there. -/
theorem output_apply (s : Init) (round : Round) :
    round.fails = false → (s.apply round).output platform level event =
      s.output platform level event ++ round.output platform level event := by
  cases round with
  | text c =>
    intro _
    simp only [apply, output, Round.output_text, List.append_assoc]
  | directive name fmt =>
    intro _
    obtain ⟨same, empty⟩ := output_flush platform level event s
    rw [← same, apply, output_push platform level event empty, Round.output_directive,
      directiveItem]
  | unclosed =>
    intro fails
    cases fails

theorem fails_foldl (items : List Round) :
    ∀ s : Init, (items.foldl apply s).fails = (s.fails || items.any Round.fails) := by
  induction items with
  | nil => exact fun s => (Bool.or_false _).symm
  | cons round rest ih =>
    intro s
    rw [List.foldl_cons, ih, fails_apply, List.any_cons, Bool.or_assoc]

theorem output_foldl (items : List Round) (accepted : ∀ round ∈ items, round.fails = false) :
    ∀ s : Init, (items.foldl apply s).output platform level event =
      s.output platform level event ++ items.flatMap (Round.output platform level event) := by
  induction items with
  | nil => exact fun s => (List.append_nil _).symm
  | cons round rest ih =>
    intro s
    obtain ⟨here, later⟩ := List.forall_mem_cons.mp accepted
    rw [List.foldl_cons, ih later, output_apply platform level event s round here,
      List.flatMap_cons, List.append_assoc]

end Init

theorem isError_iff_accepted (pattern : String) :
    (⟨pattern⟩ : LogFormatter).isError = false ↔ Accepted pattern.toList := by
  have whole := initLoop_eq_rounds pattern.toList 0 {} List.drop_zero
  have error : (⟨pattern⟩ : LogFormatter).isError = (initLoop pattern.toList 0 {}).flush.fails := by
    simp only [isError, init, Init.fails, flush_m_error]
  have start : Init.fails {} = false := rfl
  rw [error, Init.fails_flush, whole, Init.fails_foldl, start, Bool.false_or,
    List.any_eq_false]
  simp only [Accepted, Bool.not_eq_true]

/-- An accepted pattern prints what its rounds print, in their order. -/
theorem format_of_accepted {pattern : String} (accepted : Accepted pattern.toList)
    (platform : Platform) (level : LogLevel) (event : LogEvent) :
    ((⟨pattern⟩ : LogFormatter).format platform level event).toList =
      (rounds pattern.toList).flatMap (Round.output platform level event) := by
  have whole := initLoop_eq_rounds pattern.toList 0 {} List.drop_zero
  have printed := Init.output_foldl platform level event (rounds pattern.toList) accepted {}
  obtain ⟨same, empty⟩ := Init.output_flush platform level event (initLoop pattern.toList 0 {})
  rw [← whole, ← same, Init.output, empty, List.append_nil] at printed
  simp only [LogFormatter.format, String.toList_join, m_items, init, List.flatMap_map]
  exact printed

/-- The rounds of an accepted pattern stay when a directive or an escape follows. -/
theorem rounds_append {first : List Char} (second : List Char)
    (percent : second.head? = some '%') :
    Accepted first → rounds (first ++ second) = rounds first ++ rounds second := by
  induction first using rounds_induction with
  | nil => exact fun _ => by rw [List.nil_append, rounds_nil, List.nil_append]
  | text c rest plain ih =>
    intro accepted
    rw [Accepted, rounds_text plain, List.forall_mem_cons] at accepted
    have still : c ≠ '%' ∨ (rest ++ second).head? = some '%' := by
      refine plain.imp_right fun double => ?_
      rw [List.head?_append, double, Option.some_or]
    rw [List.cons_append, rounds_text still, rounds_text plain, ih accepted.2, List.cons_append]
  | bare name after single letters stop ih =>
    intro accepted
    rw [Accepted, rounds_bare single letters stop, List.forall_mem_cons] at accepted
    have nonempty : name ≠ [] := by
      rintro rfl
      exact absurd accepted.1 (by decide)
    have still : (name ++ (after ++ second)).head? ≠ some '%' := by
      obtain ⟨c, tail, rfl⟩ := List.exists_cons_of_ne_nil nonempty
      exact single
    have stops : ∀ c ∈ (after ++ second).head?, isNameChar c = false ∧ c ≠ '{' := by
      cases after with
      | nil =>
        rw [List.nil_append, percent]
        rintro _ ⟨⟩
        decide
      | cons c after => exact stop
    rw [List.cons_append, List.append_assoc, rounds_bare still letters stops,
      rounds_bare single letters stop, ih accepted.2, List.cons_append]
  | braced name fmt after single letters absent ih =>
    intro accepted
    rw [Accepted, rounds_braced single letters absent, List.forall_mem_cons] at accepted
    have shape : '%' :: (name ++ '{' :: (fmt ++ '}' :: after)) ++ second =
        '%' :: (name ++ '{' :: (fmt ++ '}' :: (after ++ second))) := by simp
    have still : (name ++ '{' :: (fmt ++ '}' :: (after ++ second))).head? ≠ some '%' := by
      cases name <;> exact single
    rw [shape, rounds_braced still letters absent, rounds_braced single letters absent,
      ih accepted.2, List.cons_append]
  | unclosed name fmt single letters absent ih =>
    intro accepted
    rw [Accepted, rounds_unclosed single letters absent, List.forall_mem_cons] at accepted
    cases accepted.1

end Chord.LogFormatter
