import ChordServer.LogFormatterRounds
import Mathlib.Data.List.Chain

set_option autoImplicit false

namespace Chord.LogFormatter

/-- The text with every escape `%%` read as one '%'. -/
def unescape : List Char → List Char
  | '%' :: '%' :: rest => '%' :: unescape rest
  | c :: rest => c :: unescape rest
  | [] => []

/-- The part of the pattern that a round takes off. -/
def Round.spelled : Round → List Char
  | .text c => [c]
  | .directive name fmt => (Segment.directive name fmt).render
  | .unclosed => ['%']

/-- What an item stands for: literal text, the directive whose '%' is at `start`, or the
directive whose '%' is at `start` and whose brace is never closed. -/
inductive Origin
  | literal
  | directive (start : Nat) (name : List Char) (fmt : Option (List Char))
  | unclosed (start : Nat)
  deriving DecidableEq, Repr

/-- What is flushed of the pending text. -/
def pendingEntry (nstr : List Char) : List (Token × Origin) :=
  if nstr = [] then [] else [((nstr, [], 0), .literal)]

/-- The entries of `vec`, each with its origin, from the position `i` on. -/
def entries (i : Nat) (nstr : List Char) : List Round → List (Token × Origin)
  | [] => pendingEntry nstr
  | .text c :: rest => entries (i + 1) (nstr ++ [c]) rest
  | .directive name fmt :: rest =>
      pendingEntry nstr ++ ((name, fmt.getD [], 1), .directive i name fmt) ::
        entries (i + (Round.directive name fmt).spelled.length) [] rest
  | .unclosed :: rest =>
      (("<<pattern_error>>".toList, [], 0), .unclosed i) :: entries (i + 1) nstr rest

/-- The items of a pattern, each with its origin. -/
def items (pattern : List Char) : List (FormatItem × Origin) :=
  (entries 0 [] (rounds pattern)).map fun entry => ((makeItem entry.1).1, entry.2)

/-- The interval of an item: a literal item has the unescaped text of its interval, the
interval of a directive is the directive, and that of a marker starts at its '%'. -/
def Covers (pattern : List Char) : FormatItem × Origin → Nat × Nat → Prop
  | (item, .literal), (first, last) =>
      item = .string (String.ofList (unescape (substr pattern first (last - first))))
  | (item, .directive start name fmt), (first, last) =>
      first = start ∧ substr pattern first (last - first) = (Round.directive name fmt).spelled ∧
        item = (directiveItem name fmt).1
  | (item, .unclosed start), (first, _) =>
      first = start ∧ (rounds (pattern.drop start)).head? = some .unclosed ∧
        item = .string "<<pattern_error>>"

/-- Intervals of a pattern that follow each other, from `floor` on. -/
def Ascending (size : Nat) : Nat → List (Nat × Nat) → Prop
  | _, [] => True
  | floor, (first, last) :: rest =>
      floor ≤ first ∧ first < last ∧ last ≤ size ∧ Ascending size last rest

/-- The items keep the order of the pattern. -/
def InOrder (pattern : List Char) : Prop :=
  ∃ spans, List.Forall₂ (Covers pattern) (items pattern) spans ∧
    Ascending pattern.length 0 spans

/-- Behind a text whose last character is `last`: no two escapes stand behind each other, and
no unclosed brace stands behind text. -/
def Orderly : Option Char → List Round → Prop
  | _, [] => True
  | last, .text c :: rest => ¬ (last = some '%' ∧ c = '%') ∧ Orderly (some c) rest
  | _, .directive _ _ :: rest => Orderly none rest
  | last, .unclosed :: rest => last = none ∧ Orderly none rest

/-- A round takes its own characters off the pattern. -/
theorem rounds_cons {pattern : List Char} {round : Round} {rest : List Round}
    (read : rounds pattern = round :: rest) :
    ∃ behind, pattern = round.spelled ++ behind ∧ rounds behind = rest := by
  induction pattern using rounds_induction with
  | nil =>
    rw [rounds_nil] at read
    cases read
  | text c behind plain _ =>
    rw [rounds_text plain, List.cons.injEq] at read
    obtain ⟨rfl, rfl⟩ := read
    exact ⟨behind, rfl, rfl⟩
  | bare name behind single letters stop _ =>
    rw [rounds_bare single letters stop, List.cons.injEq] at read
    obtain ⟨rfl, rfl⟩ := read
    exact ⟨behind, rfl, rfl⟩
  | braced name fmt behind single letters absent _ =>
    rw [rounds_braced single letters absent, List.cons.injEq] at read
    obtain ⟨rfl, rfl⟩ := read
    exact ⟨behind, by simp [Round.spelled, Segment.render], rfl⟩
  | unclosed name fmt single letters absent _ =>
    rw [rounds_unclosed single letters absent, List.cons.injEq] at read
    obtain ⟨rfl, rfl⟩ := read
    exact ⟨name ++ '{' :: fmt, rfl, rfl⟩

theorem rounds_eq_nil {pattern : List Char} (read : rounds pattern = []) : pattern = [] := by
  cases pattern with
  | nil => rfl
  | cons c rest =>
    rw [rounds] at read
    dsimp only at read
    split_ifs at read

/-- The position behind a round. -/
theorem rounds_drop {pattern : List Char} {i : Nat} {round : Round} {rest : List Round}
    (read : rounds (pattern.drop i) = round :: rest) (bound : i ≤ pattern.length) :
    substr pattern i round.spelled.length = round.spelled ∧
      i + round.spelled.length ≤ pattern.length ∧
      rounds (pattern.drop (i + round.spelled.length)) = rest := by
  obtain ⟨behind, shape, later⟩ := rounds_cons read
  have size := length_of_drop bound shape
  rw [List.length_append] at size
  refine ⟨by rw [substr, shape, List.take_left], by omega, ?_⟩
  rw [← List.drop_drop, shape, List.drop_left, later]

theorem flush_entries (s : Init) :
    s.flush.vec = s.vec ++ (pendingEntry s.nstr).map Prod.fst ∧ s.flush.nstr = [] := by
  unfold Init.flush pendingEntry
  split
  · rename_i nothing
    exact ⟨by simp, nothing⟩
  · exact ⟨rfl, rfl⟩

/-- Without their origins the entries are those that `init()` builds. -/
theorem entries_erase (todo : List Round) : ∀ (i : Nat) (s : Init),
    (todo.foldl Init.apply s).flush.vec = s.vec ++ (entries i s.nstr todo).map Prod.fst := by
  induction todo with
  | nil => exact fun i s => (flush_entries s).1
  | cons round rest ih =>
    intro i s
    rw [List.foldl_cons]
    cases round with
    | text c => exact ih (i + 1) _
    | directive name fmt =>
      obtain ⟨pushed, empty⟩ := flush_entries s
      rw [ih (i + (Round.directive name fmt).spelled.length) (s.apply (.directive name fmt))]
      simp only [Init.apply, Init.push, entries, pushed, empty, List.map_append, List.map_cons,
        List.append_assoc, List.cons_append, List.nil_append]
    | unclosed =>
      rw [ih (i + 1) (s.apply .unclosed)]
      simp only [Init.apply, Init.push, entries, List.map_cons, List.append_assoc,
        List.cons_append, List.nil_append]

theorem items_erase (pattern : String) :
    (items pattern.toList).map Prod.fst = m_items ⟨pattern⟩ := by
  have built := entries_erase (rounds pattern.toList) 0 {}
  rw [← initLoop_eq_rounds pattern.toList 0 {} List.drop_zero, List.nil_append] at built
  rw [m_items, init, items, List.map_map]
  dsimp only
  rw [built, List.map_map]
  rfl

/-- No two '%' of the text stand behind each other. -/
def NoPair (text : List Char) : Prop := text.IsChain fun c d => ¬ (c = '%' ∧ d = '%')

theorem noPair_append (text : List Char) (c : Char) :
    NoPair (text ++ [c]) ↔ NoPair text ∧ ¬ (text.getLast? = some '%' ∧ c = '%') := by
  rw [NoPair, List.isChain_append, ← NoPair]
  refine and_congr_right fun _ => ⟨fun apart both => ?_, fun apart => ⟨.singleton c, ?_⟩⟩
  · exact apart.2 '%' both.1 c rfl ⟨rfl, both.2⟩
  · rintro last found _ ⟨⟩ both
    obtain rfl := both.1
    exact apart ⟨found, both.2⟩

theorem unescape_length_le (text : List Char) : (unescape text).length ≤ text.length := by
  fun_induction unescape text with
  | case1 rest ih => simp only [List.length_cons]; omega
  | case2 c rest single ih => simpa only [List.length_cons, Nat.add_le_add_iff_right] using ih
  | case3 => exact Nat.le_refl _

theorem unescape_of_noPair (text : List Char) : NoPair text → unescape text = text := by
  fun_induction unescape text with
  | case1 rest ih =>
    intro unpaired
    exact absurd ⟨rfl, rfl⟩ (List.isChain_cons_cons.mp unpaired).1
  | case2 c rest single ih => exact fun unpaired => congrArg _ (ih unpaired.of_cons)
  | case3 => exact fun _ => rfl

/-- A text that keeps its length has no escape in it. -/
theorem noPair_of_length (text : List Char) :
    (unescape text).length = text.length → NoPair text := by
  fun_induction unescape text with
  | case1 rest ih =>
    intro same
    have shorter := unescape_length_le rest
    simp only [List.length_cons] at same
    omega
  | case2 c rest single ih =>
    intro same
    have later := ih (Nat.succ.inj same)
    cases rest with
    | nil => exact List.isChain_singleton c
    | cons d rest =>
      refine List.isChain_cons_cons.mpr ⟨?_, later⟩
      rintro ⟨rfl, rfl⟩
      exact single rest rfl rfl
  | case3 => exact fun _ => List.isChain_nil

/-- The item of an entry, with its origin. -/
def built (entry : Token × Origin) : FormatItem × Origin := ((makeItem entry.1).1, entry.2)

theorem length_substr {pattern : List Char} {first last : Nat} (bound : last ≤ pattern.length) :
    (substr pattern first (last - first)).length = last - first := by
  rw [substr, List.length_take, List.length_drop]
  omega

theorem substr_succ {pattern rest : List Char} {c : Char} {first i : Nat} (start : first ≤ i)
    (left : pattern.drop i = c :: rest) :
    substr pattern first (i + 1 - first) = substr pattern first (i - first) ++ [c] := by
  obtain ⟨inside, read, -⟩ := read_of_drop left
  have behind : (pattern.drop first)[i - first]? = some c := by
    rw [List.getElem?_drop, show first + (i - first) = i by omega,
      List.getElem?_eq_getElem inside, read]
  rw [substr, show i + 1 - first = i - first + 1 by omega, List.take_add_one, behind]
  rfl

/-- The pending text is all that stands between `floor` and `i`, each '%' of it for itself. -/
structure Pending (pattern : List Char) (floor i : Nat) (nstr : List Char) : Prop where
  start : floor ≤ i
  bound : i ≤ pattern.length
  text : nstr = substr pattern floor (i - floor)
  noPair : NoPair nstr

theorem Pending.nothing {pattern : List Char} {i : Nat} (bound : i ≤ pattern.length) :
    Pending pattern i i [] where
  start := Nat.le_refl i
  bound := bound
  text := by rw [Nat.sub_self, substr, List.take_zero]
  noPair := List.isChain_nil

/-- The flushed text has the interval it stands in. -/
theorem Pending.flush {pattern nstr : List Char} {floor i : Nat}
    (pending : Pending pattern floor i nstr) {entries : List (Token × Origin)}
    {spans : List (Nat × Nat)} (covers : List.Forall₂ (Covers pattern) (entries.map built) spans)
    (ascending : Ascending pattern.length i spans) :
    ∃ spans, List.Forall₂ (Covers pattern) ((pendingEntry nstr ++ entries).map built) spans ∧
      Ascending pattern.length floor spans := by
  have size := @length_substr pattern floor i pending.bound
  rw [← pending.text] at size
  unfold pendingEntry
  split
  · rename_i nothing
    rw [nothing, List.length_nil] at size
    obtain rfl : floor = i := Nat.le_antisymm pending.start (by omega)
    exact ⟨spans, covers, ascending⟩
  · rename_i text
    have positive := List.length_pos_iff.mpr text
    refine ⟨(floor, i) :: spans, .cons ?_ covers, Nat.le_refl _, by omega, pending.bound,
      ascending⟩
    show FormatItem.string (String.ofList nstr) = _
    rw [← pending.text, unescape_of_noPair nstr pending.noPair]

/-- The intervals of an orderly pattern. The pending text carries the induction. -/
theorem spans_of_orderly {pattern : List Char} (todo : List Round) :
    ∀ (floor i : Nat) (nstr : List Char), rounds (pattern.drop i) = todo →
      Pending pattern floor i nstr → Orderly nstr.getLast? todo →
      ∃ spans, List.Forall₂ (Covers pattern) ((entries i nstr todo).map built) spans ∧
        Ascending pattern.length floor spans := by
  induction todo with
  | nil =>
    intro floor i nstr read pending orderly
    obtain ⟨spans, covers, ascending⟩ := @Pending.flush _ _ _ _ pending [] [] .nil trivial
    rw [List.append_nil] at covers
    exact ⟨spans, covers, ascending⟩
  | cons round rest ih =>
    intro floor i nstr read pending orderly
    obtain ⟨own, bound, later⟩ := rounds_drop read pending.bound
    cases round with
    | text c =>
      obtain ⟨behind, shape, -⟩ := rounds_cons read
      refine ih floor (i + 1) (nstr ++ [c]) later ⟨?_, bound, ?_, ?_⟩ ?_
      · exact Nat.le_succ_of_le pending.start
      · rw [substr_succ pending.start shape, ← pending.text]
      · exact (noPair_append nstr c).mpr ⟨pending.noPair, orderly.1⟩
      · rw [List.getLast?_append, List.getLast?_singleton, Option.some_or]
        exact orderly.2
    | directive name fmt =>
      obtain ⟨spans, covers, ascending⟩ := ih _ _ [] later (.nothing bound) orderly
      have positive : i < i + (Round.directive name fmt).spelled.length := by
        refine Nat.lt_add_of_pos_right ?_
        cases fmt <;> exact Nat.succ_pos _
      have covered : substr pattern i (i + (Round.directive name fmt).spelled.length - i) =
          (Round.directive name fmt).spelled := by
        rw [Nat.add_sub_cancel_left, own]
      have covers' : List.Forall₂ (Covers pattern)
          ((((name, fmt.getD [], 1), .directive i name fmt) :: entries _ [] rest).map built)
          ((i, i + (Round.directive name fmt).spelled.length) :: spans) :=
        .cons ⟨rfl, covered, rfl⟩ covers
      exact pending.flush covers' ⟨Nat.le_refl i, positive, bound, ascending⟩
    | unclosed =>
      obtain rfl : nstr = [] := List.getLast?_eq_none_iff.mp orderly.1
      obtain ⟨spans, covers, ascending⟩ := ih _ _ [] later (.nothing bound) orderly.2
      refine ⟨(i, i + 1) :: spans, .cons ⟨rfl, ?_, rfl⟩ covers, pending.start, Nat.lt_succ_self i,
        bound, ascending⟩
      rw [read, List.head?_cons]

/-- A flushed text is no longer than its interval. -/
theorem length_of_covers {pattern nstr : List Char} {first last : Nat}
    (bound : last ≤ pattern.length)
    (covers : Covers pattern (built ((nstr, [], 0), .literal)) (first, last)) :
    nstr.length ≤ last - first ∧ (nstr.length = last - first → NoPair nstr) := by
  have same : nstr = unescape (substr pattern first (last - first)) :=
    String.ofList_injective (FormatItem.string.inj covers)
  have size := @length_substr pattern first last bound
  rw [← size, same]
  refine ⟨unescape_length_le _, fun kept => ?_⟩
  have unpaired := noPair_of_length _ kept
  rwa [unescape_of_noPair _ unpaired]

/-- Text that is flushed in front of `i` and is not shorter than what stands there is all that
stands there. -/
theorem flush_of_spans {pattern nstr : List Char} {floor i : Nat}
    {entries : List (Token × Origin)} {spans : List (Nat × Nat)}
    (start : i ≤ floor + nstr.length)
    (next : ∀ spans floor, floor ≤ pattern.length →
      List.Forall₂ (Covers pattern) (entries.map built) spans →
      Ascending pattern.length floor spans → floor ≤ i)
    (covers : List.Forall₂ (Covers pattern) ((pendingEntry nstr ++ entries).map built) spans)
    (ascending : Ascending pattern.length floor spans) :
    (i = floor + nstr.length ∨ nstr = []) ∧ NoPair nstr ∧
      ∃ floor spans, List.Forall₂ (Covers pattern) (entries.map built) spans ∧
        Ascending pattern.length floor spans := by
  unfold pendingEntry at covers
  split at covers
  · rename_i nothing
    refine ⟨.inr nothing, ?_, floor, spans, covers, ascending⟩
    rw [nothing]
    exact List.isChain_nil
  · cases covers with
    | @cons _ span _ spans text covers =>
      obtain ⟨first, last⟩ := span
      obtain ⟨above, positive, inside, ascending⟩ := ascending
      have limit := next spans last inside covers ascending
      obtain ⟨short, full⟩ := length_of_covers inside text
      exact ⟨.inl (by omega), full (by omega), last, spans, covers, ascending⟩

/-- Intervals leave no room for text that is moved behind an unclosed brace. -/
theorem orderly_of_spans {pattern : List Char} (todo : List Round) :
    ∀ (floor i : Nat) (nstr : List Char) (spans : List (Nat × Nat)),
      rounds (pattern.drop i) = todo → i ≤ pattern.length → i ≤ floor + nstr.length →
      List.Forall₂ (Covers pattern) ((entries i nstr todo).map built) spans →
      Ascending pattern.length floor spans →
      (i = floor + nstr.length ∨ nstr = []) ∧ NoPair nstr ∧ Orderly nstr.getLast? todo := by
  induction todo with
  | nil =>
    intro floor i nstr spans read bound start covers ascending
    have ended : pattern.length ≤ i := List.drop_eq_nil_iff.mp (rounds_eq_nil read)
    rw [entries, ← List.append_nil (pendingEntry nstr)] at covers
    obtain ⟨whole, unpaired, -⟩ :=
      flush_of_spans start (fun _ _ limit _ _ => limit.trans ended) covers ascending
    exact ⟨whole, unpaired, trivial⟩
  | cons round rest ih =>
    intro floor i nstr spans read bound start covers ascending
    obtain ⟨own, inside, later⟩ := rounds_drop read bound
    cases round with
    | text c =>
      have longer : i + 1 ≤ floor + (nstr ++ [c]).length := by
        rw [List.length_append, List.length_singleton]
        omega
      obtain ⟨whole, unpaired, orderly⟩ :=
        ih floor (i + 1) _ spans later inside longer covers ascending
      obtain ⟨unpaired, apart⟩ := (noPair_append nstr c).mp unpaired
      rw [List.getLast?_append, List.getLast?_singleton, Option.some_or] at orderly
      refine ⟨.inl ?_, unpaired, apart, orderly⟩
      have size := whole.resolve_right (by simp)
      rw [List.length_append, List.length_singleton] at size
      omega
    | directive name fmt =>
      have next : ∀ spans floor, floor ≤ pattern.length →
          List.Forall₂ (Covers pattern)
            ((((name, fmt.getD [], 1), .directive i name fmt) ::
              entries (i + (Round.directive name fmt).spelled.length) [] rest).map built) spans →
          Ascending pattern.length floor spans → floor ≤ i := by
        rintro spans floor - (_ | @⟨_, ⟨first, last⟩, _, _, ⟨rfl, -, -⟩, -⟩) ascending
        exact ascending.1
      obtain ⟨whole, unpaired, floor, spans, covers, ascending⟩ :=
        flush_of_spans start next covers ascending
      refine ⟨whole, unpaired, ?_⟩
      cases covers with
      | @cons _ span _ spans directive covers =>
        obtain ⟨first, last⟩ := span
        obtain ⟨-, positive, limit, ascending⟩ := ascending
        obtain ⟨rfl, text, -⟩ := directive
        have size := @length_substr pattern first last limit
        rw [text] at size
        exact (ih last _ [] spans later inside (by omega) covers ascending).2.2
    | unclosed =>
      cases covers with
      | @cons _ span _ spans marker covers =>
        obtain ⟨first, last⟩ := span
        obtain ⟨above, positive, -, ascending⟩ := ascending
        obtain ⟨rfl, -, -⟩ := marker
        obtain ⟨whole, unpaired, orderly⟩ :=
          ih last (first + 1) nstr spans later inside (by omega) covers ascending
        -- Text in front of the marker would have to stand behind it.
        have nothing : nstr = [] := by
          rcases whole with size | nothing
          · exact List.eq_nil_of_length_eq_zero (by omega)
          · exact nothing
        subst nothing
        exact ⟨.inr rfl, unpaired, rfl, orderly⟩

theorem inOrder_iff (pattern : List Char) :
    InOrder pattern ↔ Orderly none (rounds pattern) := by
  have read : rounds (pattern.drop 0) = rounds pattern := by rw [List.drop_zero]
  constructor
  · rintro ⟨spans, covers, ascending⟩
    exact (orderly_of_spans _ 0 0 [] spans read (Nat.zero_le _) (Nat.le_refl 0) covers
      ascending).2.2
  · exact spans_of_orderly _ 0 0 [] read (.nothing (Nat.zero_le _))

/-- The items of a pattern are those that `init()` builds, and they keep the order of the
pattern exactly if it has no unclosed brace behind text and no two escapes in a row. -/
theorem items_inOrder_iff (pattern : String) :
    (items pattern.toList).map Prod.fst = m_items ⟨pattern⟩ ∧
      (InOrder pattern.toList ↔ Orderly none (rounds pattern.toList)) :=
  ⟨items_erase pattern, inOrder_iff pattern.toList⟩

/-- The text in front of an unclosed brace is printed behind its marker. -/
theorem text_behind_marker :
    m_items ⟨"abc%m\x7bx"⟩ = [.string "<<pattern_error>>", .string "abcm\x7bx"] ∧
      ¬ InOrder "abc%m\x7bx".toList := by
  refine ⟨by decide +kernel, fun ordered => ?_⟩
  have read : rounds "abc%m\x7bx".toList = [.text 'a', .text 'b', .text 'c', .unclosed, .text 'm',
      .text '{', .text 'x'] := by decide +kernel
  have orderly := (inOrder_iff _).mp ordered
  rw [read] at orderly
  exact absurd orderly.2.2.2.1 (by decide)

end Chord.LogFormatter
