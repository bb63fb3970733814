import ChordServer.LogFormatter
import Mathlib.Tactic.Common

set_option autoImplicit false

namespace Chord.LogFormatter

/-- The inner loop runs over letters and over '}', which opens nothing. -/
def isNameChar (c : Char) : Bool := c.isAlpha || c == '}'

/-- Reading at `n` is taking the head of what is left of the pattern at `n`. -/
theorem read_of_drop {pattern rest : List Char} {n : Nat} {c : Char}
    (left : pattern.drop n = c :: rest) :
    ∃ inside : n < pattern.length, pattern[n] = c ∧ pattern.drop (n + 1) = rest := by
  have inside : n < pattern.length := by
    have size := congrArg List.length left
    simp only [List.length_drop, List.length_cons] at size
    omega
  rw [List.drop_eq_getElem_cons inside, List.cons.injEq] at left
  exact ⟨inside, left⟩

theorem length_of_drop {pattern rest : List Char} {n : Nat} (bound : n ≤ pattern.length)
    (left : pattern.drop n = rest) : pattern.length = n + rest.length := by
  rw [← left, List.length_drop]
  omega

/-- One round of the inner loop over a character of a name. -/
theorem scanDirective_letter {pattern rest : List Char} {n : Nat} {c : Char} (i : Nat)
    (left : pattern.drop n = c :: rest) (letter : isNameChar c = true) (str : List Char) :
    scanDirective pattern i { n := n, str := str } =
      scanDirective pattern i
        { n := n + 1,
          str := if rest = [] ∧ str = [] then pattern.drop (i + 1) else str } := by
  obtain ⟨inside, read, after⟩ := read_of_drop left
  have last : n + 1 = pattern.length ↔ rest = [] := by
    rw [← after, List.drop_eq_nil_iff]
    omega
  have notOpen : c ≠ '{' := by
    rintro rfl
    exact absurd letter (by decide)
  have runsOn : ¬ (¬ c.isAlpha ∧ c ≠ '{' ∧ c ≠ '}') := by
    rintro ⟨notAlpha, -, notClose⟩
    simp [isNameChar, notAlpha, notClose] at letter
  rw [scanDirective]
  simp only [inside, ↓reduceDIte, read, runsOn, notOpen, last, and_false, ↓reduceIte,
    Nat.zero_ne_one, false_and]

/-- A name with nothing behind it, or with a character that ends it. -/
theorem scanDirective_bare_from {pattern after : List Char} (i : Nat)
    (stop : ∀ c ∈ after.head?, isNameChar c = false ∧ c ≠ '{') (name : List Char) :
    ∀ (n : Nat) (str : List Char), pattern.drop n = name ++ after → i + 1 ≤ n →
      n ≤ pattern.length → (∀ c ∈ name, isNameChar c = true) →
      str = (if name ++ after = [] then pattern.drop (i + 1) else []) →
      scanDirective pattern i { n := n, str := str } =
        { n := n + name.length,
          str := substr pattern (i + 1) (n + name.length - i - 1) } := by
  induction name with
  | nil =>
    intro n str left start bound letters ready
    rw [List.nil_append] at left ready
    cases after with
    | nil =>
      have ended : ¬ n < pattern.length := by
        have := length_of_drop bound left
        simp only [List.length_nil] at this
        omega
      rw [scanDirective]
      simp only [ended, ↓reduceDIte, ready, ↓reduceIte, List.length_nil, Nat.add_zero, substr]
      rw [List.take_of_length_le (by rw [List.length_drop]; omega)]
    | cons c after =>
      obtain ⟨inside, read, -⟩ := read_of_drop left
      obtain ⟨notName, notOpen⟩ := stop c rfl
      have notAlpha : c.isAlpha = false := by
        cases alpha : c.isAlpha with
        | false => rfl
        | true => simp [isNameChar, alpha] at notName
      have notClose : c ≠ '}' := by
        rintro rfl
        exact absurd notName (by decide)
      rw [scanDirective]
      simp [inside, read, notAlpha, notOpen, notClose]
  | cons c name ih =>
    intro n str left start bound letters ready
    rw [List.cons_append] at left
    obtain ⟨inside, read, rest⟩ := read_of_drop left
    rw [scanDirective_letter i left (letters c (by simp))]
    have step := ih (n + 1) (if name ++ after = [] then pattern.drop (i + 1) else [])
      rest (by omega) inside (fun d member => letters d (by simp [member])) rfl
    have blank : str = [] := by simpa using ready
    rw [List.length_cons, show n + (name.length + 1) = n + 1 + name.length by omega, ← step,
      blank]
    simp only [and_true]

theorem scanDirective_bare {pattern name after : List Char} {i : Nat}
    (inside : i < pattern.length) (left : pattern.drop (i + 1) = name ++ after)
    (letters : ∀ c ∈ name, isNameChar c = true)
    (stop : ∀ c ∈ after.head?, isNameChar c = false ∧ c ≠ '{') :
    scanDirective pattern i { n := i + 1 } =
      { n := i + 1 + name.length, str := name } := by
  have ready : ([] : List Char) = if name ++ after = [] then pattern.drop (i + 1) else [] := by
    split
    · rename_i nothing
      rw [left, nothing]
    · rfl
  rw [scanDirective_bare_from i stop name (i + 1) [] left (Nat.le_refl _) inside letters ready,
    substr, left, show i + 1 + name.length - i - 1 = name.length by omega, List.take_left]

/-- The name in front of an opening brace. -/
theorem scanDirective_open {pattern body : List Char} (i : Nat) (name : List Char) :
    ∀ n : Nat, pattern.drop n = name ++ '{' :: body → i + 1 ≤ n →
      (∀ c ∈ name, isNameChar c = true) →
      scanDirective pattern i { n := n } =
        scanDirective pattern i
          { n := n + name.length + 1, fmt_status := 1, fmt_begin := n + name.length,
            str := substr pattern (i + 1) (n + name.length - i - 1) } := by
  induction name with
  | nil =>
    intro n left start letters
    obtain ⟨inside, read, -⟩ := read_of_drop left
    rw [scanDirective]
    simp [inside, read]
  | cons c name ih =>
    intro n left start letters
    rw [List.cons_append] at left
    obtain ⟨inside, read, rest⟩ := read_of_drop left
    rw [scanDirective_letter i left (letters c (by simp))]
    simp only [List.append_eq_nil_iff, reduceCtorEq, and_false, false_and, ↓reduceIte]
    rw [ih (n + 1) rest (by omega) (fun d member => letters d (by simp [member])),
      List.length_cons, show n + (name.length + 1) = n + 1 + name.length by omega]

/-- One round of the inner loop inside the braces: everything but '}' is kept. -/
theorem scanDirective_fmt {pattern rest : List Char} {c : Char} (i : Nat) (s : Scan)
    (left : pattern.drop s.n = c :: rest) (braces : s.fmt_status = 1) (open_ : c ≠ '}') :
    scanDirective pattern i s =
      scanDirective pattern i
        { s with n := s.n + 1,
                 str := if rest = [] ∧ s.str = [] then pattern.drop (i + 1) else s.str } := by
  obtain ⟨inside, read, after⟩ := read_of_drop left
  have last : s.n + 1 = pattern.length ↔ rest = [] := by
    rw [← after, List.drop_eq_nil_iff]
    omega
  rw [scanDirective]
  simp only [inside, ↓reduceDIte, braces, Nat.one_ne_zero, false_and, ↓reduceIte, read, open_,
    and_false, last]

theorem scanDirective_close_from {pattern after : List Char} (i : Nat) (fmt : List Char) :
    ∀ s : Scan, pattern.drop s.n = fmt ++ '}' :: after → s.fmt_status = 1 → '}' ∉ fmt →
      scanDirective pattern i s =
        { s with
          n := s.n + fmt.length + 1
          fmt_status := 0
          fmt := substr pattern (s.fmt_begin + 1) (s.n + fmt.length - s.fmt_begin - 1) } := by
  induction fmt with
  | nil =>
    intro s left braces absent
    obtain ⟨inside, read, -⟩ := read_of_drop left
    rw [scanDirective]
    simp [inside, read, braces]
  | cons c fmt ih =>
    intro s left braces absent
    have open_ : c ≠ '}' := fun same => absent (by simp [same])
    rw [List.cons_append] at left
    obtain ⟨inside, read, rest⟩ := read_of_drop left
    rw [scanDirective_fmt i s left braces open_]
    simp only [List.append_eq_nil_iff, reduceCtorEq, and_false, false_and, ↓reduceIte]
    rw [ih { s with n := s.n + 1 } rest braces (fun member => absent (by simp [member]))]
    simp only [List.length_cons]
    rw [show s.n + (fmt.length + 1) = s.n + 1 + fmt.length by omega]

theorem scanDirective_braced {pattern name fmt after : List Char} {i : Nat}
    (left : pattern.drop (i + 1) = name ++ '{' :: (fmt ++ '}' :: after))
    (letters : ∀ c ∈ name, isNameChar c = true) (absent : '}' ∉ fmt) :
    scanDirective pattern i { n := i + 1 } =
      { n := i + 1 + name.length + 1 + fmt.length + 1, fmt_begin := i + 1 + name.length,
        str := name, fmt := fmt } := by
  have body : pattern.drop (i + 1 + name.length + 1) = fmt ++ '}' :: after := by
    rw [Nat.add_assoc, ← List.drop_drop, left, ← List.drop_drop, List.drop_left]
    rfl
  rw [scanDirective_open i name (i + 1) left (Nat.le_refl _) letters,
    scanDirective_close_from i fmt _ body rfl absent]
  simp only [substr]
  rw [left, body, show i + 1 + name.length - i - 1 = name.length by omega, List.take_left,
    show i + 1 + name.length + 1 + fmt.length - (i + 1 + name.length) - 1 = fmt.length by omega,
    List.take_left]

theorem scanDirective_unclosed_from {pattern : List Char} (i : Nat) (fmt : List Char) :
    ∀ s : Scan, pattern.drop s.n = fmt → s.n ≤ pattern.length → s.fmt_status = 1 → '}' ∉ fmt →
      (scanDirective pattern i s).fmt_status = 1 := by
  induction fmt with
  | nil =>
    intro s left bound braces absent
    have ended : ¬ s.n < pattern.length := by
      have := length_of_drop bound left
      simp only [List.length_nil] at this
      omega
    rw [scanDirective]
    simpa only [ended, ↓reduceDIte] using braces
  | cons c fmt ih =>
    intro s left bound braces absent
    obtain ⟨inside, read, rest⟩ := read_of_drop left
    rw [scanDirective_fmt i s left braces fun same => absent (by simp [same])]
    exact ih _ rest inside braces fun member => absent (by simp [member])

theorem scanDirective_unclosed {pattern name fmt : List Char} {i : Nat}
    (left : pattern.drop (i + 1) = name ++ '{' :: fmt)
    (letters : ∀ c ∈ name, isNameChar c = true) (absent : '}' ∉ fmt) :
    (scanDirective pattern i { n := i + 1 }).fmt_status = 1 := by
  have body : pattern.drop (i + 1 + name.length + 1) = fmt := by
    rw [Nat.add_assoc, ← List.drop_drop, left, ← List.drop_drop, List.drop_left]
    rfl
  have brace : pattern.drop (i + 1 + name.length) = '{' :: fmt := by
    rw [← List.drop_drop, left, List.drop_left]
  obtain ⟨inside, -, -⟩ := read_of_drop brace
  rw [scanDirective_open i name (i + 1) left (Nat.le_refl _) letters]
  exact scanDirective_unclosed_from i fmt _ body inside rfl absent

/-- The three shapes of what follows a '%': a bare name, a name with a closed
`{fmt}` part, and a name with a brace that is never closed. -/
inductive DirectiveBody : List Char → Prop
  | bare {name after : List Char} (letters : ∀ c ∈ name, isNameChar c = true)
      (stop : ∀ c ∈ after.head?, isNameChar c = false ∧ c ≠ '{') :
      DirectiveBody (name ++ after)
  | braced {name fmt after : List Char} (letters : ∀ c ∈ name, isNameChar c = true)
      (absent : '}' ∉ fmt) : DirectiveBody (name ++ '{' :: (fmt ++ '}' :: after))
  | unclosed {name fmt : List Char} (letters : ∀ c ∈ name, isNameChar c = true)
      (absent : '}' ∉ fmt) : DirectiveBody (name ++ '{' :: fmt)

theorem directiveBody_cons {c : Char} {rest : List Char} (letter : isNameChar c = true)
    (body : DirectiveBody rest) : DirectiveBody (c :: rest) := by
  have extend : ∀ name : List Char, (∀ d ∈ name, isNameChar d = true) →
      ∀ d ∈ c :: name, isNameChar d = true := by
    intro name letters d member
    rcases List.mem_cons.mp member with rfl | member
    · exact letter
    · exact letters d member
  cases body with
  | @bare name after letters stop => exact .bare (extend name letters) stop
  | @braced name fmt after letters absent => exact .braced (extend name letters) absent
  | @unclosed name fmt letters absent => exact .unclosed (extend name letters) absent

theorem directiveBody (rest : List Char) : DirectiveBody rest := by
  induction rest with
  | nil => exact @DirectiveBody.bare [] [] (by simp) (by simp)
  | cons c rest ih =>
    by_cases letter : isNameChar c = true
    · exact directiveBody_cons letter ih
    · by_cases brace : c = '{'
      · subst brace
        by_cases closed : '}' ∈ rest
        · obtain ⟨fmt, after, rfl, absent⟩ := List.eq_append_cons_of_mem closed
          exact @DirectiveBody.braced [] fmt after (by simp) absent
        · exact @DirectiveBody.unclosed [] rest (by simp) closed
      · refine @DirectiveBody.bare [] (c :: rest) (by simp) ?_
        rintro d ⟨⟩
        exact ⟨by simpa using letter, brace⟩

/-- One equation for each way the outer loop goes on from what is left at `i`. -/
theorem initLoop_end {pattern : List Char} {i : Nat} (left : pattern.drop i = []) (s : Init) :
    initLoop pattern i s = s := by
  have outside : ¬ i < pattern.length := by
    rw [List.drop_eq_nil_iff] at left
    omega
  rw [initLoop]
  simp only [outside, ↓reduceDIte]

theorem initLoop_char {pattern rest : List Char} {i : Nat} {c : Char}
    (left : pattern.drop i = c :: rest) (plain : c ≠ '%') (s : Init) :
    initLoop pattern i s = initLoop pattern (i + 1) { s with nstr := s.nstr ++ [c] } := by
  obtain ⟨inside, read, -⟩ := read_of_drop left
  rw [initLoop]
  simp only [inside, ↓reduceDIte, read, ne_eq, plain, not_false_eq_true, ↓reduceIte]

theorem initLoop_literal {pattern rest : List Char} (text : List Char) :
    ∀ (i : Nat) (s : Init), pattern.drop i = text ++ rest → '%' ∉ text →
      initLoop pattern i s =
        initLoop pattern (i + text.length) { s with nstr := s.nstr ++ text } := by
  induction text with
  | nil => intro i s left plain; simp
  | cons c text ih =>
    intro i s left plain
    rw [List.cons_append] at left
    obtain ⟨inside, read, after⟩ := read_of_drop left
    rw [initLoop_char left (fun same => plain (by simp [same])) s,
      ih (i + 1) _ after (fun member => plain (by simp [member])), List.length_cons,
      show i + (text.length + 1) = i + 1 + text.length by omega, List.append_assoc]
    rfl

/-- A '%' that no second '%' follows starts the inner loop. -/
theorem initLoop_directive {pattern body : List Char} {i : Nat}
    (left : pattern.drop i = '%' :: body) (single : body.head? ≠ some '%') (s : Init) :
    i < pattern.length ∧ pattern.drop (i + 1) = body ∧
      initLoop pattern i s =
        let d := scanDirective pattern i { n := i + 1 }
        if d.fmt_status = 0 then
          initLoop pattern (d.n - 1 + 1) (s.flush.push (d.str, d.fmt, 1))
        else if d.fmt_status = 1 then
          initLoop pattern (i + 1)
            ({ s with m_error := true }.push ("<<pattern_error>>".toList, d.fmt, 0))
        else if d.fmt_status = 2 then
          initLoop pattern (d.n - 1 + 1) (s.flush.push (d.str, d.fmt, 1))
        else initLoop pattern (i + 1) s := by
  obtain ⟨inside, read, after⟩ := read_of_drop left
  have next : pattern[i + 1]? ≠ some '%' := by
    rwa [← after, List.head?_drop] at single
  refine ⟨inside, after, ?_⟩
  rw [initLoop]
  simp only [inside, ↓reduceDIte, read, ne_eq, not_true_eq_false, ↓reduceIte, next]

theorem initLoop_bare {pattern name after : List Char} {i : Nat}
    (left : pattern.drop i = '%' :: (name ++ after))
    (single : (name ++ after).head? ≠ some '%') (letters : ∀ c ∈ name, isNameChar c = true)
    (stop : ∀ c ∈ after.head?, isNameChar c = false ∧ c ≠ '{') (s : Init) :
    pattern.drop (i + 1 + name.length) = after ∧
      initLoop pattern i s =
        initLoop pattern (i + 1 + name.length) (s.flush.push (name, [], 1)) := by
  obtain ⟨inside, body, step⟩ := initLoop_directive left single s
  refine ⟨by rw [← List.drop_drop, body, List.drop_left], ?_⟩
  rw [step, scanDirective_bare inside body letters stop]
  simp only [↓reduceIte]
  rw [show i + 1 + name.length - 1 + 1 = i + 1 + name.length by omega]

theorem initLoop_braced {pattern name fmt after : List Char} {i : Nat}
    (left : pattern.drop i = '%' :: (name ++ '{' :: (fmt ++ '}' :: after)))
    (single : (name ++ '{' :: (fmt ++ '}' :: after)).head? ≠ some '%')
    (letters : ∀ c ∈ name, isNameChar c = true) (absent : '}' ∉ fmt) (s : Init) :
    pattern.drop (i + 1 + name.length + 1 + fmt.length + 1) = after ∧
      initLoop pattern i s =
        initLoop pattern (i + 1 + name.length + 1 + fmt.length + 1)
          (s.flush.push (name, fmt, 1)) := by
  obtain ⟨inside, body, step⟩ := initLoop_directive left single s
  constructor
  · have shape : name ++ '{' :: (fmt ++ '}' :: after) =
        (name ++ '{' :: (fmt ++ ['}'])) ++ after := by simp
    have size : i + 1 + name.length + 1 + fmt.length + 1 =
        i + 1 + (name ++ '{' :: (fmt ++ ['}'])).length := by
      simp only [List.length_append, List.length_cons, List.length_nil]
      omega
    rw [size, ← List.drop_drop, body, shape, List.drop_left]
  · rw [step, scanDirective_braced body letters absent]
    simp only [↓reduceIte, Nat.add_sub_cancel]

theorem initLoop_unclosed {pattern name fmt : List Char} {i : Nat}
    (left : pattern.drop i = '%' :: (name ++ '{' :: fmt))
    (single : (name ++ '{' :: fmt).head? ≠ some '%')
    (letters : ∀ c ∈ name, isNameChar c = true) (absent : '}' ∉ fmt) (s : Init) :
    ∃ text, initLoop pattern i s =
      initLoop pattern (i + 1)
        ({ s with m_error := true }.push ("<<pattern_error>>".toList, text, 0)) := by
  obtain ⟨-, body, step⟩ := initLoop_directive left single s
  refine ⟨(scanDirective pattern i { n := i + 1 }).fmt, ?_⟩
  rw [step]
  simp only [scanDirective_unclosed body letters absent, Nat.one_ne_zero, ↓reduceIte]

theorem flush_vec (s : Init) : s.vec <+: s.flush.vec := by
  unfold Init.flush
  split
  · exact List.prefix_rfl
  · exact List.prefix_append _ _

@[simp] theorem flush_m_error (s : Init) : s.flush.m_error = s.m_error := by
  unfold Init.flush
  split <;> rfl

/-- The outer loop only appends to `vec` and never clears `m_error`. -/
theorem initLoop_extends (pattern : List Char) (i : Nat) (s : Init) :
    s.vec <+: (initLoop pattern i s).vec ∧
      (s.m_error = true → (initLoop pattern i s).m_error = true) := by
  have pushed : ∀ (s : Init) (token : Token), s.vec <+: (s.flush.push token).vec :=
    fun s token => (flush_vec s).trans (List.prefix_append _ _)
  fun_induction initLoop pattern i s with
  | case1 i s inside plain ih => exact ih
  | case2 i s inside percent double ih => exact ih
  | case3 i s inside percent single d status ih =>
    exact ⟨(pushed s _).trans ih.1, fun failed => ih.2 (by simpa [Init.push] using failed)⟩
  | case4 i s inside percent single d status unclosed ih =>
    exact ⟨(List.prefix_append _ _).trans ih.1, fun _ => ih.2 rfl⟩
  | case5 i s inside percent single d status unclosed other ih =>
    exact ⟨(pushed s _).trans ih.1, fun failed => ih.2 (by simpa [Init.push] using failed)⟩
  | case6 i s inside percent single d status unclosed other ih => exact ih
  | case7 i s outside => exact ⟨List.prefix_rfl, id⟩

end Chord.LogFormatter
