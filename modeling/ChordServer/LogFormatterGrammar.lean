import ChordServer.LogFormatterScan

set_option autoImplicit false

namespace Chord.LogFormatter

/-- A pattern read as its author means it: literal text, `%name` and `%name{fmt}`. -/
inductive Segment
  | literal (text : List Char)
  | directive (name : List Char) (fmt : Option (List Char))
  deriving DecidableEq, Repr

namespace Segment

def render : Segment → List Char
  | .literal text => text
  | .directive name none => '%' :: name
  | .directive name (some fmt) => '%' :: (name ++ '{' :: (fmt ++ ['}']))

/-- The item a segment stands for: a directive without braces has the format "". -/
def item : Segment → Option FormatItem
  | .literal text => some (.string (String.ofList text))
  | .directive name fmt =>
      (s_format_items.lookup (String.ofList name)).map fun construct =>
        construct (String.ofList (fmt.getD []))

def Valid : Segment → Prop
  | .literal text => text ≠ [] ∧ '%' ∉ text
  | .directive name fmt =>
      String.ofList name ∈ s_format_items.map Prod.fst ∧ ∀ text ∈ fmt, '}' ∉ text

instance : DecidablePred Valid := fun segment => by
  cases segment <;> unfold Valid <;> infer_instance

/-- Which segments may stand next to each other. -/
def Follows : Segment → Segment → Prop
  | .literal _, .literal _ => False
  | .directive _ none, .literal text =>
      ∀ c ∈ text.head?, ¬ (c.isAlpha = true ∨ c = '{' ∨ c = '}')
  | _, _ => True

instance : DecidableRel Follows := fun before after => by
  unfold Follows
  split
  · infer_instance
  · exact Option.decidableForallMem (p := fun c => ¬ (c.isAlpha = true ∨ c = '{' ∨ c = '}')) _
  · infer_instance

def token : Segment → Token
  | .literal text => (text, [], 0)
  | .directive name fmt => (name, fmt.getD [], 1)

end Segment

def render (segments : List Segment) : List Char := segments.flatMap Segment.render

structure WellFormed (segments : List Segment) : Prop where
  valid : ∀ segment ∈ segments, segment.Valid
  follows : segments.IsChain Segment.Follows

instance (segments : List Segment) : Decidable (WellFormed segments) :=
  decidable_of_iff ((∀ segment ∈ segments, segment.Valid) ∧ segments.IsChain Segment.Follows)
    ⟨fun both => ⟨both.1, both.2⟩, fun formed => ⟨formed.valid, formed.follows⟩⟩

/-- Where a position of a pattern lies, read from left to right. -/
inductive Part
  | text
  | name
  | fmt

def Part.next : Part → Char → Part
  | .fmt, c => if c = '}' then .text else .fmt
  | .name, c =>
      if c = '{' then .fmt else if c.isAlpha then .name else if c = '%' then .name else .text
  | .text, c => if c = '%' then .name else .text

/-- No '%' outside a `{fmt}` part has a second '%' right behind it. -/
def NoPercentPair : Part → List Char → Prop
  | _, [] => True
  | part, c :: rest =>
      (part ≠ .fmt → c = '%' → rest.head? ≠ some '%') ∧ NoPercentPair (part.next c) rest

theorem registered_letters {name : List Char}
    (registered : String.ofList name ∈ s_format_items.map Prod.fst) :
    name ≠ [] ∧ ∀ c ∈ name, c.isAlpha = true := by
  have table : (s_format_items.map Prod.fst).all
      (fun key => !key.toList.isEmpty && key.toList.all Char.isAlpha) = true := by decide
  have letters := List.all_eq_true.mp table _ registered
  simpa only [String.toList_ofList, Bool.and_eq_true, Bool.not_eq_true', List.isEmpty_eq_false_iff,
    List.all_eq_true] using letters

theorem isNameChar_of_isAlpha {c : Char} (alpha : c.isAlpha = true) : isNameChar c = true := by
  simp only [isNameChar, alpha, Bool.true_or]

theorem lookup_isSome_iff {name : String} :
    (∃ construct, s_format_items.lookup name = some construct) ↔
      name ∈ s_format_items.map Prod.fst := by
  rw [List.mem_map]
  constructor
  · rintro ⟨construct, found⟩
    obtain ⟨before, after, shape, -⟩ := List.lookup_eq_some_iff.mp found
    exact ⟨(name, construct), by rw [shape]; simp, rfl⟩
  · rintro ⟨entry, member, rfl⟩
    cases found : s_format_items.lookup entry.1 with
    | some construct => exact ⟨construct, rfl⟩
    | none =>
      have absent := List.lookup_eq_none_iff.mp found entry member
      simp at absent

/-- A valid segment becomes its own item and raises no error. -/
theorem makeItem_token {segment : Segment} (valid : segment.Valid) :
    segment.item = some (makeItem segment.token).1 ∧ (makeItem segment.token).2 = false := by
  cases segment with
  | literal text => exact ⟨rfl, rfl⟩
  | directive name fmt =>
    obtain ⟨construct, found⟩ := lookup_isSome_iff.mpr valid.1
    simp only [Segment.item, Segment.token, makeItem, found, Option.map_some, Nat.one_ne_zero,
      ↓reduceIte, and_self]

/-- What stands behind a bare directive of a well formed list ends its name. -/
theorem stop_of_follows {name : List Char} {segments : List Segment}
    (formed : WellFormed (.directive name none :: segments)) :
    ∀ c ∈ (render segments).head?, isNameChar c = false ∧ c ≠ '{' := by
  intro c first
  cases segments with
  | nil => cases first
  | cons segment rest =>
    cases segment with
    | literal text =>
      obtain ⟨nonempty, -⟩ := formed.valid (.literal text) (by simp)
      cases text with
      | nil => exact absurd rfl nonempty
      | cons head text =>
        obtain rfl : head = c := Option.some.inj first
        have apart : ¬ (head.isAlpha = true ∨ head = '{' ∨ head = '}') :=
          (List.isChain_cons_cons.mp formed.follows).1 head rfl
        simp only [not_or] at apart
        simpa [isNameChar, apart.1, apart.2.2] using apart.2.1
    | directive name fmt =>
      have percent : c = '%' := by
        cases fmt <;> exact (Option.some.inj first).symm
      subst percent
      decide

theorem WellFormed.tail {segment : Segment} {segments : List Segment}
    (formed : WellFormed (segment :: segments)) : WellFormed segments :=
  ⟨fun next member => formed.valid next (by simp [member]), formed.follows.of_cons⟩

/-- The pending literal `nstr` is not followed by another literal. -/
def Ready (s : Init) : List Segment → Prop
  | .literal _ :: _ => s.nstr = []
  | _ => True

/-- Scanning the rendering of a well formed list appends one token per segment. -/
theorem initLoop_render {pattern : List Char} (segments : List Segment) :
    ∀ (i : Nat) (s : Init), pattern.drop i = render segments → WellFormed segments →
      Ready s segments →
      (initLoop pattern i s).flush.vec = s.flush.vec ++ segments.map Segment.token ∧
        (initLoop pattern i s).m_error = s.m_error := by
  induction segments with
  | nil =>
    intro i s left formed ready
    rw [initLoop_end left]
    simp
  | cons segment segments ih =>
    intro i s left formed ready
    have valid := formed.valid segment (by simp)
    rw [render, List.flatMap_cons, ← render] at left
    cases segment with
    | literal text =>
      have pending : s.nstr = [] := ready
      have after : pattern.drop (i + text.length) = render segments := by
        rw [← List.drop_drop, left, Segment.render, List.drop_left]
      have next : Ready { s with nstr := s.nstr ++ text } segments := by
        cases segments with
        | nil => trivial
        | cons second rest =>
          cases second with
          | literal other => exact ((List.isChain_cons_cons.mp formed.follows).1).elim
          | directive name fmt => trivial
      obtain ⟨vec, error⟩ := ih _ _ after formed.tail next
      rw [initLoop_literal text i s left valid.2]
      refine ⟨vec.trans ?_, error⟩
      simp [Init.flush, pending, valid.1, Segment.token]
    | directive name fmt =>
      obtain ⟨nonempty, alpha⟩ := registered_letters valid.1
      obtain ⟨head, tail, rfl⟩ := List.exists_cons_of_ne_nil nonempty
      have single : ∀ rest : List Char, (head :: tail ++ rest).head? ≠ some '%' := by
        intro rest same
        have percent : head = '%' := Option.some.inj same
        exact absurd (alpha '%' (by simp [percent])) (by decide)
      have letters : ∀ c ∈ head :: tail, isNameChar c = true :=
        fun c member => isNameChar_of_isAlpha (alpha c member)
      have pushed : ∀ text, (s.flush.push (head :: tail, text, 1)).flush.vec =
          s.flush.vec ++ [(head :: tail, text, 1)] := by
        intro text
        by_cases pending : s.nstr = [] <;> simp [Init.flush, Init.push, pending]
      have settled : ∀ text, Ready (s.flush.push (head :: tail, text, 1)) segments := by
        intro text
        unfold Ready
        split
        · by_cases pending : s.nstr = [] <;> simp [Init.flush, Init.push, pending]
        · trivial
      cases fmt with
      | none =>
        obtain ⟨after, step⟩ :=
          initLoop_bare left (single _) letters (stop_of_follows formed) s
        obtain ⟨vec, error⟩ := ih _ _ after formed.tail (settled [])
        rw [step, vec, error, pushed]
        simp [Init.push, Segment.token]
      | some text =>
        have closed : '}' ∉ text := valid.2 text rfl
        have shape : pattern.drop i =
            '%' :: (head :: tail ++ '{' :: (text ++ '}' :: render segments)) := by
          rw [left]
          simp [Segment.render]
        obtain ⟨after, step⟩ := initLoop_braced shape (single _) letters closed s
        obtain ⟨vec, error⟩ := ih _ _ after formed.tail (settled text)
        rw [step, vec, error, pushed]
        simp [Init.push, Segment.token]

/-- The first half of the grammar: a rendering is accepted and yields its segments. -/
theorem accepts_render (segments : List Segment) (formed : WellFormed segments) :
    (⟨String.ofList (render segments)⟩ : LogFormatter).isError = false ∧
      (⟨String.ofList (render segments)⟩ : LogFormatter).m_items.map some =
        segments.map Segment.item := by
  have ready : Ready {} segments := by
    unfold Ready
    split
    · rfl
    · trivial
  have whole : (render segments).drop 0 = render segments := List.drop_zero
  obtain ⟨vec, error⟩ := initLoop_render segments 0 {} whole formed ready
  have tokens : (initLoop (render segments) 0 {}).flush.vec = segments.map Segment.token := by
    rw [vec]
    rfl
  have made : ∀ segment ∈ segments, segment.item = some (makeItem segment.token).1 ∧
      (makeItem segment.token).2 = false :=
    fun segment member => makeItem_token (formed.valid segment member)
  simp only [isError, m_items, init, String.toList_ofList, tokens, flush_m_error, error,
    List.map_map, List.any_map, Bool.false_or, List.any_eq_false, Function.comp_apply]
  refine ⟨fun segment member => ?_, List.map_congr_left fun segment member => ?_⟩
  · rw [(made segment member).2]
    exact Bool.false_ne_true
  · exact (made segment member).1.symm

/-- `m_error` is still unset, and no token so far makes the last loop set it. -/
def Clean (s : Init) : Prop := s.m_error = false ∧ ∀ token ∈ s.vec, (makeItem token).2 = false

theorem clean_of_isError {pattern : String}
    (accepted : (⟨pattern⟩ : LogFormatter).isError = false) :
    Clean (initLoop pattern.toList 0 {}) := by
  simp only [isError, init, Bool.or_eq_false_iff, flush_m_error, List.any_eq_false,
    Bool.not_eq_true] at accepted
  exact ⟨accepted.1, fun token member => accepted.2 token ((flush_vec _).subset member)⟩

theorem Clean.of_initLoop {pattern : List Char} {i : Nat} {s : Init}
    (clean : Clean (initLoop pattern i s)) : Clean s := by
  obtain ⟨kept, failed⟩ := initLoop_extends pattern i s
  refine ⟨?_, fun token member => clean.2 token (kept.subset member)⟩
  cases error : s.m_error with
  | false => rfl
  | true => exact absurd (failed error) (by simp [clean.1])

/-- A directive that left no error has a registered name. -/
theorem registered_of_clean {s : Init} {name fmt : List Char}
    (clean : Clean (s.push (name, fmt, 1))) :
    String.ofList name ∈ s_format_items.map Prod.fst := by
  have made := clean.2 (name, fmt, 1) (by simp [Init.push])
  rw [← lookup_isSome_iff]
  cases found : s_format_items.lookup (String.ofList name) with
  | some construct => exact ⟨construct, rfl⟩
  | none => simp [makeItem, found] at made

theorem noPercentPair_name {name rest : List Char} (alpha : ∀ c ∈ name, c.isAlpha = true)
    (apart : NoPercentPair .name (name ++ rest)) : NoPercentPair .name rest := by
  induction name with
  | nil => exact apart
  | cons c name ih =>
    have letter := alpha c (by simp)
    have notBrace : c ≠ '{' := by
      rintro rfl
      exact absurd letter (by decide)
    rw [List.cons_append] at apart
    refine ih (fun d member => alpha d (by simp [member])) ?_
    simpa only [Part.next, notBrace, letter, ↓reduceIte] using apart.2

theorem noPercentPair_fmt {fmt rest : List Char} (absent : '}' ∉ fmt)
    (apart : NoPercentPair .fmt (fmt ++ '}' :: rest)) : NoPercentPair .text rest := by
  induction fmt with
  | nil => exact apart.2
  | cons c fmt ih =>
    have open_ : c ≠ '}' := fun same => absent (by simp [same])
    rw [List.cons_append] at apart
    refine ih (fun member => absent (by simp [member])) ?_
    simpa only [Part.next, open_, ↓reduceIte] using apart.2

/-- Behind a bare name the text part goes on as if the name had not been there. -/
theorem noPercentPair_bare {rest : List Char}
    (stop : ∀ c ∈ rest.head?, isNameChar c = false ∧ c ≠ '{')
    (apart : NoPercentPair .name rest) : NoPercentPair .text rest := by
  cases rest with
  | nil => trivial
  | cons c rest =>
    obtain ⟨notName, notBrace⟩ := stop c rfl
    have notAlpha : c.isAlpha = false := by
      cases alpha : c.isAlpha with
      | false => rfl
      | true => simp [isNameChar, alpha] at notName
    refine ⟨fun _ => apart.1 (by simp), ?_⟩
    simpa [Part.next, notBrace, notAlpha] using apart.2

/-- Puts one more character of text in front of a segment list. -/
def consChar (c : Char) : List Segment → List Segment
  | .literal text :: segments => .literal (c :: text) :: segments
  | segments => .literal [c] :: segments

theorem render_consChar (c : Char) (segments : List Segment) :
    render (consChar c segments) = c :: render segments := by
  unfold consChar
  split <;> rfl

theorem wellFormed_consChar {c : Char} {segments : List Segment} (plain : c ≠ '%')
    (formed : WellFormed segments) : WellFormed (consChar c segments) := by
  unfold consChar
  split
  · rename_i text rest
    have valid := formed.valid (.literal text) (by simp)
    constructor
    · intro segment member
      rcases List.mem_cons.mp member with rfl | member
      · exact ⟨by simp, by simp [plain.symm, valid.2]⟩
      · exact formed.valid segment (by simp [member])
    · exact formed.follows.cons_of_imp fun next followed => by
        cases next with
        | literal other => exact followed
        | directive name fmt => trivial
  · rename_i notLiteral
    constructor
    · intro segment member
      rcases List.mem_cons.mp member with rfl | member
      · exact ⟨by simp, by simpa using plain.symm⟩
      · exact formed.valid segment member
    · cases segments with
      | nil => exact List.IsChain.singleton _
      | cons next rest =>
        refine List.isChain_cons_cons.mpr ⟨?_, formed.follows⟩
        cases next with
        | literal other => exact notLiteral other rest rfl
        | directive name fmt => trivial

theorem wellFormed_cons_directive {name : List Char} {fmt : Option (List Char)}
    {segments : List Segment} (registered : String.ofList name ∈ s_format_items.map Prod.fst)
    (closed : ∀ text ∈ fmt, '}' ∉ text) (formed : WellFormed segments)
    (stop : fmt = none → ∀ c ∈ (render segments).head?, isNameChar c = false ∧ c ≠ '{') :
    WellFormed (.directive name fmt :: segments) := by
  constructor
  · intro segment member
    rcases List.mem_cons.mp member with rfl | member
    · exact ⟨registered, closed⟩
    · exact formed.valid segment member
  · cases segments with
    | nil => exact List.IsChain.singleton _
    | cons next rest =>
      refine List.isChain_cons_cons.mpr ⟨?_, formed.follows⟩
      cases next with
      | directive other text => cases fmt <;> trivial
      | literal text =>
        cases fmt with
        | some braces => trivial
        | none =>
          intro c first
          have ended := stop rfl c (by
            cases text with
            | nil => cases first
            | cons head text => exact first)
          rintro (alpha | rfl | rfl)
          · simp [isNameChar_of_isAlpha alpha] at ended
          · exact ended.2 rfl
          · exact absurd ended.1 (by decide)

/-- The second half: what an error-free scan has read is a rendering. The
induction is on the length of what is left of the pattern. -/
theorem render_of_clean {pattern : List Char} :
    ∀ (i : Nat) (s : Init) (rest : List Char), pattern.drop i = rest →
      Clean (initLoop pattern i s) → NoPercentPair .text rest →
      ∃ segments, WellFormed segments ∧ render segments = rest := by
  intro i s rest
  induction size : rest.length using Nat.strongRecOn generalizing i s rest with
  | ind total ih =>
    intro left clean apart
    cases rest with
    | nil => exact ⟨[], ⟨by simp, List.IsChain.nil⟩, rfl⟩
    | cons c body =>
      by_cases percent : c = '%'
      · subst percent
        have single : body.head? ≠ some '%' := apart.1 (by simp) rfl
        have apart : NoPercentPair .name body := apart.2
        cases directiveBody body with
        | @bare name after letters stop =>
          obtain ⟨behind, step⟩ := initLoop_bare left single letters stop s
          rw [step] at clean
          have registered := registered_of_clean clean.of_initLoop
          obtain ⟨-, alpha⟩ := registered_letters registered
          have shorter : after.length < total := by
            rw [← size, List.length_cons, List.length_append]
            omega
          obtain ⟨segments, formed, rendered⟩ := ih after.length shorter _ _ after rfl behind clean
            (noPercentPair_bare stop (noPercentPair_name alpha apart))
          refine ⟨.directive name none :: segments,
            wellFormed_cons_directive registered (by simp) formed ?_, ?_⟩
          · intro _
            rw [rendered]
            exact stop
          · rw [render, List.flatMap_cons, ← render, rendered]
            rfl
        | @braced name fmt after letters absent =>
          obtain ⟨behind, step⟩ := initLoop_braced left single letters absent s
          rw [step] at clean
          have registered := registered_of_clean clean.of_initLoop
          obtain ⟨-, alpha⟩ := registered_letters registered
          have shorter : after.length < total := by
            rw [← size]
            simp only [List.length_cons, List.length_append]
            omega
          have inFmt : NoPercentPair .fmt (fmt ++ '}' :: after) :=
            (noPercentPair_name alpha apart).2
          obtain ⟨segments, formed, rendered⟩ := ih after.length shorter _ _ after rfl behind clean
            (noPercentPair_fmt absent inFmt)
          refine ⟨.directive name (some fmt) :: segments,
            wellFormed_cons_directive registered (by simpa using absent) formed (by simp), ?_⟩
          rw [render, List.flatMap_cons, ← render, rendered]
          simp [Segment.render]
        | @unclosed name fmt letters absent =>
          obtain ⟨text, step⟩ := initLoop_unclosed left single letters absent s
          rw [step] at clean
          exact absurd clean.of_initLoop.1 (by simp [Init.push])
      · obtain ⟨-, -, behind⟩ := read_of_drop left
        rw [initLoop_char left percent] at clean
        have apart : NoPercentPair .text body := by
          simpa only [Part.next, percent, ↓reduceIte] using apart.2
        have shorter : body.length < total := by
          rw [← size, List.length_cons]
          omega
        obtain ⟨segments, formed, rendered⟩ :=
          ih body.length shorter _ _ body rfl behind clean apart
        exact ⟨consChar c segments, wellFormed_consChar percent formed, by
          rw [render_consChar, rendered]⟩

/-- The parser accepts exactly the directive grammar, as far as no pattern has
the escape `%%`: renderings are accepted with the items of their segments, and
an accepted pattern is a rendering. -/
theorem init_grammar :
    (∀ segments, WellFormed segments →
      (⟨String.ofList (render segments)⟩ : LogFormatter).isError = false ∧
        (⟨String.ofList (render segments)⟩ : LogFormatter).m_items.map some =
          segments.map Segment.item) ∧
    ∀ pattern : String, (⟨pattern⟩ : LogFormatter).isError = false →
      NoPercentPair .text pattern.toList →
      ∃ segments, WellFormed segments ∧ String.ofList (render segments) = pattern := by
  refine ⟨accepts_render, fun pattern accepted apart => ?_⟩
  obtain ⟨segments, formed, rendered⟩ :=
    render_of_clean 0 {} pattern.toList List.drop_zero (clean_of_isError accepted) apart
  exact ⟨segments, formed, by rw [rendered, String.ofList_toList]⟩

theorem init_grammar_date_message :
    (⟨String.ofList (render [.directive ['d'] (some ['%', 'H']), .literal [' ', 'x'],
        .directive ['m'] none])⟩ : LogFormatter).isError = false :=
  (init_grammar.1 _ (by decide)).1

end Chord.LogFormatter
