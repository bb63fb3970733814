import ChordServer.LogFormatterRounds

set_option autoImplicit false

namespace Chord.LogFormatter

/-- The text with every '%' doubled. -/
def doubled (text : List Char) : List Char :=
  text.flatMap fun c => if c = '%' then ['%', '%'] else [c]

/-- The formatter whose pattern is the text with every '%' doubled. -/
def ofText (text : String) : LogFormatter := ⟨String.ofList (doubled text.toList)⟩

/-- The formatter of the text prints the text. -/
def PrintsText (text : String) : Prop :=
  (ofText text).isError = false ∧
    ∀ platform level event, (ofText text).format platform level event = text

/-- Two patterns with an escaped '%' between them print what they print, and a '%' between. -/
def JoinsByPercent (p q : String) : Prop :=
  (⟨p ++ "%%" ++ q⟩ : LogFormatter).isError = false ∧
    ∀ platform level event,
      (⟨p ++ "%%" ++ q⟩ : LogFormatter).format platform level event =
        (⟨p⟩ : LogFormatter).format platform level event ++ "%" ++
          (⟨q⟩ : LogFormatter).format platform level event

/-- An event of which no field is printed with the letter of its directive in front. -/
def foreignEvent : LogEvent :=
  { m_file := "x", m_line := 0, m_elapsed := 0, m_threadId := 0, m_fiberId := 0, m_time := 0,
    m_ss := "x", m_logger := "x", m_level := .INFO }

/-- A C library that prints every time as one letter. -/
def foreignPlatform : Platform := { strftime := fun _ _ _ => some "x", unspecified := "" }

/-- What is printed of a pattern's rounds there. -/
def foreignOutput (pattern : List Char) : List Char :=
  (rounds pattern).flatMap (Round.output foreignPlatform .INFO foreignEvent)

/-- No directive of the table prints its own name. -/
theorem foreign_table : ∀ entry ∈ s_format_items, ∀ fmt,
    ∃ c d rest text, entry.1.toList = c :: rest ∧ d ≠ c ∧
      ((entry.2 fmt).format foreignPlatform .INFO foreignEvent).toList = d :: text := by
  simp only [s_format_items, List.forall_mem_cons, List.not_mem_nil, false_implies, implies_true,
    and_true]
  refine ⟨?_, ?_, ?_, ?_, ?_, ?_, ?_, ?_, ?_, ?_, ?_⟩ <;> intro fmt
  · exact ⟨'m', 'x', [], [], rfl, by decide, rfl⟩
  · exact ⟨'p', 'I', [], ['N', 'F', 'O'], rfl, by decide, rfl⟩
  · exact ⟨'r', '0', [], [], rfl, by decide, rfl⟩
  · exact ⟨'c', 'x', [], [], rfl, by decide, rfl⟩
  · exact ⟨'t', '0', [], [], rfl, by decide, rfl⟩
  · exact ⟨'n', '\n', [], [], rfl, by decide, rfl⟩
  · exact ⟨'d', 'x', [], [], rfl, by decide, by
      simp [FormatItem.newDateTime, FormatItem.format, foreignPlatform]⟩
  · exact ⟨'f', 'x', [], [], rfl, by decide, rfl⟩
  · exact ⟨'l', '0', [], [], rfl, by decide, rfl⟩
  · exact ⟨'F', '0', [], [], rfl, by decide, rfl⟩
  · exact ⟨'T', '\t', [], [], rfl, by decide, rfl⟩

/-- A directive that leaves no error has an entry in the table. -/
theorem entry_of_directive {name : List Char} {fmt : Option (List Char)}
    (accepted : (Round.directive name fmt).fails = false) :
    ∃ construct, (String.ofList name, construct) ∈ s_format_items ∧
      (directiveItem name fmt).1 = construct (String.ofList (fmt.getD [])) := by
  have made : (directiveItem name fmt).2 = false := accepted
  cases found : s_format_items.lookup (String.ofList name) with
  | none => simp [directiveItem, makeItem, found] at made
  | some construct =>
    obtain ⟨before, after, shape, -⟩ := List.lookup_eq_some_iff.mp found
    refine ⟨construct, ?_, by simp [directiveItem, makeItem, found]⟩
    rw [shape]
    exact List.mem_append_right before List.mem_cons_self

theorem foreign_directive {name : List Char} {fmt : Option (List Char)}
    (accepted : (Round.directive name fmt).fails = false) :
    ∃ c d rest text, name = c :: rest ∧ d ≠ c ∧
      (Round.directive name fmt).output foreignPlatform .INFO foreignEvent = d :: text := by
  obtain ⟨construct, member, made⟩ := entry_of_directive accepted
  obtain ⟨c, d, rest, text, shape, apart, printed⟩ :=
    foreign_table _ member (String.ofList (fmt.getD []))
  rw [String.toList_ofList] at shape
  exact ⟨c, d, rest, text, shape, apart, by rw [Round.output_directive, made]; exact printed⟩

/-- Behind a '%' that no '%' follows, something else is printed than what follows it. -/
theorem foreign_percent {body : List Char} (single : body.head? ≠ some '%')
    (accepted : Accepted ('%' :: body)) :
    ∃ c d rest text, body = c :: rest ∧ d ≠ c ∧ foreignOutput ('%' :: body) = d :: text := by
  unfold Accepted at accepted
  unfold foreignOutput
  cases directiveBody body with
  | @bare name after letters stop =>
    rw [rounds_bare single letters stop, List.forall_mem_cons] at accepted
    obtain ⟨c, d, rest, text, rfl, apart, printed⟩ := foreign_directive accepted.1
    refine ⟨c, d, rest ++ after, text ++ foreignOutput after, rfl, apart, ?_⟩
    rw [rounds_bare single letters stop, List.flatMap_cons, printed]
    rfl
  | @braced name fmt after letters absent =>
    rw [rounds_braced single letters absent, List.forall_mem_cons] at accepted
    obtain ⟨c, d, rest, text, rfl, apart, printed⟩ := foreign_directive accepted.1
    refine ⟨c, d, rest ++ '{' :: (fmt ++ '}' :: after), text ++ foreignOutput after, rfl,
      apart, ?_⟩
    rw [rounds_braced single letters absent, List.flatMap_cons, printed]
    rfl
  | @unclosed name fmt letters absent =>
    rw [rounds_unclosed single letters absent, List.forall_mem_cons] at accepted
    cases accepted.1

/-- Text is printed as it is. -/
theorem accepted_text {c : Char} {rest : List Char} (plain : c ≠ '%' ∨ rest.head? = some '%') :
    Accepted (c :: rest) ↔ Accepted rest := by
  rw [Accepted, rounds_text plain, List.forall_mem_cons]
  exact and_iff_right rfl

theorem foreignOutput_text {c : Char} {rest : List Char}
    (plain : c ≠ '%' ∨ rest.head? = some '%') :
    foreignOutput (c :: rest) = c :: foreignOutput rest := by
  rw [foreignOutput, rounds_text plain, List.flatMap_cons]
  rfl

theorem doubled_percent (text : List Char) :
    doubled ('%' :: text) = '%' :: '%' :: doubled text := by
  rw [doubled, List.flatMap_cons, if_pos rfl]
  rfl

theorem doubled_cons {c : Char} (plain : c ≠ '%') (text : List Char) :
    doubled (c :: text) = c :: doubled text := by
  rw [doubled, List.flatMap_cons, if_neg plain]
  rfl

theorem doubled_eq_self {text : List Char} (plain : '%' ∉ text) : doubled text = text := by
  induction text with
  | nil => rfl
  | cons c rest ih =>
    obtain ⟨other, plain⟩ := not_or.mp (mt List.mem_cons.mpr plain)
    rw [doubled_cons (Ne.symm other), ih plain]

/-- The second '%' of a pair starts a directive, which prints something else than what the pair
stands in front of. The induction is on the run of escapes, of which `count` have been printed. -/
theorem foreign_doubled (text : List Char) :
    Accepted ('%' :: doubled text) → ∀ count,
      List.replicate count '%' ++ foreignOutput ('%' :: doubled text) ≠ text := by
  induction text with
  | nil =>
    intro accepted
    obtain ⟨c, d, rest, printed, shape, -⟩ := foreign_percent (by decide) accepted
    cases shape
  | cons first text ih =>
    intro accepted count same
    by_cases percent : first = '%'
    · subst percent
      have second : ('%' :: doubled text).head? = some '%' := rfl
      rw [doubled_percent] at accepted same
      rw [accepted_text (.inr rfl), accepted_text (.inr second)] at accepted
      rw [foreignOutput_text (.inr rfl), foreignOutput_text (.inr second)] at same
      refine ih accepted (count + 1) ?_
      have longer : ∀ n (rest : List Char),
          List.replicate n '%' ++ '%' :: rest = List.replicate (n + 1) '%' ++ rest := by
        intro n rest
        rw [List.replicate_succ', List.append_assoc]
        rfl
      rw [longer, longer, List.replicate_succ, List.cons_append] at same
      exact (List.cons.inj same).2
    · rw [doubled_cons percent] at accepted same
      have single : (first :: doubled text).head? ≠ some '%' := by simpa using percent
      obtain ⟨c, d, rest, printed, shape, apart, output⟩ := foreign_percent single accepted
      obtain rfl := (List.cons.inj shape).1
      rw [output] at same
      cases count with
      | zero => exact apart (List.cons.inj same).1
      | succ count =>
        rw [List.replicate_succ] at same
        exact percent (List.cons.inj same).1.symm

/-- Text without a '%' is printed as it is. -/
theorem accepted_of_plain {text : List Char} (plain : '%' ∉ text)
    (platform : Platform) (level : LogLevel) (event : LogEvent) :
    Accepted text ∧ (rounds text).flatMap (Round.output platform level event) = text := by
  induction text with
  | nil => exact ⟨by simp [Accepted], by simp⟩
  | cons c rest ih =>
    obtain ⟨other, plain⟩ := not_or.mp (mt List.mem_cons.mpr plain)
    obtain ⟨accepted, printed⟩ := ih plain
    refine ⟨(accepted_text (.inl (Ne.symm other))).mpr accepted, ?_⟩
    rw [rounds_text (.inl (Ne.symm other)), List.flatMap_cons, printed]
    rfl

/-- Behind an accepted pattern an escape is printed as one '%', and its second '%' starts a
directive. -/
theorem accepted_join {first second : List Char} (accepted : Accepted first) :
    (Accepted (first ++ '%' :: '%' :: second) ↔ Accepted ('%' :: second)) ∧
      foreignOutput (first ++ '%' :: '%' :: second) =
        foreignOutput first ++ '%' :: foreignOutput ('%' :: second) := by
  have split := rounds_append ('%' :: '%' :: second) rfl accepted
  constructor
  · rw [← @accepted_text '%' ('%' :: second) (.inr rfl), Accepted, split, List.forall_mem_append]
    exact and_iff_right accepted
  · rw [← foreignOutput_text (.inr rfl), foreignOutput, split, List.flatMap_append]
    rfl

theorem format_foreign {pattern : String} (accepted : Accepted pattern.toList) :
    ((⟨pattern⟩ : LogFormatter).format foreignPlatform .INFO foreignEvent).toList =
      foreignOutput pattern.toList :=
  format_of_accepted accepted foreignPlatform .INFO foreignEvent

theorem printsText_iff (text : String) : PrintsText text ↔ '%' ∉ text.toList := by
  unfold PrintsText ofText
  rw [isError_iff_accepted]
  constructor
  · rintro ⟨accepted, prints⟩ member
    obtain ⟨before, after, shape, plain⟩ := List.eq_append_cons_of_mem member
    obtain ⟨first, same⟩ := accepted_of_plain plain foreignPlatform .INFO foreignEvent
    have split : doubled text.toList = before ++ '%' :: '%' :: doubled after := by
      rw [shape, doubled, List.flatMap_append, ← doubled, doubled_eq_self plain, ← doubled,
        doubled_percent]
    have printed := congrArg String.toList (prints foreignPlatform .INFO foreignEvent)
    obtain ⟨accepts, output⟩ := @accepted_join before (doubled after) first
    rw [format_foreign accepted, String.toList_ofList, split, output, shape, foreignOutput, same]
      at printed
    rw [String.toList_ofList, split, accepts] at accepted
    exact foreign_doubled after accepted 0 (List.cons.inj (List.append_cancel_left printed)).2
  · intro plain
    rw [doubled_eq_self plain, String.ofList_toList]
    refine ⟨(accepted_of_plain plain foreignPlatform .INFO foreignEvent).1, ?_⟩
    intro platform level event
    obtain ⟨accepted, printed⟩ := accepted_of_plain plain platform level event
    apply String.toList_inj.mp
    rw [format_of_accepted accepted, printed]

/-- The second '%' of the escape is read together with the pattern behind it. -/
theorem not_joinsByPercent {p q : String} (first : (⟨p⟩ : LogFormatter).isError = false)
    (second : (⟨q⟩ : LogFormatter).isError = false) : ¬ JoinsByPercent p q := by
  rw [isError_iff_accepted] at first second
  rintro ⟨accepted, prints⟩
  have whole : (p ++ "%%" ++ q).toList = p.toList ++ '%' :: '%' :: q.toList := by
    simp [String.toList_append]
  obtain ⟨accepts, output⟩ := @accepted_join p.toList q.toList first
  rw [isError_iff_accepted] at accepted
  have printed := congrArg String.toList (prints foreignPlatform .INFO foreignEvent)
  rw [String.toList_append, String.toList_append, format_foreign accepted, format_foreign first,
    format_foreign second, whole, output, List.append_assoc] at printed
  have same : foreignOutput ('%' :: q.toList) = foreignOutput q.toList :=
    (List.cons.inj (List.append_cancel_left printed)).2
  rw [whole, accepts] at accepted
  by_cases double : q.toList.head? = some '%'
  · rw [foreignOutput_text (.inr double)] at same
    exact List.cons_ne_self _ _ same
  · obtain ⟨c, d, rest, text, shape, apart, output⟩ := foreign_percent double accepted
    rw [shape] at same output double
    have plain : c ≠ '%' := by simpa using double
    rw [output, foreignOutput_text (.inl plain)] at same
    exact apart (List.cons.inj same).1

/-- A text is printed through its doubled '%'s exactly if it has none, and an escape between two
patterns is never printed as one '%'. -/
theorem escapes_iff (text p q : String) :
    (PrintsText text ↔ '%' ∉ text.toList) ∧
      ((⟨p⟩ : LogFormatter).isError = false → (⟨q⟩ : LogFormatter).isError = false →
        ¬ JoinsByPercent p q) :=
  ⟨printsText_iff text, not_joinsByPercent⟩

theorem escapes_iff_at_hundred : PrintsText "100" ∧ ¬ JoinsByPercent "100" " done" := by
  obtain ⟨prints, joins⟩ := escapes_iff "100" "100" " done"
  exact ⟨prints.mpr (by decide), joins (by decide +kernel) (by decide +kernel)⟩

/-- The laws fail for a text that is one '%' and for a '%' between two words: the second '%' of
the pair is taken for a directive. -/
theorem percent_is_not_printed :
    (ofText "%").format foreignPlatform .INFO foreignEvent = "%<<error_format %>>" ∧
      ¬ PrintsText "%" ∧
      (⟨"100"⟩ : LogFormatter).isError = false ∧ (⟨" done"⟩ : LogFormatter).isError = false ∧
      ¬ JoinsByPercent "100" " done" := by
  have single : (ofText "%").isError = true := by decide +kernel
  have between : (⟨"100" ++ "%%" ++ " done"⟩ : LogFormatter).isError = true := by decide +kernel
  refine ⟨by decide +kernel, fun prints => ?_, by decide +kernel, by decide +kernel,
    fun joins => ?_⟩
  · exact absurd prints.1 (by rw [single]; decide)
  · exact absurd joins.1 (by rw [between]; decide)

end Chord.LogFormatter
