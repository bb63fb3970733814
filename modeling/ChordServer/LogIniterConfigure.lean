import ChordServer.LoggerView

set_option autoImplicit false

namespace Chord.LogIniter

open LogSystem

/-- Fresh appenders with the given views have been added to the logger at `p`. -/
structure Filled (s t : LogSystem) (p : LoggerPtr) (views : List AppenderView) : Prop where
  m_logger : t.m_logger = s.m_logger
  m_root : t.m_root = s.m_root
  loggerCount : t.loggerCount = s.loggerCount
  appenderCount : t.appenderCount = s.appenderCount + views.length
  other : ∀ q, q ≠ p → t.loggers q = s.loggers q
  self : t.loggers p = { s.loggers p with
    m_appenders := (s.loggers p).m_appenders ++ List.range' s.appenderCount views.length }
  old : ∀ b < s.appenderCount, t.appenders b = s.appenders b
  new : (List.range' s.appenderCount views.length).map (fun b => (t.appenders b).view) = views

variable {s t u : LogSystem} {p : LoggerPtr}

theorem Filled.refl (s : LogSystem) (p : LoggerPtr) : Filled s s p [] :=
  ⟨rfl, rfl, rfl, rfl, fun _ _ => rfl, by simp, fun _ _ => rfl, rfl⟩

theorem Filled.trans {first second : List AppenderView} (before : Filled s t p first)
    (after : Filled t u p second) : Filled s u p (first ++ second) := by
  have range : List.range' s.appenderCount (first ++ second).length =
      List.range' s.appenderCount first.length ++
        List.range' t.appenderCount second.length := by
    rw [before.appenderCount, List.length_append, List.range'_append_1]
  refine ⟨after.m_logger.trans before.m_logger, after.m_root.trans before.m_root,
    after.loggerCount.trans before.loggerCount, ?_,
    fun q apart => (after.other q apart).trans (before.other q apart), ?_, fun b bound => ?_, ?_⟩
  · rw [after.appenderCount, before.appenderCount, List.length_append, Nat.add_assoc]
  · rw [after.self, before.self, range, List.append_assoc]
  · rw [after.old b, before.old b bound]
    rw [before.appenderCount]
    exact Nat.lt_add_right _ bound
  · have same : (List.range' s.appenderCount first.length).map (fun b => (u.appenders b).view) =
        (List.range' s.appenderCount first.length).map (fun b => (t.appenders b).view) := by
      refine List.map_congr_left fun b member => congrArg Appender.view (after.old b ?_)
      rw [before.appenderCount]
      exact (List.mem_range'_1.mp member).2
    rw [range, List.map_append, after.new, same, before.new]

/-- The pattern of the logger at `p`. -/
def patternAt (s : LogSystem) (p : LoggerPtr) : Option String :=
  (s.loggers p).m_formatter.map LogFormatter.getPattern

theorem Filled.pattern {views : List AppenderView} (filled : Filled s t p views) :
    patternAt t p = patternAt s p := by
  rw [patternAt, filled.self]
  rfl

/-- One appender more than before, which no logger holds yet. -/
structure Fresh (s t : LogSystem) (made : Appender) : Prop where
  m_logger : t.m_logger = s.m_logger
  m_root : t.m_root = s.m_root
  loggers : t.loggers = s.loggers
  loggerCount : t.loggerCount = s.loggerCount
  appenderCount : t.appenderCount = s.appenderCount + 1
  old : ∀ b, b ≠ s.appenderCount → t.appenders b = s.appenders b
  new : t.appenders s.appenderCount = made

theorem Fresh.update {made : Appender} (fresh : Fresh s t made) (f : LogAppender → LogAppender) :
    Fresh s (t.updateAppender s.appenderCount f) (made.update f) := by
  refine ⟨fresh.m_logger, fresh.m_root, fresh.loggers, fresh.loggerCount, fresh.appenderCount,
    fun b apart => ?_, ?_⟩
  · rw [updateAppender, setAppender_other t _ apart, fresh.old b apart]
  · rw [updateAppender, setAppender_self, fresh.new]

theorem newAppender_fresh (s : LogSystem) {a : LogAppenderDefine}
    (typed : a.type = 1 ∨ a.type = 2) :
    (newAppender s a).2 = some s.appenderCount ∧
      ∃ made : Appender, Fresh s (newAppender s a).1 made ∧ made.base = {} ∧
        made.filename = if a.type = 1 then some a.file else none := by
  unfold newAppender
  rcases typed with file | stdout
  · rw [if_pos file, if_pos file]
    exact ⟨rfl, _, ⟨rfl, rfl, rfl, rfl, rfl, fun b apart => setAppender_other s _ apart,
      setAppender_self s _ _⟩, rfl, rfl⟩
  · rw [stdout]
    exact ⟨rfl, _, ⟨rfl, rfl, rfl, rfl, rfl, fun b apart => setAppender_other s _ apart,
      setAppender_self s _ _⟩, rfl, rfl⟩

theorem setAppenderFormatter_fresh {made : Appender} (fresh : Fresh s t made) (i : LogDefine)
    (a : LogAppenderDefine) :
    Fresh s (setAppenderFormatter i t s.appenderCount a)
      (if Usable a.formatter then made.update fun base => base.setFormatter (some ⟨a.formatter⟩)
        else made) := by
  unfold setAppenderFormatter
  by_cases empty : a.formatter = ""
  · have unusable : ¬ Usable a.formatter := fun usable => usable.1 empty
    rw [if_neg (not_not.mpr empty), if_neg unusable]
    exact fresh
  · rw [if_pos empty]
    dsimp only
    by_cases valid : (LogFormatter.mk a.formatter).isError = false
    · rw [if_pos valid, if_pos ⟨empty, valid⟩]
      exact fresh.update _
    · have unusable : ¬ Usable a.formatter := fun usable => valid usable.2
      rw [if_neg valid, if_neg unusable]
      exact ⟨fresh.m_logger, fresh.m_root, fresh.loggers, fresh.loggerCount,
        fresh.appenderCount, fresh.old, fresh.new⟩

/-- A logger takes the new appender up and lends it a formatter if it has none. -/
theorem addAppender_filled {made : Appender} (fresh : Fresh s t made) (p : LoggerPtr) :
    Filled s (Logger.addAppender t p s.appenderCount) p
      [(if made.base.m_formatter.isNone then
        made.update fun base => { base with m_formatter := (s.loggers p).m_formatter }
        else made).view] := by
  have lent : ∃ u, Fresh s u (if made.base.m_formatter.isNone then
        made.update fun base => { base with m_formatter := (s.loggers p).m_formatter }
        else made) ∧
      Logger.addAppender t p s.appenderCount = u.setLogger p
        { u.loggers p with
          m_appenders := (u.loggers p).m_appenders ++ [s.appenderCount] } := by
    unfold Logger.addAppender LogAppender.getFormatter
    rw [fresh.new]
    by_cases bare : made.base.m_formatter.isNone
    · rw [if_pos bare, if_pos bare, fresh.loggers]
      exact ⟨_, fresh.update _, rfl⟩
    · rw [if_neg bare, if_neg bare]
      exact ⟨t, fresh, rfl⟩
  obtain ⟨u, fresh, added⟩ := lent
  rw [added]
  refine ⟨fresh.m_logger, fresh.m_root, fresh.loggerCount, fresh.appenderCount, fun q apart => ?_,
    ?_, fun b bound => fresh.old b (Nat.ne_of_lt bound), ?_⟩
  · rw [setLogger_other u _ apart, fresh.loggers]
  · rw [setLogger_self, fresh.loggers]
    rfl
  · simp only [List.length_singleton, List.range'_one, List.map_cons, List.map_nil,
      setLogger_appenders, fresh.new]

/-- The view of an appender that was made, set up and taken up. -/
theorem view_of_made {made : Appender} {a : LogAppenderDefine} (base : made.base = {})
    (name : made.filename = if a.type = 1 then some a.file else none)
    (inherited : Option LogFormatter) :
    let leveled := made.update fun base => base.setLevel a.level
    let ready := if Usable a.formatter then
      leveled.update fun base => base.setFormatter (some ⟨a.formatter⟩) else leveled
    (if ready.base.m_formatter.isNone then
        ready.update fun base => { base with m_formatter := inherited } else ready).view =
      .ofDefine (inherited.map LogFormatter.getPattern) a := by
  by_cases usable : Usable a.formatter <;>
    simp [usable, AppenderView.ofDefine, Appender.view, base, name, LogAppender.setLevel,
      LogAppender.setFormatter, LogFormatter.getPattern]

theorem addDefined_filled (i : LogDefine) (s : LogSystem) (p : LoggerPtr) {a : LogAppenderDefine}
    (typed : a.type = 1 ∨ a.type = 2) :
    ∃ t, addDefined i p s a = .ok t ∧ Filled s t p [.ofDefine (patternAt s p) a] := by
  obtain ⟨here, made, fresh, base, name⟩ := newAppender_fresh s typed
  have ready := setAppenderFormatter_fresh
    (fresh.update fun base => base.setLevel a.level) i a
  have filled := addAppender_filled ready p
  rw [view_of_made base name (s.loggers p).m_formatter] at filled
  unfold addDefined
  dsimp only
  rw [here]
  exact ⟨_, rfl, filled⟩

theorem addDefined_typed {i : LogDefine} {a : LogAppenderDefine}
    (added : addDefined i p s a = .ok t) : a.type = 1 ∨ a.type = 2 := by
  by_contra untyped
  obtain ⟨notFile, notStdout⟩ := not_or.mp untyped
  simp only [addDefined, newAppender, if_neg notFile, if_neg notStdout] at added
  cases added

/-- The appenders of a definition are all added, in order, if all their types are known. -/
theorem addDefined_loop (i : LogDefine) (p : LoggerPtr) (appenders : List LogAppenderDefine)
    (typed : ∀ a ∈ appenders, a.type = 1 ∨ a.type = 2) :
    ∀ s, ∃ t, appenders.foldlM (addDefined i p) s = .ok t ∧
      Filled s t p (appenders.map (.ofDefine (patternAt s p))) := by
  induction appenders with
  | nil => exact fun s => ⟨s, rfl, .refl s p⟩
  | cons a rest ih =>
    intro s
    obtain ⟨here, later⟩ := List.forall_mem_cons.mp typed
    obtain ⟨middle, added, first⟩ := addDefined_filled i s p here
    obtain ⟨t, ran, filled⟩ := ih later middle
    rw [first.pattern] at filled
    exact ⟨t, Fallible.foldlM_cons_ok.mpr ⟨middle, added, ran⟩, first.trans filled⟩

theorem addDefined_loop_typed {i : LogDefine} {appenders : List LogAppenderDefine} :
    ∀ {s}, appenders.foldlM (addDefined i p) s = .ok t →
      ∀ a ∈ appenders, a.type = 1 ∨ a.type = 2 := by
  induction appenders with
  | nil => exact fun _ a member => nomatch member
  | cons a rest ih =>
    intro s ran
    obtain ⟨middle, added, ran⟩ := Fallible.foldlM_cons_ok.mp ran
    exact List.forall_mem_cons.mpr ⟨addDefined_typed added, ih ran⟩

/-- What `configure` does: the logger at `p` gets the definition's level and new
appenders, and its formatter if the definition has a usable one. -/
structure Configured (s t : LogSystem) (p : LoggerPtr) (d : LogDefine) : Prop where
  m_logger : t.m_logger = s.m_logger
  m_root : t.m_root = s.m_root
  loggerCount : t.loggerCount = s.loggerCount
  appenderCount : t.appenderCount = s.appenderCount + d.appenders.length
  other : ∀ q, q ≠ p → t.loggers q = s.loggers q
  self : t.loggers p = { s.loggers p with
    m_level := d.level
    m_formatter := if Usable d.formatter then some ⟨d.formatter⟩ else (s.loggers p).m_formatter
    m_appenders := List.range' s.appenderCount d.appenders.length }
  old : ∀ b < s.appenderCount, b ∉ (s.loggers p).m_appenders → t.appenders b = s.appenders b
  formatted : (s.loggers p).m_formatter.isSome → ∀ b < s.appenderCount,
    (s.appenders b).base.m_formatter.isSome → (t.appenders b).base.m_formatter.isSome
  new : (List.range' s.appenderCount d.appenders.length).map (fun b => (t.appenders b).view) =
    d.appenders.map (.ofDefine (d.pattern (patternAt s p)))

/-- The formatter of the definition is used if it is usable. -/
theorem reformatted_of_define (s : LogSystem) (p : LoggerPtr) (d : LogDefine) :
    s.Reformatted (if d.formatter ≠ "" then Logger.setFormatterString s p d.formatter else s) p
      (if Usable d.formatter then some ⟨d.formatter⟩ else (s.loggers p).m_formatter) := by
  by_cases empty : d.formatter = ""
  · rw [if_neg (not_not.mpr empty), if_neg fun usable => usable.1 empty]
    exact ⟨rfl, rfl, rfl, rfl, fun _ _ => rfl, rfl, fun _ _ => rfl, fun _ _ ready => ready⟩
  · rw [if_pos empty]
    obtain ⟨formatter, reformatted, same⟩ :=
      Logger.setFormatterString_reformatted s p d.formatter
    have chosen : (if Usable d.formatter then some ⟨d.formatter⟩
        else (s.loggers p).m_formatter) = formatter := by
      rw [same]
      cases valid : (LogFormatter.mk d.formatter).isError <;> simp [Usable, empty, valid]
    rw [chosen]
    exact reformatted

theorem configure_configured (s : LogSystem) (p : LoggerPtr) {d : LogDefine}
    (typed : ∀ a ∈ d.appenders, a.type = 1 ∨ a.type = 2) :
    ∃ t, configure s p d = .ok t ∧ Configured s t p d := by
  have leveled : (Logger.setLevel s p d.level).loggers p =
      { s.loggers p with m_level := d.level } := setLogger_self s p _
  have patterned := reformatted_of_define (Logger.setLevel s p d.level) p d
  rw [leveled] at patterned
  obtain ⟨t, ran, filled⟩ := addDefined_loop d p d.appenders typed
    (Logger.clearAppenders (if d.formatter ≠ "" then
      Logger.setFormatterString (Logger.setLevel s p d.level) p d.formatter
      else Logger.setLevel s p d.level) p)
  refine ⟨t, ran, ?_⟩
  generalize (if d.formatter ≠ "" then
      Logger.setFormatterString (Logger.setLevel s p d.level) p d.formatter
      else Logger.setLevel s p d.level) = u at patterned filled
  clear ran
  have cleared : (Logger.clearAppenders u p).loggers p = { s.loggers p with
      m_level := d.level
      m_formatter := if Usable d.formatter then some ⟨d.formatter⟩ else (s.loggers p).m_formatter
      m_appenders := [] } := by
    rw [Logger.clearAppenders, setLogger_self, patterned.self, leveled]
  have count : (Logger.clearAppenders u p).appenderCount = s.appenderCount :=
    patterned.appenderCount
  have shown : patternAt (Logger.clearAppenders u p) p = d.pattern (patternAt s p) := by
    rw [patternAt, cleared, LogDefine.pattern, patternAt]
    split <;> rfl
  have listed : ∀ b, b ∉ (s.loggers p).m_appenders →
      b ∉ ((Logger.setLevel s p d.level).loggers p).m_appenders := by
    rw [leveled]
    exact fun _ absent => absent
  have sizes : (d.appenders.map (AppenderView.ofDefine
      (patternAt (Logger.clearAppenders u p) p))).length = d.appenders.length := List.length_map _
  refine ⟨filled.m_logger.trans patterned.m_logger, filled.m_root.trans patterned.m_root,
    filled.loggerCount.trans patterned.loggerCount, ?_, fun q apart => ?_, ?_,
    fun b bound absent => ?_, fun isSome b bound ready => ?_, ?_⟩
  · rw [filled.appenderCount, count, sizes]
  · rw [filled.other q apart, Logger.clearAppenders, setLogger_other u _ apart,
      patterned.other q apart, Logger.setLevel, setLogger_other s _ apart]
  · rw [filled.self, cleared, count, sizes, List.nil_append]
  · rw [filled.old b (by rw [count]; exact bound)]
    exact patterned.old b (listed b absent)
  · rw [filled.old b (by rw [count]; exact bound)]
    refine patterned.formatted ?_ b ready
    split
    · rfl
    · exact isSome
  · have new := filled.new
    rw [count, sizes, shown] at new
    exact new

theorem configure_typed {d : LogDefine} (ran : configure s p d = .ok t) :
    ∀ a ∈ d.appenders, a.type = 1 ∨ a.type = 2 := addDefined_loop_typed ran

end Chord.LogIniter
