import ChordServer.LoggerViewsEffects
import ChordServer.LoggerViewsUpdates

set_option autoImplicit false

namespace Chord

open LogSystem

/-- The appender hands to the host what its view says. -/
theorem Appender.view_output (platform : Platform) (level : LogLevel) (event : LogEvent)
    (appender : Appender) :
    appender.view.output platform level event = appender.output platform level event := by
  unfold AppenderView.output Appender.output Appender.view
  dsimp only
  rw [Option.map_map]
  rfl

namespace LogSystem

variable {s t : LogSystem} {platform : Platform} {level : LogLevel} {event : LogEvent}

/-- The loggers can be used, and the first one is called `root`. -/
structure WellRooted (s : LogSystem) : Prop extends s.Promised where
  rootName : (s.loggers s.m_root).m_name = "root"

theorem WellRooted.updated (rooted : s.WellRooted) {touched : String → Prop}
    {change : String → LoggerView → LoggerView} (updated : LogIniter.Updated s t touched change)
    (root : t.m_root = s.m_root) : t.WellRooted := by
  refine ⟨⟨updated.wellFormed, updated.formatted rooted.formatted,
    updated.separate rooted.separate⟩, ?_⟩
  rw [root, updated.extension.name _ rooted.wellFormed.root.1]
  exact rooted.rootName

theorem WellRooted.logged (rooted : s.WellRooted) (logged : s.Logged t) : t.WellRooted := by
  refine ⟨logged.promised rooted.toPromised, ?_⟩
  rw [logged.loggers.loggers, logged.loggers.m_root]
  exact rooted.rootName

/-- The loop over the appenders of one logger hands out the lines of its view. -/
theorem loop_puts {p : LoggerPtr}
    (ran : (s.loggers p).m_appenders.foldlM (callAppender platform level event) s = .ok t) :
    s.Puts (((s.loggers p).view s.appenders).outputs platform level event) t := by
  have handed := appenders_put _ ran
  rw [LoggerView.outputs, Logger.view, List.filterMap_map]
  simpa only [Function.comp_def, Appender.view_output] using handed

/-- An event comes to the lines that the views say. -/
theorem log_puts (rooted : s.WellRooted) {p : LoggerPtr} (inside : p < s.loggerCount)
    (logged : Logger.log s p platform level event = .ok t) (m_val : LogDefines) :
    s.Puts (Loggers.outputs platform ⟨s.view, m_val⟩ (s.loggers p).m_name level event) t := by
  have wf := rooted.wellFormed
  have here : s.view (s.loggers p).m_name = (s.loggers p).view s.appenders := by
    rw [LogSystem.view, wf.named_name inside]
  have root : s.view "root" = (s.loggers s.m_root).view s.appenders := by
    rw [LogSystem.view, ← rooted.rootName, wf.named_name wf.root.1]
  have empty : ∀ q, ((s.loggers q).view s.appenders).appenders = [] ↔
      (s.loggers q).m_appenders = [] := fun q => List.map_eq_nil_iff
  rw [Logger.log_sender wf inside, sender] at logged
  have levels : ∀ q, ((s.loggers q).view s.appenders).level = (s.loggers q).m_level :=
    fun _ => rfl
  simp only [Loggers.outputs, here, root, levels, ne_eq, empty]
  by_cases passes : (s.loggers p).m_level ≤ level
  · rw [if_pos passes] at logged ⊢
    by_cases none : (s.loggers p).m_appenders = []
    · rw [if_neg (not_not.mpr none)] at logged ⊢
      by_cases rootPasses : (s.loggers s.m_root).m_level ≤ level
      · rw [if_pos rootPasses]
        by_cases apart : p = s.m_root
        · rw [if_neg fun both => both.1 apart] at logged
          cases logged
          rw [LoggerView.outputs, Logger.view, ← apart, none]
          exact .refl s
        · rw [if_pos ⟨apart, rootPasses⟩] at logged
          exact loop_puts logged
      · rw [if_neg fun both => rootPasses both.2] at logged
        cases logged
        rw [if_neg rootPasses]
        exact .refl s
    · rw [if_pos none] at logged ⊢
      exact loop_puts logged
  · rw [if_neg passes] at logged ⊢
    cases logged
    exact .refl s

/-- So does the event of the macro. -/
theorem CHORD_LOG_LEVEL_puts (rooted : s.WellRooted) {p : LoggerPtr} (inside : p < s.loggerCount)
    {file text : String} {line : Int}
    (ran : CHORD_LOG_LEVEL platform s p level file line text = .ok t) (m_val : LogDefines) :
    s.Puts (Loggers.outputs platform ⟨s.view, m_val⟩ (s.loggers p).m_name level
      (.made platform (s.answers s.asked) (s.loggers p).m_name level file line text)) t := by
  rw [CHORD_LOG_LEVEL_eq] at ran
  split_ifs at ran with passes
  · have asked : s.Logged { s with asked := s.asked + 1 } :=
      ⟨⟨rfl, rfl, rfl, rfl, Nat.le_refl _⟩, rfl, fun _ => ⟨rfl, rfl⟩⟩
    have counted : s.Puts [] { s with asked := s.asked + 1 } := puts_of_same rfl rfl rfl rfl
    exact counted.trans (log_puts (rooted.logged asked) inside ran m_val)
  · cases ran
    have above : ¬ (s.view (s.loggers p).m_name).level ≤ level := by
      rw [LogSystem.view, rooted.wellFormed.named_name inside]
      exact passes
    rw [Loggers.outputs, if_neg above]
    exact .refl s

end LogSystem

namespace Logging

open LogIniter LogDefines

variable {platform : Platform} {state : Logging}

/-- The loggers of the program as they show by their names. -/
def seen (state : Logging) : Loggers := { view := state.log.view, m_val := state.m_val }

theorem seen_of_updated (rooted : state.log.WellRooted) {t : LogSystem} {name : String}
    {f : LoggerView → LoggerView} (updated : Updated state.log t (· = name) (only name f))
    (root : t.m_root = state.log.m_root) :
    t.WellRooted ∧ ({ state with log := t } : Logging).seen = state.seen.change name f :=
  ⟨rooted.updated updated root,
    congrArg (fun view => { view := view, m_val := state.m_val : Loggers })
      (funext (updated.view rooted.separate))⟩

/-- What has become of the loggers is as the value machine has it, with the same outputs. -/
structure Shows (state next : Logging) (shown : Loggers × List Output) : Prop where
  seen : next.seen = shown.1
  kept : next.log.WellRooted
  puts : state.log.Puts shown.2 next.log

/-- Getting a logger changes nothing of what shows. -/
theorem got_shows (rooted : state.log.WellRooted) (name : String) :
    let got := LoggerManager.getLogger state.log name
    LoggerManager.Got state.log name got.1 got.2 ∧ got.1.WellRooted ∧
      (⟨got.1.view, state.m_val⟩ : Loggers) = state.seen ∧ state.log.Puts [] got.1 := by
  have got := LoggerManager.getLogger_got rooted.wellFormed name
  have puts := LoggerManager.getLogger_puts state.log name
  obtain ⟨kept, shown⟩ := seen_of_updated rooted (got_updated got) puts.m_root
  refine ⟨got, kept, Eq.trans shown ?_, puts⟩
  unfold Loggers.change only
  simp only [ite_self]

/-- An event at the logger of a name. -/
theorem shows_of_logged {middle t : LogSystem} {outputs : List Output} (kept : middle.WellRooted)
    (shown : (⟨middle.view, state.m_val⟩ : Loggers) = state.seen)
    (got : state.log.Puts [] middle) (logged : middle.Logged t) (puts : middle.Puts outputs t) :
    Shows state { state with log := t } (state.seen, outputs) := by
  refine ⟨Eq.trans ?_ shown, kept.logged logged, got.trans puts⟩
  rw [seen, logged.view]

theorem print_shows (rooted : state.log.WellRooted) (name : String) (level : LogLevel)
    (file : String) (line : Int) (text : String) :
    ∃ n, Option.Rel (Shows state) (perform platform state (.print name level file line text))
      (Loggers.step platform state.seen
        (.print name level file line text, state.log.answers n)) := by
  obtain ⟨got, kept, shown, handed⟩ := got_shows rooted name
  simp only [perform, Loggers.step]
  generalize LoggerManager.getLogger state.log name = made at got kept shown handed ⊢
  obtain ⟨t, ran⟩ := CHORD_LOG_LEVEL_returns platform kept.wellFormed kept.formatted got.inside
    level file line text
  have puts := CHORD_LOG_LEVEL_puts kept got.inside ran state.m_val
  rw [got.called, shown, handed.answers] at puts
  refine ⟨made.1.asked, ?_⟩
  rw [ran]
  exact .some (shows_of_logged kept shown handed (CHORD_LOG_LEVEL_logged ran) puts)

end Logging

end Chord
