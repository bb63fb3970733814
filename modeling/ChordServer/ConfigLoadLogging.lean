import ChordServer.ConfigLoadDocument
import ChordServer.ConfigLockAnswers
import ChordServer.LogIniterHistory
import ChordServer.LoggerLocksAlone

set_option autoImplicit false

namespace Chord

open YAML LockProgram LogDefines

variable {types : ConfigTypes} (lib : Libraries types)

/-- The set that a text decodes to. -/
def decoded (text : String) : Option LogDefines :=
  (ConfigProgram.ConfigVar.FromStr lib none text).1.toOption

/-- The sets that the nodes called `logs` decode to, in the order of the document. -/
def logsValues (root : Node) : List LogDefines :=
  (preorder [] root).filterMap fun entry =>
    if Names entry.1 "logs" then decoded lib (nodeText lib.yaml entry.2) else none

/-- The set that the loader reads from a listed node. -/
def entryValue (entry : String × Node) : Option LogDefines :=
  if entry.1 ≠ "" ∧ tolower entry.1 = "logs" then decoded lib (nodeText lib.yaml entry.2)
  else none

/-- The listed nodes of a document give the sets of its nodes. -/
theorem filterMap_listing (entries : List (List String × Node)) :
    (listing entries).filterMap (entryValue lib) = entries.filterMap fun entry =>
      if Names entry.1 "logs" then decoded lib (nodeText lib.yaml entry.2) else none := by
  rw [listing, List.filterMap_map, List.filterMap_filter]
  refine List.filterMap_congr fun entry _ => ?_
  by_cases known : listed entry.1 = true
  · have lower := tolower_of_validName (validName_of_listed known)
    have same : (dotted entry.1 ≠ "" ∧ tolower (dotted entry.1) = "logs") ↔
        Names entry.1 "logs" := by
      rw [lower]
      constructor
      · rintro ⟨-, same⟩
        exact ⟨by simp, known, same⟩
      · rintro ⟨-, -, same⟩
        exact ⟨by simp [same], same⟩
    rw [if_pos known]
    simp only [Function.comp_apply, entryValue, same]
  · rw [if_neg known, if_neg fun names => known names.2.1]

theorem filterMap_ListAllMember (root : Node) :
    (ListAllMember lib.yaml "" root).1.filterMap (entryValue lib) = logsValues lib root := by
  rw [ListAllMember_root]
  exact filterMap_listing lib _

/-- What the loggers promise in the runs that only set `g_log_defines`. -/
structure LogSystem.Promised (s : LogSystem) : Prop where
  wellFormed : s.WellFormed
  formatted : s.Formatted
  separate : s.Separate

theorem LogSystem.Logged.promised {s t : LogSystem} (logged : s.Logged t) (ready : s.Promised) :
    t.Promised :=
  ⟨logged.loggers.wellFormed ready.wellFormed, logged.formatted ready.formatted,
    logged.separate ready.separate⟩

theorem LogSystem.promised_new (host : Host) (answers : Nat → Environment) :
    (LoggerManager.new host answers).Promised :=
  ⟨LoggerManager.new_wellFormed host answers, LoggerManager.new_formatted host answers,
    LoggerManager.new_separate host answers⟩

/-- The registry has `g_log_defines` under its name only, with this value and the one listener
of `LogIniter`. -/
structure Process.HasLogs (p : Process types) (address : Nat) (m_val : LogDefines) : Prop where
  bound : p.GetDatas "logs" = some (none, address)
  once : ∀ name, p.GetDatas name = some (none, address) → name = "logs"
  var : ∃ key, p.vars (none, address) = some { m_val := m_val, m_cbs := [key] }
  unlistened : ∀ other var, other ≠ address → p.vars (none, other) = some var → var.m_cbs = []

/-- The value of `g_log_defines` and what the loggers show are as in the given state. -/
structure Process.Shows (p : Process types) (address : Nat) (state : Logging) : Prop extends
    p.HasLogs address state.m_val where
  ready : p.log.Promised
  ready' : state.log.Promised
  view : p.log.view = state.log.view

/-- A call returns where the run does, and shows its state. -/
def Agrees (address : Nat) : Except Fault (Unit × Process types) → Option Logging → Prop
  | .ok result, some final => result.2.Shows address final
  | .error _, none => True
  | _, _ => False

variable {lib} {p q : Process types} {address : Nat} {state : Logging}

theorem Agrees.bind {result : Except Fault (Unit × Process types)} {final : Option Logging}
    {next : Process types → Except Fault (Unit × Process types)}
    {later : Logging → Option Logging} (agrees : Agrees address result final)
    (following : ∀ q state, q.Shows address state → Agrees address (next q) (later state)) :
    Agrees address (result.bind fun result => next result.2) (final.bind later) := by
  cases result with
  | error fault =>
    cases final with
    | none => trivial
    | some state => exact agrees.elim
  | ok result =>
    cases final with
    | none => exact agrees.elim
    | some state => exact following result.2 state agrees

/-- Output and events show in nothing. -/
theorem Process.Shows.logged (shows : p.Shows address state) {log : LogSystem}
    (logged : p.log.Logged log) : ({ p with log := log } : Process types).Shows address state :=
  ⟨⟨shows.bound, shows.once, shows.var, shows.unlistened⟩, logged.promised shows.ready,
    shows.ready', logged.view.trans shows.view⟩

/-- The listener returns for the loggers of two states that show the same, or for neither. -/
theorem LogIniter.onChange_agrees {s t : LogSystem} (first : s.Promised) (second : t.Promised)
    (same : s.view = t.view) (platform : Platform) (old_value new_value : LogDefines) :
    (∃ s' t', onChange platform old_value new_value s = .ok s' ∧
      onChange platform old_value new_value t = .ok t' ∧ s'.Promised ∧ t'.Promised ∧
      s'.view = t'.view) ∨
    ∃ fault fault', onChange platform old_value new_value s = .error fault ∧
      onChange platform old_value new_value t = .error fault' := by
  have returns := onChange_returns_iff_settable platform old_value new_value first.wellFormed
    first.formatted
  have returns' := onChange_returns_iff_settable platform old_value new_value second.wellFormed
    second.formatted
  cases ran : onChange platform old_value new_value s with
  | error fault =>
    cases ran' : onChange platform old_value new_value t with
    | error fault' => exact .inr ⟨fault, fault', rfl, rfl⟩
    | ok t' =>
      obtain ⟨s', ran''⟩ := returns.mpr (returns'.mp ⟨t', ran'⟩)
      rw [ran] at ran''
      cases ran''
  | ok s' =>
    obtain ⟨t', ran'⟩ := returns'.mpr (returns.mp ⟨s', ran⟩)
    obtain ⟨updated, -⟩ := onChange_updated first.wellFormed ran
    obtain ⟨updated', -⟩ := onChange_updated second.wellFormed ran'
    refine .inl ⟨s', t', rfl, ran', ?_, ?_, ?_⟩
    · exact ⟨updated.wellFormed, updated.formatted first.formatted,
        updated.separate first.separate⟩
    · exact ⟨updated'.wellFormed, updated'.formatted second.formatted,
        updated'.separate second.separate⟩
    · funext n
      rw [updated.view first.separate, updated'.view second.separate, same]

namespace ConfigProgram

theorem lift_alone {α : Type} (program : LogProgram α) (p : Process types) :
    (lift program).alone p =
      (program.alone p.log).map fun result => (result.1, { p with log := result.2 }) := by
  unfold lift
  refine alone_zoom ?_ ?_ ?_ program p
  · exact fun _ _ => rfl
  · exact fun _ _ _ => rfl
  · exact fun _ => rfl

/-- The root logger takes any message. -/
theorem logRoot_shows (lib : Libraries types) (shows : p.Shows address state) (level : LogLevel)
    (file : String)
    (line : Int) (text : String) :
    ∃ q, (logRoot lib level file line text).alone p = .ok ((), q) ∧ q.Shows address state := by
  obtain ⟨t, ran⟩ := CHORD_LOG_LEVEL_returns lib.platform shows.ready.wellFormed
    shows.ready.formatted shows.ready.wellFormed.root.1 level file line text
  refine ⟨{ p with log := t }, ?_, shows.logged (CHORD_LOG_LEVEL_logged ran)⟩
  rw [logRoot, lift_alone, alone_bind, LogProgram.LoggerManager.getRoot, alone_read]
  show Except.map _ ((LogProgram.CHORD_LOG_LEVEL lib.platform p.log.m_root level file line
    text).alone p.log) = _
  rw [LogProgram.CHORD_LOG_LEVEL_alone, ran]
  rfl

theorem setValue_same {v : VarPtr types} {var : ConfigVarMembers (types.Val v.1)}
    (found : p.vars v = some var) {val : types.Val v.1} (same : (val == var.m_val) = true) :
    (ConfigVar.setValue lib v val).alone p = .ok ((), p) := by
  unfold ConfigVar.setValue ConfigVar.notify
  simp only [alone_bind, alone_locked, alone_read, Except.bind, found, if_pos same]
  rfl

/-- The listeners are called before the value is stored. -/
theorem setValue_new {v : VarPtr types} {var : ConfigVarMembers (types.Val v.1)}
    (found : p.vars v = some var) {val : types.Val v.1} (new : ¬ (val == var.m_val) = true) :
    (ConfigVar.setValue lib v val).alone p =
      ((var.m_cbs.forM fun _ => ConfigVar.callback lib v.1 var.m_val val).alone p).map
        fun result => ((), ConfigVar.update v (fun var => { var with m_val := val }) result.2) := by
  unfold ConfigVar.setValue ConfigVar.notify
  simp only [alone_bind, alone_locked, alone_read, Except.bind, found, if_neg new]
  cases (var.m_cbs.forM fun _ => ConfigVar.callback lib v.1 var.m_val val).alone p <;> rfl

/-- The one listener of `g_log_defines`. -/
theorem listener_alone (key : Nat) (old_value new_value : LogDefines) :
    ([key].forM fun _ => ConfigVar.callback lib none old_value new_value).alone p =
      (LogIniter.onChange lib.platform old_value new_value p.log).map fun log =>
        ((), { p with log := log }) := by
  have called : (ConfigVar.callback lib none old_value new_value).alone p =
      (LogIniter.onChange lib.platform old_value new_value p.log).map fun log =>
        ((), { p with log := log }) := by
    show (lift (LogProgram.LogIniter.onChange lib.platform old_value new_value)).alone p = _
    rw [lift_alone, LogProgram.LogIniter.onChange_alone]
    cases LogIniter.onChange lib.platform old_value new_value p.log <;> rfl
  refine (alone_bind _ _ _).trans ?_
  rw [called]
  cases LogIniter.onChange lib.platform old_value new_value p.log <;> rfl

/-- A new value of `g_log_defines` goes to the listener. -/
theorem setValue_logs (shows : p.Shows address state) (val : LogDefines) :
    Agrees address ((ConfigVar.setValue lib (none, address) val).alone p)
      (Logging.step lib.platform state (.setValue val)) := by
  obtain ⟨key, var⟩ := shows.var
  rw [Logging.step_setValue]
  by_cases same : val = state.m_val
  · have equal : ((val : types.Val none) == state.m_val) = true := beq_iff_eq.mpr same
    have told := @setValue_same types lib p (none, address) _ var val equal
    rw [if_pos same, told]
    exact shows
  · have apart : ¬ ((val : types.Val none) == state.m_val) = true :=
      fun equal => same (beq_iff_eq.mp equal)
    have told := @setValue_new types lib p (none, address) _ var val apart
    have called := @listener_alone types lib p key state.m_val val
    rw [if_neg same, told]
    rcases LogIniter.onChange_agrees shows.ready shows.ready' shows.view lib.platform state.m_val
      val with ⟨log, log', ran, ran', ready, ready', view⟩ | ⟨fault, fault', ran, ran'⟩
    · rw [ran] at called
      rw [ran', called]
      refine ⟨⟨shows.bound, shows.once, ⟨key, ?_⟩, fun other var apart found => ?_⟩, ready, ready',
        view⟩
      · show Function.update p.vars (none, address) ((p.vars (none, address)).map _) _ = _
        rw [Function.update_self, var]
        rfl
      · have kept : p.vars (none, other) = some var := by
          rw [← found]
          refine (Function.update_of_ne ?_ _ _).symm
          exact fun same => apart (Prod.mk.inj same).2
        exact shows.unlistened other var apart kept
    · rw [ran] at called
      rw [ran', called]
      trivial

/-- The listeners of the other variables do nothing. -/
theorem callbacks_other (shows : p.Shows address state) {v : VarPtr types}
    (other : v ≠ (none, address)) {var : ConfigVarMembers (types.Val v.1)}
    (found : p.vars v = some var) (old_value new_value : types.Val v.1) :
    (var.m_cbs.forM fun _ => ConfigVar.callback lib v.1 old_value new_value).alone p =
      .ok ((), p) := by
  obtain ⟨tag, place⟩ := v
  cases tag with
  | none =>
    have apart : place ≠ address := fun same => other (by rw [same])
    rw [shows.unlistened place var apart found]
    rfl
  | some t =>
    have idle : ∀ keys : List Nat,
        (keys.forM fun _ => (pure () : ConfigProgram types Unit)).alone p = .ok ((), p) := by
      intro keys
      induction keys with
      | nil => rfl
      | cons key rest ih => exact ih
    exact idle var.m_cbs

theorem setValue_other (shows : p.Shows address state) {v : VarPtr types}
    (other : v ≠ (none, address)) (val : types.Val v.1) :
    ∃ q, (ConfigVar.setValue lib v val).alone p = .ok ((), q) ∧ q.Shows address state := by
  cases found : p.vars v with
  | none =>
    refine ⟨p, ?_, shows⟩
    unfold ConfigVar.setValue ConfigVar.notify
    simp only [alone_bind, alone_locked, alone_read, Except.bind, found]
    rfl
  | some var =>
    by_cases same : (val == var.m_val) = true
    · exact ⟨p, setValue_same found same, shows⟩
    · refine ⟨_, (setValue_new found same).trans (congrArg (Except.map _)
        (callbacks_other shows other found _ _)), ?_⟩
      refine ⟨⟨shows.bound, shows.once, ?_, fun place written apart kept => ?_⟩, shows.ready,
        shows.ready', shows.view⟩
      · obtain ⟨key, logs⟩ := shows.var
        exact ⟨key, (Function.update_of_ne (Ne.symm other) _ _).trans logs⟩
      · have kept : Function.update p.vars v ((p.vars v).map _) (none, place) = some written := kept
        by_cases here : (none, place) = v
        · subst here
          rw [Function.update_self, found] at kept
          obtain rfl := Option.some.inj kept
          exact shows.unlistened place var apart found
        · rw [Function.update_of_ne here] at kept
          exact shows.unlistened place written apart kept

theorem print_shows (shows : p.Shows address state) (printed : String) :
    ∃ q, (lift (modify fun s => { s with host := s.host.print printed }) :
      ConfigProgram types Unit).alone p = .ok ((), q) ∧ q.Shows address state :=
  ⟨_, lift_alone _ p, shows.logged ⟨⟨rfl, rfl, rfl, rfl, Nat.le_refl _⟩, rfl, fun _ => ⟨rfl, rfl⟩⟩⟩

/-- A text that does not parse leaves a message. -/
theorem fromString_error (shows : p.Shows address state) {v : VarPtr types} {val what : String}
    (failed : (ConfigVar.FromStr lib v.1 val).1 = .error what) :
    ∃ q, (ConfigVar.fromString lib v val).alone p = .ok ((), q) ∧ q.Shows address state := by
  obtain ⟨middle, printed, after⟩ := print_shows shows (ConfigVar.FromStr lib v.1 val).2
  obtain ⟨q, logged, last⟩ := logRoot_shows lib after .ERROR "config.h" 340
    (Chord.ConfigVar.exceptionMessage what val)
  refine ⟨q, ?_, last⟩
  unfold ConfigVar.fromString
  simp only [alone_bind, printed, Except.bind, failed, logged]

theorem fromString_ok (shows : p.Shows address state) {v : VarPtr types} {val : String}
    {parsed : types.Val v.1} (read : (ConfigVar.FromStr lib v.1 val).1 = .ok parsed) :
    ∃ q, q.Shows address state ∧
      (ConfigVar.fromString lib v val).alone p = (ConfigVar.setValue lib v parsed).alone q := by
  obtain ⟨q, printed, after⟩ := print_shows shows (ConfigVar.FromStr lib v.1 val).2
  refine ⟨q, after, ?_⟩
  unfold ConfigVar.fromString
  simp only [alone_bind, printed, Except.bind, read]

/-- A round of the loader does what the set in the node asks for, if there is one. -/
theorem loadEntry_agrees (lib : Libraries types) (shows : p.Shows address state)
    (entry : String × Node) :
    Agrees address ((Config.loadEntry lib entry).alone p)
      (match entryValue lib entry with
        | none => some state
        | some val => Logging.step lib.platform state (.setValue val)) := by
  unfold Config.loadEntry entryValue
  by_cases empty : entry.1 = ""
  · rw [if_pos empty, if_neg fun named => named.1 empty]
    exact shows
  rw [if_neg empty, Config.LookupBase]
  simp only [alone_bind, alone_locked, alone_read, Except.bind]
  by_cases logs : tolower entry.1 = "logs"
  · rw [if_pos ⟨empty, logs⟩, logs, shows.bound]
    dsimp only
    cases read : (ConfigVar.FromStr lib none (nodeText lib.yaml entry.2)).1 with
    | error what =>
      obtain ⟨q, ran, after⟩ := @fromString_error _ lib _ _ _ shows (none, address) _ _ read
      rw [ran]
      simp only [decoded, read]
      exact after
    | ok parsed =>
      obtain ⟨q, after, ran⟩ := @fromString_ok _ lib _ _ _ shows (none, address) _ _ read
      rw [ran]
      simp only [decoded, read]
      exact setValue_logs after parsed
  · rw [if_neg fun named => logs named.2]
    cases found : p.GetDatas (tolower entry.1) with
    | none => exact shows
    | some v =>
      have other : v ≠ (none, address) := by
        rintro rfl
        exact logs (shows.once _ found)
      dsimp only
      cases read : (ConfigVar.FromStr lib v.1 (nodeText lib.yaml entry.2)).1 with
      | error what =>
        obtain ⟨q, ran, after⟩ := fromString_error shows read
        rw [ran]
        exact after
      | ok parsed =>
        obtain ⟨middle, after, ran⟩ := fromString_ok shows read
        obtain ⟨q, stored, last⟩ := setValue_other after other parsed
        rw [ran, stored]
        exact last

theorem loadEntries_agrees (entries : List (String × Node)) :
    ∀ {p : Process types} {state : Logging}, p.Shows address state →
      Agrees address ((entries.forM (Config.loadEntry lib)).alone p)
        (Transition.run (Logging.step lib.platform) state
          ((entries.filterMap (entryValue lib)).map .setValue)) := by
  induction entries with
  | nil => exact fun shows => shows
  | cons entry rest ih =>
    intro p state shows
    have following : ∀ (q : Process types) (state : Logging), q.Shows address state →
        Agrees address ((rest.forM (Config.loadEntry lib)).alone q)
          (Transition.run (Logging.step lib.platform) state
            ((rest.filterMap (entryValue lib)).map .setValue)) := fun _ _ shows => ih shows
    have later := (loadEntry_agrees lib shows entry).bind following
    have first : ((entry :: rest).forM (Config.loadEntry lib)).alone p =
        ((Config.loadEntry lib entry).alone p).bind fun result =>
          (rest.forM (Config.loadEntry lib)).alone result.2 := alone_bind _ _ _
    rw [first]
    cases value : entryValue lib entry with
    | none =>
      rw [List.filterMap_cons_none value]
      rw [value] at later
      exact later
    | some val =>
      rw [List.filterMap_cons_some value, List.map_cons, Transition.run_cons]
      rw [value] at later
      exact later

theorem logRoots_shows (lib : Libraries types) (texts : List String) :
    ∀ {p : Process types}, p.Shows address state →
      ∃ q, (texts.forM fun text => logRoot lib .ERROR "config.cpp" 17 text).alone p =
        .ok ((), q) ∧ q.Shows address state := by
  induction texts with
  | nil => exact fun {p} shows => ⟨p, rfl, shows⟩
  | cons text rest ih =>
    intro p shows
    obtain ⟨middle, logged, after⟩ := logRoot_shows lib shows .ERROR "config.cpp" 17 text
    obtain ⟨q, ran, last⟩ := ih after
    refine ⟨q, (alone_bind _ _ _).trans ?_, last⟩
    rw [logged]
    exact ran

/-- Loading a document does to the loggers what setting its sets one after the other does. -/
theorem LoadFromYaml_agrees (shows : p.Shows address state) (root : Node) :
    Agrees address ((Config.LoadFromYaml lib root).alone p)
      (Transition.run (Logging.step lib.platform) state
        ((logsValues lib root).map .setValue)) := by
  unfold Config.LoadFromYaml
  obtain ⟨q, logged, after⟩ := logRoots_shows lib (ListAllMember lib.yaml "" root).2 shows
  simp only [alone_bind, logged, Except.bind]
  rw [← filterMap_ListAllMember]
  exact loadEntries_agrees _ after

end ConfigProgram

namespace Logging

/-- A logger that nothing reaches. -/
def Quieted (view : LoggerView) : Prop := view.level = LogIniter.tooHigh ∧ view.appenders = []

/-- What setting one value changes of what the loggers show. -/
theorem setValue_view {platform : Platform} {state next : Logging} {val : LogDefines}
    (ready : state.log.Promised) (stepped : step platform state (.setValue val) = some next)
    (name : String) :
    next.log.Promised ∧ next.m_val = val ∧ next.log.view name =
      if val = state.m_val then state.log.view name
      else LogIniter.changed state.m_val val name (state.log.view name) := by
  rcases step_setValue_some platform stepped with ⟨same, rfl⟩ | ⟨differ, stored, ran⟩
  · rw [if_pos same]
    exact ⟨ready, same.symm, rfl⟩
  · obtain ⟨updated, -⟩ := LogIniter.onChange_updated ready.wellFormed ran
    rw [if_neg differ]
    exact ⟨⟨updated.wellFormed, updated.formatted ready.formatted,
      updated.separate ready.separate⟩, stored, updated.view ready.separate name⟩

/-- A logger of which no value speaks stays as it is. -/
theorem setValues_unmentioned {platform : Platform} {name : String} (values : List LogDefines)
    (unmentioned : ∀ value ∈ values, value.find name = none) :
    ∀ {state final : Logging}, state.log.Promised → state.m_val.find name = none →
      Transition.run (step platform) state (values.map .setValue) = some final →
      final.log.view name = state.log.view name := by
  induction values with
  | nil =>
    intro state final _ _ ran
    obtain rfl := Option.some.inj ran
    rfl
  | cons val rest ih =>
    intro state final ready missing ran
    obtain ⟨absent, later⟩ := List.forall_mem_cons.mp unmentioned
    obtain ⟨next, stepped, after⟩ := Option.bind_eq_some_iff.mp ran
    obtain ⟨kept, rfl, view⟩ := setValue_view ready stepped name
    rw [ih later kept absent after, view]
    simp [LogIniter.changed, absent, missing]

/-- A logger of which the last value does not speak any more is silent. -/
theorem setValues_removed {platform : Platform} {name : String} (values : List LogDefines) :
    ∀ {state final : Logging}, state.log.Promised →
      ((∃ value ∈ state.m_val :: values, (value.find name).isSome) ∨
        Quieted (state.log.view name)) →
      Transition.run (step platform) state (values.map .setValue) = some final →
      final.m_val.find name = none → Quieted (final.log.view name) := by
  induction values with
  | nil =>
    rintro state final _ (⟨value, member, found⟩ | quiet) ran missing
    · obtain rfl := Option.some.inj ran
      rw [List.mem_singleton.mp member, missing] at found
      cases found
    · obtain rfl := Option.some.inj ran
      exact quiet
  | cons val rest ih =>
    intro state final ready mentioned ran missing
    obtain ⟨next, stepped, after⟩ := Option.bind_eq_some_iff.mp ran
    obtain ⟨kept, rfl, view⟩ := setValue_view ready stepped name
    refine ih kept ?_ after missing
    cases found : next.m_val.find name with
    | some d => exact .inl ⟨next.m_val, List.mem_cons_self, by rw [found]; rfl⟩
    | none =>
      rw [LogIniter.changed, found] at view
      rcases mentioned with ⟨value, member, known⟩ | quiet
      · rcases List.mem_cons.mp member with rfl | member
        · have differ : next.m_val ≠ state.m_val := by
            intro same
            rw [← same, found] at known
            cases known
          rw [if_neg differ, if_pos known] at view
          rw [view]
          exact .inr ⟨rfl, rfl⟩
        · exact .inl ⟨value, member, known⟩
      · right
        rw [view]
        split_ifs
        · exact quiet
        · exact ⟨rfl, rfl⟩
        · exact quiet

end Logging

/-- `LoadFromYaml` returns and leaves the process so. -/
def Process.Loads (lib : Libraries types) (p : Process types) (root : Node) (q : Process types) :
    Prop := (ConfigProgram.Config.LoadFromYaml lib root).alone p = .ok ((), q)

/-- What loading a document does to the loggers of a fresh process. -/
structure Configures (lib : Libraries types) (p : Process types) (address : Nat) (root : Node) :
    Prop where
  returns : (∃ q, p.Loads lib root q) ↔ (∅ :: logsValues lib root).IsChain Logging.Settable
  stored : ∀ q, p.Loads lib root q → q.HasLogs address ((logsValues lib root).getLastD ∅)
  defined : ∀ q, p.Loads lib root q → ∀ d ∈ (logsValues lib root).getLastD ∅,
    q.log.view d.name = .ofDefine d (inherited (logsValues lib root) d.name)
  removed : ∀ q, p.Loads lib root q → ∀ name,
    ((logsValues lib root).getLastD ∅).find name = none →
      (∃ value ∈ logsValues lib root, (value.find name).isSome) →
        Logging.Quieted (q.log.view name)
  unmentioned : ∀ q, p.Loads lib root q → ∀ name,
    (∀ value ∈ logsValues lib root, value.find name = none) → q.log.view name = p.log.view name

/-- Loading a document into a fresh process returns exactly if each set that one of its `logs`
nodes decodes to can be set after the one before it. The loggers of the last set are then what
its definitions say, those that only earlier sets define are silent, and the others are as they
were, whatever other nodes the document has. -/
theorem LoadFromYaml_configures (lib : Libraries types) {p : Process types} {address : Nat}
    (host : Host) (answers : Nat → Environment) (fresh : p.log = LoggerManager.new host answers)
    (logs : p.HasLogs address ∅) (root : Node) : Configures lib p address root := by
  have ready : (Logging.start host answers).log.Promised := LogSystem.promised_new host answers
  have shows : p.Shows address (Logging.start host answers) :=
    ⟨logs, fresh ▸ ready, ready, by rw [fresh]; rfl⟩
  have agrees := @ConfigProgram.LoadFromYaml_agrees _ lib _ _ _ shows root
  have completes := @Logging.setValues_return_iff lib.platform (logsValues lib root)
    (Logging.start host answers) ready.wellFormed ready.formatted
  have ends : ∀ q, p.Loads lib root q → ∃ final,
      Transition.run (Logging.step lib.platform) (Logging.start host answers)
        ((logsValues lib root).map .setValue) = some final ∧ q.Shows address final := by
    intro q ran
    rw [Process.Loads] at ran
    rw [ran] at agrees
    cases final : Transition.run (Logging.step lib.platform) (Logging.start host answers)
      ((logsValues lib root).map .setValue) with
    | none => rw [final] at agrees; exact agrees.elim
    | some state => rw [final] at agrees; exact ⟨state, rfl, agrees⟩
  have last : ∀ {final}, Transition.run (Logging.step lib.platform) (Logging.start host answers)
      ((logsValues lib root).map .setValue) = some final →
        final.m_val = (logsValues lib root).getLastD ∅ :=
    fun ran => Logging.run_setValues_m_val lib.platform _ ran
  refine ⟨⟨?_, fun chain => ?_⟩, fun q ran => ?_, fun q ran d member => ?_,
    fun q ran name missing mentioned => ?_, fun q ran name unmentioned => ?_⟩
  · rintro ⟨q, ran⟩
    obtain ⟨final, steps, -⟩ := ends q ran
    exact completes.mp ⟨final, steps⟩
  · obtain ⟨final, steps⟩ := completes.mpr chain
    rw [steps] at agrees
    cases ran : (ConfigProgram.Config.LoadFromYaml lib root).alone p with
    | error fault => rw [ran] at agrees; exact agrees.elim
    | ok result => exact ⟨result.2, ran⟩
  · obtain ⟨final, steps, shown⟩ := ends q ran
    rw [← last steps]
    exact shown.toHasLogs
  · obtain ⟨final, steps, shown⟩ := ends q ran
    rw [← last steps] at member
    rw [shown.view]
    exact (Logging.run_follows _ steps).view d member
  · obtain ⟨final, steps, shown⟩ := ends q ran
    rw [← last steps] at missing
    rw [shown.view]
    obtain ⟨value, member, known⟩ := mentioned
    exact Logging.setValues_removed _ ready (.inl ⟨value, .tail _ member, known⟩) steps missing
  · obtain ⟨final, steps, shown⟩ := ends q ran
    rw [shown.view, Logging.setValues_unmentioned _ unmentioned ready rfl steps, fresh]
    rfl

theorem Process.hasLogs_start (types : ConfigTypes) (host : Host)
    (answers : Nat → Environment) : (Process.start types host answers).HasLogs 0 ∅ := by
  refine ⟨rfl, fun name found => ?_, ⟨1, rfl⟩, fun other var apart found => ?_⟩
  · simp only [Process.start] at found
    split_ifs at found with same
    exact same
  · cases other with
    | zero => exact absurd rfl apart
    | succ other => cases found

/-- The definition of the root logger. -/
def rootLogger : Node := .Sequence [.Map [("name", .Scalar "root"), ("level", .Scalar "ERROR")]]

/-- It stands under `logs`, with a number for a name that nobody has registered. -/
def configuration : Node := .Map [("port", .Scalar "80"), ("logs", rootLogger)]

theorem LoadFromYaml_configures_root :
    (logsValues silentLibraries configuration).map KeyedSet.toList =
      [[{ name := "root", level := .ERROR }]] ∧
    Configures silentLibraries (Process.start numbers default default) 0 configuration := by
  refine ⟨?_, LoadFromYaml_configures silentLibraries default default rfl
    (Process.hasLogs_start numbers default default) configuration⟩
  have value : (decoded silentLibraries (Flow.plain.emit rootLogger)).map KeyedSet.toList =
      some [{ name := "root", level := .ERROR }] := by
    unfold decoded ConfigProgram.ConfigVar.FromStr LogDefines.fromString
    simp only [silentLibraries, Flow.plain.Load_emit, Decoder.lift]
    rfl
  have nodes : preorder [] configuration =
      [([], configuration), (["port"], .Scalar "80"), (["logs"], rootLogger)] := rfl
  obtain ⟨val, read, same⟩ := Option.map_eq_some_iff.mp value
  have read : decoded silentLibraries (nodeText silentLibraries.yaml rootLogger) = some val := read
  rw [logsValues, nodes, List.filterMap_cons, if_neg (by decide), List.filterMap_cons,
    if_neg (by decide), List.filterMap_cons, if_pos (by decide), read, ← same]
  rfl

end Chord
