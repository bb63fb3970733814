import ChordServer.ConfigLockRules
import ChordServer.YamlFlow

set_option autoImplicit false

namespace Chord

open YAML LockProgram LockRules LockThreads

variable {types : ConfigTypes} (lib : Libraries types)

/-- What a call returns, of the calls whose result is an object. -/
inductive Answer (types : ConfigTypes)
  | logger (p : LoggerPtr)
  | lookup (result : Except String (Option (VarPtr types)))
  | found (it : Option (VarPtr types))
  | nothing

namespace ConfigProgram

/-- The code of a call, with its result. -/
def answer : Operation types → ConfigProgram types (Answer types)
  | .getLogger name => do return .logger (← lift (LogProgram.LoggerManager.getLogger name))
  | .Lookup tag name default_value => do
      return .lookup (← Config.Lookup lib tag name default_value)
  | .LookupOnly tag name => do return .found (← Config.LookupOnly tag name)
  | .LookupBase name => do return .found (← Config.LookupBase name)
  | call => do
      operation lib call
      return .nothing

/-- What an answer says of the loggers and of the registry from then on. -/
def Right : Operation types → Answer types → Process types → Prop
  | .getLogger name, .logger p, s => s.log.m_logger.find name = some (name, p)
  | .Lookup tag name _, .lookup result, s => Config.LookupRight tag name result s
  | .LookupOnly _ name, .found it, s => ∀ v, it = some v → s.GetDatas name = some v
  | .LookupBase name, .found it, s => ∀ v, it = some v → s.GetDatas name = some v
  | _, _, _ => True

theorem keeps_operation (call : Operation types) : Keeps [] (operation lib call) := by
  cases call with
  | getLogger name =>
    exact keeps_ignore (keeps_lift (LogProgram.LoggerManager.keeps_getLogger name))
  | loggersToYamlString =>
    exact keeps_ignore (keeps_lift (LogProgram.LoggerManager.keeps_toYamlString lib.yaml))
  | log logger level event => exact keeps_lift (LogProgram.Logger.keeps_log _ level event logger)
  | setLevel logger val => exact keeps_lift (LogProgram.Logger.keeps_setLevel logger val)
  | setFormatter logger val => exact keeps_lift (LogProgram.Logger.keeps_setFormatter logger val)
  | setFormatterString logger val =>
    exact keeps_lift (LogProgram.Logger.keeps_setFormatterString logger val)
  | getFormatter logger =>
    exact keeps_ignore (keeps_lift (LogProgram.Logger.keeps_getFormatter logger))
  | addAppender logger appender =>
    exact keeps_lift (LogProgram.Logger.keeps_addAppender logger appender)
  | delAppender logger appender =>
    exact keeps_lift (LogProgram.Logger.keeps_delAppender logger appender)
  | clearAppenders logger => exact keeps_lift (LogProgram.Logger.keeps_clearAppenders logger)
  | loggerToYamlString logger =>
    exact keeps_ignore (keeps_lift (LogProgram.Logger.keeps_toYamlString lib.yaml logger))
  | newFileLogAppender filename =>
    exact keeps_ignore (keeps_lift (LogProgram.FileLogAppender.keeps_new filename))
  | newStdOutLogAppender => exact keeps_ignore (keeps_lift LogProgram.StdOutLogAppender.keeps_new)
  | appenderLog appender level event =>
    exact keeps_lift (LogProgram.keeps_callAppender lib.platform level event appender)
  | setAppenderFormatter appender val =>
    exact keeps_lift (LogProgram.LogAppender.keeps_setFormatter appender val)
  | getAppenderFormatter appender =>
    exact keeps_ignore (keeps_lift (LogProgram.LogAppender.keeps_getFormatter appender))
  | setAppenderLevel appender level =>
    exact keeps_lift (LogProgram.LogAppender.keeps_setLevel level appender)
  | appenderToYamlString appender =>
    exact keeps_ignore (keeps_lift (LogProgram.LogAppender.keeps_toYamlString lib.yaml appender))
  | reopen appender env => exact keeps_lift (LogProgram.FileLogAppender.keeps_reopen appender env)
  | Lookup tag name default_value =>
    exact keeps_ignore (Config.obeys_Lookup lib tag name default_value).steady
  | LookupOnly tag name => exact keeps_ignore (keeps_locked (steady_read _))
  | LookupBase name => exact keeps_ignore (keeps_locked (steady_read _))
  | LoadFromYaml root => exact Config.keeps_LoadFromYaml lib root
  | getValue v => exact keeps_ignore (keeps_locked (steady_read _))
  | setValue v val => exact ConfigVar.keeps_setValue lib v val
  | varToString v => exact keeps_ignore (ConfigVar.keeps_toString lib v)
  | varFromString v val => exact ConfigVar.keeps_fromString lib v val
  | addListener address => exact keeps_ignore (ConfigVar.keeps_addListener address)
  | delListener v key => exact ConfigVar.keeps_update v _

theorem stable_right (call : Operation types) (answer : Answer types) :
    (Process.rules types).Stable [] (Right call answer) := by
  cases call <;> cases answer <;> try exact stable_true
  case getLogger.logger name p =>
    exact stable_of_grows fun s t grows found => grows.log.found name _ found
  case Lookup.lookup tag name default_value result =>
    exact Config.stable_LookupRight tag name result
  case LookupOnly.found tag name it =>
    exact stable_of_grows fun s t grows found v same => grows.bound name v (found v same)
  case LookupBase.found name it =>
    exact stable_of_grows fun s t grows found v same => grows.bound name v (found v same)

theorem obeys_answer (call : Operation types) :
    (answer lib call).Obeys (Process.rules types) [] (Right call) [] fun _ => True := by
  have keeps := keeps_operation lib call
  cases call with
  | getLogger name =>
    have inner : (LogProgram.LoggerManager.getLogger name).Obeys LogSystem.rules []
        (fun p s => s.m_logger.find name = some (name, p)) [] fun _ => True :=
      LogProgram.LoggerManager.obeys_getLogger name
    exact obeys_bind (Obeys.zoom Process.embeds_log inner) fun p =>
      obeys_pure fun _ _ right => right
  | Lookup tag name default_value =>
    exact obeys_bind (Config.obeys_Lookup lib tag name default_value) fun result =>
      obeys_pure fun _ _ right => right
  | LookupOnly tag name =>
    exact obeys_bind (Config.obeys_find fun it v found => (Option.filter_eq_some_iff.mp found).1)
      fun it => obeys_pure fun _ _ right => right
  | LookupBase name =>
    exact obeys_bind (Config.obeys_find fun it v found => found) fun it =>
      obeys_pure fun _ _ right => right
  | _ => exact obeys_bind keeps fun _ => obeys_pure fun _ _ _ => trivial

end ConfigProgram

theorem LogSystem.registered_new (host : Host) (answers : Nat → Environment) :
    (LoggerManager.new host answers).Registered := by
  have found : ∀ n, (LoggerManager.new host answers).m_logger.find n =
      if "root" = n then some ("root", 0) else none := by
    intro n
    have insert := KeyedSet.find_insert (∅ : KeyedSet (Prod.fst : String × LoggerPtr → String))
      ("root", 0) n
    rwa [show (∅ : KeyedSet (Prod.fst : String × LoggerPtr → String)).find n = none from rfl,
      Option.getD_none] at insert
  have root : ((LoggerManager.new host answers).loggers 0).m_name = "root" := rfl
  constructor
  · intro p made
    obtain rfl : p = 0 := Nat.lt_one_iff.mp made
    rw [root, found, if_pos rfl]
  · intro entry member
    have key := KeyedSet.find_key member
    rw [found] at key
    split_ifs at key with same
    · obtain rfl := Option.some.inj key
      exact ⟨Nat.zero_lt_one, root⟩

theorem Process.registered_start (types : ConfigTypes) (host : Host)
    (answers : Nat → Environment) : (Process.start types host answers).Registered := by
  have bound : ∀ name v, (Process.start types host answers).GetDatas name = some v →
      name = "logs" ∧ v = (none, 0) := by
    intro name v found
    simp only [Process.start] at found
    split_ifs at found with same
    exact ⟨same, (Option.some.inj found).symm⟩
  refine ⟨LogSystem.registered_new host answers, fun name v found => ?_, fun v made => ?_,
    fun first second v w found found' _ => ?_⟩
  · obtain ⟨rfl, rfl⟩ := bound name v found
    exact ⟨rfl, by decide⟩
  · obtain ⟨tag, address⟩ := v
    match tag, address with
    | none, 0 => exact ⟨Nat.zero_lt_one, "logs", rfl⟩
    | none, _ + 1 => cases made
    | some _, _ => cases made
  · rw [(bound first v found).1, (bound second w found').1]

variable {ι : Type} [DecidableEq ι]

/-- The threads of the process, with the answers that their calls have had. -/
abbrev AnsweredThreads (ι : Type) (types : ConfigTypes) : Type :=
  LockThreads ι (ConfigLock types) (Process types × List (Operation types × Answer types)) Fault

/-- The code of a call that writes its answer down. -/
def ConfigProgram.answered (call : Operation types) :
    LockProgram (ConfigLock types) (Process types × List (Operation types × Answer types)) Fault
      Unit := recorded (ConfigProgram.answer lib call) call

/-- An answer that names a variable. -/
inductive Returned (answers : List (Operation types × Answer types)) (name : String) :
    VarPtr types → Prop
  | lookup {tag : types.Tag} {default_value : types.Val tag} {v : VarPtr types}
      (member : (.Lookup tag name default_value, .lookup (.ok (some v))) ∈ answers) :
      Returned answers name v
  | only {tag : types.Tag} {v : VarPtr types}
      (member : (.LookupOnly tag name, .found (some v)) ∈ answers) : Returned answers name v
  | base {v : VarPtr types} (member : (.LookupBase name, .found (some v)) ∈ answers) :
      Returned answers name v

/-- The answers that the lookups of all threads have had agree. A lookup with a default value says
`null` for a name that is bound to another type; one without also does before the name is bound. -/
structure LookupsAgree (answers : List (Operation types × Answer types)) (s : Process types) :
    Prop where
  bound : ∀ name v, Returned answers name v → s.GetDatas name = some v
  one : ∀ name v w, Returned answers name v → Returned answers name w → v = w
  apart : ∀ name other v w, Returned answers name v → Returned answers other w → v.2 = w.2 →
    name = other
  typed : ∀ tag name default_value v,
    (.Lookup tag name default_value, .lookup (.ok (some v))) ∈ answers → v.1 = tag
  null : ∀ tag name default_value,
    (.Lookup tag name default_value, .lookup (.ok none)) ∈ answers →
      ∃ v, s.GetDatas name = some v ∧ v.1 ≠ tag
  thrown : ∀ tag name default_value what,
    (.Lookup tag name default_value, .lookup (.error what)) ∈ answers →
      what = name ∧ validName name = false ∧ s.GetDatas name = none
  made : ∀ v, (s.vars v).isSome → ∃ name, s.GetDatas name = some v

/-- The loggers that `getLogger` has returned to all threads agree. -/
structure LoggersAgree (answers : List (Operation types × Answer types)) (s : LogSystem) :
    Prop where
  found : ∀ name p, (.getLogger name, .logger p) ∈ answers → s.m_logger.find name = some (name, p)
  named : ∀ name p, (.getLogger name, .logger p) ∈ answers →
    p < s.loggerCount ∧ (s.loggers p).m_name = name
  one : ∀ name other p q, (.getLogger name, .logger p) ∈ answers →
    (.getLogger other, .logger q) ∈ answers → (p = q ↔ name = other)

section Runs

variable {host : Host} {environments : Nat → Environment}
  {actions : List (Action ι (Operation types))}

theorem answered_run {s : AnsweredThreads ι types}
    (ran : Transition.run (LockThreads.step (ConfigProgram.answered lib))
      { shared := (Process.start types host environments, []) } actions = some s) :
    s.shared.1.Registered ∧
      ∀ entry ∈ s.shared.2, ConfigProgram.Right entry.1 entry.2 s.shared.1 := by
  have steady : ∀ call : Operation types, (ConfigProgram.answered lib call).Steady
      (recordedRules (Process.rules types) ConfigProgram.Right) [] := fun call =>
    steady_recorded ConfigProgram.stable_right (ConfigProgram.obeys_answer lib call)
  have valid : (recordedRules (Process.rules types) ConfigProgram.Right).valid
      (Process.start types host environments, []) :=
    ⟨Process.registered_start types host environments,
      fun _ member => absurd member List.not_mem_nil⟩
  exact (follows_run steady (follows_initial valid fun _ => trivial) ran).valid

end Runs

/-- Variables of one type, and libraries that read and print nothing. -/
def numbers : ConfigTypes where
  T := Unit
  Value _ := Nat
  FromStr _ _ := .error ""
  ToStr _ _ := .error ""

def silentLibraries : Libraries numbers where
  platform := default
  yaml := Flow.plain
  what _ := ""
  typeid _ := ""

/-- Two threads ask for one name at once, the second while the first has just made it. -/
def asking : List (Action Bool (Operation numbers)) :=
  [.start true (.Lookup (some ()) "port" (80 : Nat)), .start false (.LookupBase "port"),
    .next true, .next true, .next true, .next true, .next false, .next false, .next false,
    .next true, .next false]

/-- However the threads of the process interleave, whose one listener is that of `LogIniter`, the
lookups of a name give all of them the one variable that the name is bound to, and different names
give different variables. -/
theorem lookups_agree (host : Host) (environments : Nat → Environment)
    (actions : List (Action ι (Operation types))) (s : AnsweredThreads ι types)
    (ran : Transition.run (LockThreads.step (ConfigProgram.answered lib))
      { shared := (Process.start types host environments, []) } actions = some s) :
    LookupsAgree s.shared.2 s.shared.1 := by
  obtain ⟨registered, right⟩ := answered_run lib ran
  have bound : ∀ name v, Returned s.shared.2 name v → s.shared.1.GetDatas name = some v := by
    intro name v names
    cases names with
    | lookup member => exact (right _ member).2
    | only member => exact right _ member v rfl
    | base member => exact right _ member v rfl
  refine ⟨bound, fun name v w first second => ?_, fun name other v w first second same => ?_,
    fun tag name default_value v member => (right _ member).1,
    fun tag name default_value member => right _ member,
    fun tag name default_value what member => ?_, fun v made => (registered.made v made).2⟩
  · exact Option.some.inj ((bound name v first).symm.trans (bound name w second))
  · exact registered.once name other v w (bound name v first) (bound other w second) same
  · obtain ⟨rfl, invalid⟩ := right _ member
    refine ⟨rfl, invalid, ?_⟩
    by_contra found
    obtain ⟨v, found⟩ := Option.ne_none_iff_exists'.mp found
    rw [(registered.bound what v found).2] at invalid
    cases invalid

theorem lookups_agree_asking : ∃ s : AnsweredThreads Bool numbers,
    Transition.run (LockThreads.step (ConfigProgram.answered silentLibraries))
      { shared := (Process.start numbers default default, []) } asking = some s ∧
    s.shared.2.length = 2 ∧ LookupsAgree s.shared.2 s.shared.1 := by
  obtain ⟨s, ran, two⟩ : ∃ s : AnsweredThreads Bool numbers,
      Transition.run (LockThreads.step (ConfigProgram.answered silentLibraries))
        { shared := (Process.start numbers default default, []) } asking = some s ∧
      s.shared.2.length = 2 := ⟨_, rfl, rfl⟩
  exact ⟨s, ran, two, lookups_agree silentLibraries default default asking s ran⟩

/-- However the threads of the process interleave, whose one listener is that of `LogIniter`,
`getLogger` gives all of them one logger for each name. -/
theorem loggers_agree (host : Host) (environments : Nat → Environment)
    (actions : List (Action ι (Operation types))) (s : AnsweredThreads ι types)
    (ran : Transition.run (LockThreads.step (ConfigProgram.answered lib))
      { shared := (Process.start types host environments, []) } actions = some s) :
    LoggersAgree s.shared.2 s.shared.1.log := by
  obtain ⟨registered, right⟩ := answered_run lib ran
  have found : ∀ name p, (.getLogger name, .logger p) ∈ s.shared.2 →
      s.shared.1.log.m_logger.find name = some (name, p) := fun name p member => right _ member
  have named : ∀ name p, (.getLogger name, .logger p) ∈ s.shared.2 →
      p < s.shared.1.log.loggerCount ∧ (s.shared.1.log.loggers p).m_name = name :=
    fun name p member =>
      registered.log.named (name, p) (KeyedSet.find_eq_some_iff.mp (found name p member)).1
  refine ⟨found, named, fun name other p q first second => ⟨?_, ?_⟩⟩
  · rintro rfl
    exact (named name p first).2.symm.trans (named other p second).2
  · rintro rfl
    exact (Prod.mk.inj (Option.some.inj ((found name p first).symm.trans
      (found name q second)))).2

/-- Two threads ask for one logger, the second while the first still has the answer to return. -/
def getting : List (Action Bool (Operation numbers)) :=
  [.start true (.getLogger "net"), .start false (.getLogger "net"), .next true, .next true,
    .next true, .next false, .next false, .next false, .next false, .next true]

theorem loggers_agree_getting : ∃ s : AnsweredThreads Bool numbers,
    Transition.run (LockThreads.step (ConfigProgram.answered silentLibraries))
      { shared := (Process.start numbers default default, []) } getting = some s ∧
    s.shared.2.length = 2 ∧ LoggersAgree s.shared.2 s.shared.1.log := by
  obtain ⟨s, ran, two⟩ : ∃ s : AnsweredThreads Bool numbers,
      Transition.run (LockThreads.step (ConfigProgram.answered silentLibraries))
        { shared := (Process.start numbers default default, []) } getting = some s ∧
      s.shared.2.length = 2 := ⟨_, rfl, rfl⟩
  exact ⟨s, ran, two, loggers_agree silentLibraries default default getting s ran⟩

end Chord
