import ChordServer.LogDefineDecode
import ChordServer.YamlFlow

set_option autoImplicit false

namespace Chord

open YAML

/-- What an entry under `appenders` asks for. -/
inductive AppenderEntry
  | FileLogAppender (file formatter : String)
  | StdoutLogAppender (formatter : String)

/-- The definition has what the entry asks for. -/
def LogAppenderDefine.Carries (a : LogAppenderDefine) : AppenderEntry → Prop
  | .FileLogAppender file formatter => a.type = 1 ∧ a.file = file ∧ a.formatter = formatter
  | .StdoutLogAppender formatter => a.type = 2 ∧ a.formatter = formatter

namespace Decoder

variable {α β : Type} {decoder : Decoder α} {value : α}

/-- The decoder returns the value, whatever it prints. -/
def Returns (decoder : Decoder α) (value : α) : Prop :=
  ∃ printed after, decoder.run.run printed = (.ok value, after)

theorem returns_pure {result : α} (returns : Returns (pure value) result) : result = value := by
  obtain ⟨printed, after, ran⟩ := returns
  cases ran
  rfl

theorem returns_lift {result : Except YAML.Exception α} (returns : (lift result).Returns value) :
    result = .ok value := by
  obtain ⟨printed, after, ran⟩ := returns
  cases ran
  rfl

theorem not_returns_throw {fault : YAML.Exception} : ¬ (throw fault : Decoder α).Returns value := by
  rintro ⟨printed, after, ran⟩
  cases ran

theorem returns_bind {next : α → Decoder β} {result : β}
    (returns : (decoder >>= next).Returns result) :
    ∃ value, decoder.Returns value ∧ (next value).Returns result := by
  obtain ⟨printed, after, ran⟩ := returns
  rw [ExceptT.run_bind, StateT.run_bind] at ran
  match first : decoder.run.run printed with
  | (.ok value, middle) =>
      rw [first] at ran
      exact ⟨value, ⟨printed, middle, first⟩, middle, after, ran⟩
  | (.error fault, middle) =>
      rw [first] at ran
      cases ran

end Decoder

namespace LogDefines

variable (yaml : YamlCpp)

/-- The string that an entry gives under a key. -/
def given (n : Option Node) (key : String) : Option String :=
  (n.bind fun n => n.find key).bind fun value => (yaml.asString value).toOption

/-- The appender that an entry of a known type asks for. -/
def asked (a : Option Node) : Option AppenderEntry :=
  (given yaml a "type").bind fun type =>
    if type = "FileLogAppender" then
      (given yaml a "file").map fun file =>
        .FileLogAppender file ((given yaml a "formatter").getD "")
    else if type = "StdoutLogAppender" then
      some (.StdoutLogAppender ((given yaml a "formatter").getD ""))
    else none

def appenderEntries (n : Option Node) : List (Option Node) :=
  match n.bind fun n => n.find "appenders" with
  | none => []
  | some appenders => yaml.elements appenders

/-- The entries of a document that loads. -/
def entries (v : String) : List (Option Node) :=
  match yaml.Load v with
  | .ok node => yaml.elements node
  | .error _ => []

/-- The entry that a definition is made from: the first of its name. -/
def firstNamed (entries : List (Option Node)) (name : String) : Option (Option Node) :=
  entries.find? fun n => given yaml n "name" = some name

/-- Each definition has a name of its own, which an entry gives, and the appenders that this
entry asks for. -/
structure Usable (entries : List (Option Node)) (vec : LogDefines) : Prop where
  named : ∀ d ∈ vec, ∃ n ∈ entries, given yaml n "name" = some d.name
  distinct : (vec.toList.map LogDefine.name).Nodup
  appenders : ∀ d ∈ vec, ∀ n, firstNamed yaml entries d.name = some n →
    List.Forall₂ LogAppenderDefine.Carries d.appenders
      ((appenderEntries yaml n).filterMap (asked yaml))

/-- The type of an appender entry is a known one, and it gives no formatter for the standard
output. An entry without a type is left out. -/
def Supported (a : Option Node) : Prop :=
  ∀ type, given yaml a "type" = some type →
    type = "FileLogAppender" ∨
      type = "StdoutLogAppender" ∧ (given yaml a "formatter").getD "" = ""

/-- So are all appender entries of the entries that are the first of their name. -/
def Supports (entries : List (Option Node)) : Prop :=
  ∀ name n, firstNamed yaml entries name = some n →
    ∀ a ∈ appenderEntries yaml n, Supported yaml a

/-- What `readAppender` makes of an entry if it returns. -/
def made (a : Option Node) : Option LogAppenderDefine :=
  (given yaml a "type").bind fun type =>
    if type = "FileLogAppender" then
      (given yaml a "file").map fun file =>
        { type := 1, file := file, formatter := (given yaml a "formatter").getD "" }
    else if type = "StdoutLogAppender" then some { type := 2 }
    else some {}

/-- What `readDefine` makes of an entry if it returns. -/
def defined (n : Option Node) : Option LogDefine :=
  (given yaml n "name").map fun name =>
    { name := name
      level := LogLevel.FromString ((given yaml n "level").getD "")
      formatter := (given yaml n "formatter").getD ""
      appenders := (appenderEntries yaml n).filterMap (made yaml) }

variable {yaml} {n : Node} {a : Option Node} {key : String}

theorem find_of_subscript {value : Option Node} (read : n.subscript key = .ok value) :
    n.find key = value := by
  cases n <;> cases read <;> rfl

theorem given_of_subscript {value : Node} {text : String}
    (read : n.subscript key = .ok (some value)) (string : yaml.asString value = .ok text) :
    given yaml (some n) key = some text := by
  rw [given, Option.bind_some, find_of_subscript read, Option.bind_some, string]
  rfl

theorem given_of_undefined (read : n.subscript key = .ok none) :
    given yaml (some n) key = none := by
  rw [given, Option.bind_some, find_of_subscript read]
  rfl

theorem readString_returns {text : Option String} (returns : (readString yaml n key).Returns text) :
    text = given yaml (some n) key := by
  obtain ⟨value, read, returns⟩ := Decoder.returns_bind returns
  have read := Decoder.returns_lift read
  cases value with
  | none => rw [Decoder.returns_pure returns, given_of_undefined read]
  | some value =>
    obtain ⟨text, string, returns⟩ := Decoder.returns_bind returns
    rw [Decoder.returns_pure returns, given_of_subscript read (Decoder.returns_lift string)]

theorem made_of_type {type : String} (typed : given yaml a "type" = some type) :
    made yaml a =
      if type = "FileLogAppender" then
        (given yaml a "file").map fun file =>
          { type := 1, file := file, formatter := (given yaml a "formatter").getD "" }
      else if type = "StdoutLogAppender" then some { type := 2 }
      else some {} := by
  rw [made, typed, Option.bind_some]

theorem readAppender_returns {result : Option LogAppenderDefine}
    (returns : (readAppender yaml a).Returns result) : result = made yaml a := by
  cases a with
  | none => exact absurd returns Decoder.not_returns_throw
  | some a =>
    obtain ⟨type, read, returns⟩ := Decoder.returns_bind returns
    have read := Decoder.returns_lift read
    cases type with
    | none =>
      obtain ⟨_, -, returns⟩ := Decoder.returns_bind returns
      rw [Decoder.returns_pure returns, made, given_of_undefined read]
      rfl
    | some type =>
      obtain ⟨text, string, returns⟩ := Decoder.returns_bind returns
      rw [made_of_type (given_of_subscript read (Decoder.returns_lift string))]
      split_ifs at returns ⊢ with file stdout
      · obtain ⟨file, read, returns⟩ := Decoder.returns_bind returns
        have read := Decoder.returns_lift read
        cases file with
        | none =>
          obtain ⟨_, -, returns⟩ := Decoder.returns_bind returns
          rw [Decoder.returns_pure returns, given_of_undefined read]
          rfl
        | some file =>
          obtain ⟨named, string, returns⟩ := Decoder.returns_bind returns
          rw [given_of_subscript read (Decoder.returns_lift string)]
          obtain ⟨formatter, read, returns⟩ := Decoder.returns_bind returns
          have read := Decoder.returns_lift read
          cases formatter with
          | none =>
            rw [Decoder.returns_pure returns, given_of_undefined read]
            rfl
          | some formatter =>
            obtain ⟨pattern, string, returns⟩ := Decoder.returns_bind returns
            rw [Decoder.returns_pure returns,
              given_of_subscript read (Decoder.returns_lift string)]
            rfl
      · exact Decoder.returns_pure returns
      · obtain ⟨_, -, returns⟩ := Decoder.returns_bind returns
        exact Decoder.returns_pure returns

theorem pushAppenders_returns {items : List (Option Node)} {result : List LogAppenderDefine} :
    ∀ {before : List LogAppenderDefine},
      Decoder.Returns (items.foldlM (pushAppender yaml) before) result →
      result = before ++ items.filterMap (made yaml) := by
  induction items with
  | nil =>
    intro before returns
    rw [Decoder.returns_pure returns, List.filterMap_nil, List.append_nil]
  | cons a rest ih =>
    intro before returns
    rw [List.foldlM_cons] at returns
    obtain ⟨middle, first, later⟩ := Decoder.returns_bind returns
    obtain ⟨pushed, read, appended⟩ := Decoder.returns_bind first
    obtain rfl := Decoder.returns_pure appended
    obtain rfl := readAppender_returns read
    rw [ih later, List.append_assoc, List.filterMap_cons]
    cases made yaml a <;> rfl

theorem readAppenders_returns {result : List LogAppenderDefine}
    (returns : (readAppenders yaml n).Returns result) :
    result = (appenderEntries yaml (some n)).filterMap (made yaml) := by
  obtain ⟨appenders, read, returns⟩ := Decoder.returns_bind returns
  rw [appenderEntries, Option.bind_some, find_of_subscript (Decoder.returns_lift read)]
  cases appenders with
  | none => exact Decoder.returns_pure returns
  | some appenders => exact pushAppenders_returns returns

theorem readDefine_returns {n : Option Node} {result : Option LogDefine}
    (returns : (readDefine yaml n).Returns result) : result = defined yaml n := by
  cases n with
  | none =>
    obtain ⟨_, -, returns⟩ := Decoder.returns_bind returns
    exact Decoder.returns_pure returns
  | some n =>
    obtain ⟨name, read, returns⟩ := Decoder.returns_bind returns
    rw [defined, ← readString_returns read]
    cases name with
    | none =>
      obtain ⟨_, -, returns⟩ := Decoder.returns_bind returns
      exact Decoder.returns_pure returns
    | some name =>
      obtain ⟨level, read, returns⟩ := Decoder.returns_bind returns
      rw [← readString_returns read]
      obtain ⟨formatter, read, returns⟩ := Decoder.returns_bind returns
      rw [← readString_returns read]
      obtain ⟨appenders, read, returns⟩ := Decoder.returns_bind returns
      rw [← readAppenders_returns read]
      exact Decoder.returns_pure returns

theorem insertDefines_returns {items : List (Option Node)} {result : LogDefines} :
    ∀ {before : LogDefines}, Decoder.Returns (items.foldlM (insertDefine yaml) before) result →
      result = (items.filterMap (defined yaml)).foldl KeyedSet.insert before := by
  induction items with
  | nil => exact fun returns => Decoder.returns_pure returns
  | cons n rest ih =>
    intro before returns
    rw [List.foldlM_cons] at returns
    obtain ⟨middle, first, later⟩ := Decoder.returns_bind returns
    obtain ⟨ld, read, inserted⟩ := Decoder.returns_bind first
    rw [ih later, List.filterMap_cons, ← readDefine_returns read]
    cases ld with
    | none => rw [Decoder.returns_pure inserted]
    | some ld => rw [Decoder.returns_pure inserted, List.foldl_cons]

/-- The set is made of the entries that have a name, and of two entries of one name the first
is kept. -/
theorem fromString_returns {v : String} {vec : LogDefines}
    (returns : (fromString yaml v).Returns vec) :
    vec = ((entries yaml v).filterMap (defined yaml)).foldl KeyedSet.insert ∅ := by
  obtain ⟨node, load, returns⟩ := Decoder.returns_bind returns
  rw [insertDefines_returns returns, entries, Decoder.returns_lift load]

theorem name_of_defined (n : Option Node) (name : String) :
    (defined yaml n).any (fun d => d.name = name) = decide (given yaml n "name" = some name) := by
  rw [defined]
  cases given yaml n "name" with
  | none => rfl
  | some other => simp only [Option.map_some, Option.any_some, Option.some.injEq]

theorem appenders_of_defined {n : Option Node} {d : LogDefine} (shape : defined yaml n = some d) :
    d.appenders = (appenderEntries yaml n).filterMap (made yaml) := by
  obtain ⟨name, -, rfl⟩ := Option.map_eq_some_iff.mp shape
  rfl

theorem find_of_returns {v : String} {vec : LogDefines} (returns : (fromString yaml v).Returns vec)
    (name : String) :
    vec.find name = (firstNamed yaml (entries yaml v) name).bind (defined yaml) := by
  have empty : (∅ : LogDefines).find name = none := rfl
  rw [fromString_returns returns, KeyedSet.find_foldl_insert, empty, Option.none_or,
    List.find?_filterMap]
  simp only [name_of_defined]
  rfl

/-- A definition comes from the first entry of its name. -/
theorem mem_iff_of_returns {v : String} {vec : LogDefines}
    (returns : (fromString yaml v).Returns vec) {d : LogDefine} :
    d ∈ vec ↔ ∃ n, firstNamed yaml (entries yaml v) d.name = some n ∧ defined yaml n = some d := by
  rw [← Option.bind_eq_some_iff, ← find_of_returns returns]
  exact ⟨KeyedSet.find_key, fun found => (KeyedSet.find_eq_some_iff.mp found).1⟩

/-- An entry is left out by the decoder as it asks for nothing, or its type is unknown, or it
has a definition, which has what it asks for if no formatter gets lost. -/
theorem made_asked (a : Option Node) :
    (made yaml a = none ∧ asked yaml a = none ∧ Supported yaml a) ∨
    (made yaml a = some {} ∧ asked yaml a = none ∧ ¬ Supported yaml a) ∨
    ∃ define entry, made yaml a = some define ∧ asked yaml a = some entry ∧
      (define.Carries entry ↔ Supported yaml a) := by
  unfold made asked Supported
  cases given yaml a "type" with
  | none => exact .inl ⟨rfl, rfl, nofun⟩
  | some type =>
    simp only [Option.bind_some, Option.some.injEq, forall_eq']
    by_cases file : type = "FileLogAppender"
    · rw [if_pos file, if_pos file]
      cases given yaml a "file" with
      | none => exact .inl ⟨rfl, rfl, .inl file⟩
      | some name => exact .inr (.inr ⟨_, _, rfl, rfl, iff_of_true ⟨rfl, rfl, rfl⟩ (.inl file)⟩)
    · rw [if_neg file, if_neg file, or_iff_right file]
      by_cases stdout : type = "StdoutLogAppender"
      · rw [if_pos stdout, if_pos stdout, and_iff_right stdout]
        exact .inr (.inr ⟨_, _, rfl, rfl, (and_iff_right rfl).trans eq_comm⟩)
      · rw [if_neg stdout, if_neg stdout]
        exact .inr (.inl ⟨rfl, rfl, fun supported => stdout supported.1⟩)

theorem not_carries_unknown (entry : AppenderEntry) : ¬ ({} : LogAppenderDefine).Carries entry := by
  cases entry with
  | FileLogAppender file formatter => exact fun carries => absurd carries.1 (by decide)
  | StdoutLogAppender formatter => exact fun carries => absurd carries.1 (by decide)

/-- The definitions of the entries are the appenders asked for exactly if all are supported. -/
theorem carries_iff_supported (items : List (Option Node)) :
    List.Forall₂ LogAppenderDefine.Carries (items.filterMap (made yaml))
      (items.filterMap (asked yaml)) ↔ ∀ a ∈ items, Supported yaml a := by
  induction items with
  | nil => exact iff_of_true .nil nofun
  | cons a rest ih =>
    rw [List.filterMap_cons, List.filterMap_cons, List.forall_mem_cons]
    rcases @made_asked yaml a with ⟨none, nothing, supported⟩ | ⟨unknown, nothing, not⟩ |
        ⟨define, entry, some, asks, carries⟩
    · rw [none, nothing, and_iff_right supported]
      exact ih
    · rw [unknown, nothing]
      refine iff_of_false (fun all => ?_) fun both => not both.1
      obtain ⟨entry, -, carries, -⟩ := List.forall₂_cons_left_iff.mp all
      exact not_carries_unknown entry carries
    · rw [some, asks]
      exact List.forall₂_cons.trans (and_congr carries ih)

/-- The set that the decoder returns is usable exactly if the appender entries it is made from
are of the known types and give no formatter for the standard output. -/
theorem usable_iff_supports {v : String} {vec : LogDefines}
    (returns : (fromString yaml v).Returns vec) :
    Usable yaml (entries yaml v) vec ↔ Supports yaml (entries yaml v) := by
  constructor
  · intro usable name n first
    have named : given yaml n "name" = some name := by
      simpa only [decide_eq_true_eq] using List.find?_some first
    obtain ⟨d, shape⟩ : ∃ d, defined yaml n = some d := ⟨_, by rw [defined, named]; rfl⟩
    have same : d.name = name := by
      have named' := @name_of_defined yaml n name
      rw [shape, named] at named'
      simpa using named'
    subst same
    have member : d ∈ vec := (mem_iff_of_returns returns).mpr ⟨n, first, shape⟩
    have carries := usable.appenders d member n first
    rw [appenders_of_defined shape] at carries
    exact carries_iff_supported _ |>.mp carries
  · intro supports
    refine ⟨fun d member => ?_, ?_, fun d member n first => ?_⟩
    · obtain ⟨n, first, -⟩ := (mem_iff_of_returns returns).mp member
      exact ⟨n, List.mem_of_find?_eq_some first,
        by simpa only [decide_eq_true_eq] using List.find?_some first⟩
    · exact List.pairwise_map.mpr (vec.sorted.imp fun less => less.ne)
    · obtain ⟨other, found, shape⟩ := (mem_iff_of_returns returns).mp member
      obtain rfl := Option.some.inj (first.symm.trans found)
      rw [appenders_of_defined shape]
      exact (carries_iff_supported _).mpr (supports d.name n first)

theorem entries_emit (items : List Node) :
    entries yaml (yaml.emit (.Sequence items)) = items.map some := by
  rw [entries, yaml.Load_emit]
  exact yaml.elements_Sequence items

/-- The appender without a type is left out, the others are as asked for. -/
theorem untyped_appender_is_left_out :
    Usable Flow.yaml
      (entries Flow.yaml (Flow.yaml.emit (.Sequence [.Map [("name", .Scalar "root"),
        ("appenders", .Sequence [.Map [("file", .Scalar "a.txt")],
          .Map [("type", .Scalar "FileLogAppender"), ("file", .Scalar "root.txt"),
            ("formatter", .Scalar "%m%n")],
          .Map [("type", .Scalar "StdoutLogAppender")]])]])))
      (KeyedSet.insert ∅
        { name := "root"
          appenders :=
            [{ type := 1, formatter := "%m%n", file := "root.txt" }, { type := 2 }] }) := by
  refine (usable_iff_supports ⟨"", _, by rw [fromString, Flow.yaml.Load_emit]; rfl⟩).mpr ?_
  rw [entries_emit]
  intro name n first
  obtain rfl := List.mem_singleton.mp (List.mem_of_find?_eq_some first)
  show ∀ a ∈ Flow.yaml.elements _, _
  rw [YamlCpp.elements_Sequence]
  simp only [List.map_cons, List.map_nil, List.forall_mem_cons]
  refine ⟨fun type typed => ?_, fun type typed => ?_, fun type typed => ?_,
    fun a member => absurd member List.not_mem_nil⟩
  · cases typed
  · cases typed
    exact .inl rfl
  · cases typed
    exact .inr ⟨rfl, rfl⟩

/-- The condition is not met: the decoder makes a definition of type 0 for a type it does not
know, and the listener finds no appender for it. -/
theorem unknown_type_is_kept :
    ¬ ∀ vec : LogDefines, (fromString Flow.yaml (Flow.yaml.emit (.Sequence
        [.Map [("name", .Scalar "root"), ("appenders", .Sequence
          [.Map [("type", .Scalar "SyslogAppender")]])]]))).Returns vec →
      Usable Flow.yaml (entries Flow.yaml (Flow.yaml.emit (.Sequence
        [.Map [("name", .Scalar "root"), ("appenders", .Sequence
          [.Map [("type", .Scalar "SyslogAppender")]])]]))) vec := by
  intro every
  have usable := every (KeyedSet.insert ∅ { name := "root", appenders := [{}] }) ⟨"", _, by
    rw [fromString, Flow.yaml.Load_emit]
    rfl⟩
  rw [entries_emit] at usable
  have carries := usable.appenders _ (KeyedSet.mem_insert.mpr (.inr ⟨rfl, rfl⟩)) _ rfl
  cases carries

end LogDefines

end Chord
