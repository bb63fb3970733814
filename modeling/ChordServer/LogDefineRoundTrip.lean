import ChordServer.LogDefineDecode
import ChordServer.YamlFlow

set_option autoImplicit false

namespace Chord

open YAML

/-- What is left of an appender after writing and reading: its level is never read, and
the formatter is read for a file only. -/
def LogAppenderDefine.kept (a : LogAppenderDefine) : LogAppenderDefine :=
  { type := a.type, formatter := if a.type = 1 then a.formatter else "",
    file := if a.type = 1 then a.file else "" }

/-- What is left of a definition: a level is only written if it is `UNKNOWN`. -/
def LogDefine.kept (d : LogDefine) : LogDefine :=
  { name := d.name, formatter := d.formatter, appenders := d.appenders.map .kept }

namespace LogDefines

/-- The appenders are files, or the standard output without a file name. -/
def Typed (s : LogDefines) : Prop :=
  ∀ d ∈ s, ∀ a ∈ d.appenders, a.type = 1 ∨ a.type = 2 ∧ a.file = ""

/-- An empty text is left out and comes back as the empty text. -/
theorem text_of_nonempty (text : String) :
    (if text ≠ "" then some text else none).getD "" = text := by
  by_cases empty : text = "" <;> simp [empty]

theorem writeAppender_isMap (a : LogAppenderDefine) : (writeAppender a).IsMap := by
  unfold writeAppender
  refine Node.isMap_ite_set _ (Node.isMap_ite_set _ ?_ _ _) _ _
  split
  · exact Node.isMap_set _ _ _
  · split <;> trivial

theorem writeAppender_find (a : LogAppenderDefine) (key : String) :
    (writeAppender a).find key =
      if a.formatter ≠ "" ∧ "formatter" = key then some (.Scalar a.formatter)
      else if a.level ≠ .UNKNOWN ∧ "level" = key then some (.Scalar a.level.ToString)
      else if a.type = 1 then
        if "file" = key then some (.Scalar a.file)
        else if "type" = key then some (.Scalar "FileLogAppender") else none
      else if a.type = 2 ∧ "type" = key then some (.Scalar "StdoutLogAppender") else none := by
  simp only [writeAppender, Node.find_ite_set]
  by_cases file : a.type = 1
  · simp only [file, ↓reduceIte, Node.find_set, Node.find_Null]
  · simp only [file, ↓reduceIte, Node.find_ite_set, Node.find_Null]

theorem readAppender_writeAppender (yaml : YamlCpp) {a : LogAppenderDefine}
    (typed : a.type = 1 ∨ a.type = 2) :
    readAppender yaml (some (writeAppender a)) = pure (some a.kept) := by
  have isMap := writeAppender_isMap a
  rcases typed with file | stdout
  · have formats : (writeAppender a).find "formatter" =
        (if a.formatter ≠ "" then some a.formatter else none).map .Scalar := by
      by_cases empty : a.formatter = "" <;> simp [writeAppender_find, empty, file]
    have named : (writeAppender a).find "file" = some (.Scalar a.file) := by
      simp [writeAppender_find, file]
    rw [readAppender_file yaml isMap (by simp [writeAppender_find, file]) named formats,
      text_of_nonempty]
    simp [LogAppenderDefine.kept, file]
  · rw [readAppender_stdout yaml isMap (by simp [writeAppender_find, stdout])]
    simp [LogAppenderDefine.kept, stdout]

theorem writeDefine_isMap (d : LogDefine) : (writeDefine d).IsMap :=
  Node.isMap_pushBacks _ _ _
    (Node.isMap_ite_set _ (Node.isMap_ite_set _ (Node.isMap_set _ _ _) _ _) _ _)

theorem writeDefine_find (d : LogDefine) (key : String) :
    (writeDefine d).find key =
      if "appenders" = key ∧ d.appenders ≠ [] then
        some (d.appenders.foldl (fun sequence a => sequence.push_back (writeAppender a)) .Null)
      else if d.formatter ≠ "" ∧ "formatter" = key then some (.Scalar d.formatter)
      else if d.level = .UNKNOWN ∧ "level" = key then some (.Scalar d.level.ToString)
      else if "name" = key then some (.Scalar d.name) else none := by
  simp only [writeDefine, Node.find_pushBacks, Node.find_ite_set, Node.find_set, Node.find_Null,
    String.reduceEq, and_false, ↓reduceIte, Option.getD_none]

theorem readDefine_writeDefine (yaml : YamlCpp) {d : LogDefine}
    (typed : ∀ a ∈ d.appenders, a.type = 1 ∨ a.type = 2) :
    readDefine yaml (some (writeDefine d)) = pure (some d.kept) := by
  have isMap := writeDefine_isMap d
  have appenders : readAppenders yaml (writeDefine d) = pure (d.appenders.map .kept) := by
    refine readAppenders_of_find yaml writeAppender d.appenders isMap ?_
      fun a member => readAppender_writeAppender yaml (typed a member)
    by_cases none : d.appenders = [] <;> simp [writeDefine_find, none]
  have level : (writeDefine d).find "level" =
      (if d.level = .UNKNOWN then some d.level.ToString else none).map .Scalar := by
    by_cases unknown : d.level = .UNKNOWN <;> simp [writeDefine_find, unknown]
  have formats : (writeDefine d).find "formatter" =
      (if d.formatter ≠ "" then some d.formatter else none).map .Scalar := by
    by_cases empty : d.formatter = "" <;> simp [writeDefine_find, empty]
  have unread : LogLevel.FromString
      ((if d.level = .UNKNOWN then some d.level.ToString else none).getD "") = .UNKNOWN := by
    by_cases unknown : d.level = .UNKNOWN
    · rw [if_pos unknown, Option.getD_some, unknown]
      decide
    · rw [if_neg unknown]
      decide
  have named : (writeDefine d).find "name" = some (.Scalar d.name) := by
    simp [writeDefine_find]
  rw [readDefine_of_find yaml isMap named level formats appenders, unread, text_of_nonempty]
  rfl

/-- The definitions that come back. -/
def kept (s : LogDefines) : LogDefines :=
  ⟨s.toList.map .kept, List.pairwise_map.mpr s.sorted⟩

theorem Typed.known {s : LogDefines} (typed : s.Typed) {d : LogDefine} (member : d ∈ s) :
    ∀ a ∈ d.appenders, a.type = 1 ∨ a.type = 2 :=
  fun a inside => (typed d member a inside).imp_right And.left

theorem fromString_toString (yaml : YamlCpp) {s : LogDefines} (typed : s.Typed) :
    fromString yaml (toString yaml s) = pure s.kept :=
  fromString_emit yaml writeDefine s.toList
    (fun _ member => readDefine_writeDefine yaml (typed.known member)) s.kept.sorted

/-- Writing and reading gives back the same set. -/
def RoundTrips (yaml : YamlCpp) (s : LogDefines) : Prop :=
  ((fromString yaml (toString yaml s)).run.run "").1 = .ok s

theorem roundTrips_iff_kept (yaml : YamlCpp) {s : LogDefines} (typed : s.Typed) :
    RoundTrips yaml s ↔ s.kept = s := by
  rw [RoundTrips, fromString_toString yaml typed]
  exact ⟨fun same => Except.ok.inj same, congrArg _⟩

theorem map_eq_self_iff {α : Type} (f : α → α) (items : List α) :
    items.map f = items ↔ ∀ item ∈ items, f item = item := by
  conv => enter [1, 2]; rw [← List.map_id items]
  rw [List.map_inj_left]
  rfl

theorem kept_appender_iff {a : LogAppenderDefine} (typed : a.type = 1 ∨ a.type = 2 ∧ a.file = "") :
    a.kept = a ↔ a.level = .UNKNOWN ∧ (a.type = 2 → a.formatter = "") := by
  obtain ⟨type, level, formatter, file⟩ := a
  rcases typed with file | ⟨stdout, file⟩
  · simp only at file
    subst file
    simp [LogAppenderDefine.kept, eq_comm]
  · simp only at stdout file
    subst stdout file
    simp [LogAppenderDefine.kept, eq_comm]

theorem kept_define_iff (d : LogDefine) :
    d.kept = d ↔ d.level = .UNKNOWN ∧ ∀ a ∈ d.appenders, a.kept = a := by
  obtain ⟨name, level, formatter, appenders⟩ := d
  simp only [LogDefine.kept, LogDefine.mk.injEq, true_and, map_eq_self_iff,
    eq_comm (a := LogLevel.UNKNOWN)]

/-- A set comes back exactly if it has no level, neither of a logger nor of an appender,
and no formatter on the standard output. -/
theorem roundTrips_iff (yaml : YamlCpp) (s : LogDefines) (typed : s.Typed) :
    RoundTrips yaml s ↔ ∀ d ∈ s, d.level = .UNKNOWN ∧
      ∀ a ∈ d.appenders, a.level = .UNKNOWN ∧ (a.type = 2 → a.formatter = "") := by
  rw [roundTrips_iff_kept yaml typed, KeyedSet.ext_iff, kept, map_eq_self_iff]
  refine forall₂_congr fun d member => ?_
  rw [kept_define_iff]
  refine and_congr_right fun _ => forall₂_congr fun a inside => ?_
  exact kept_appender_iff (typed d member a inside)

theorem file_logger_roundTrips :
    RoundTrips Flow.yaml
      ⟨[{ name := "root", formatter := "%m%n", appenders := [{ type := 1, file := "a.txt" }] }],
        by simp⟩ := by
  refine (roundTrips_iff Flow.yaml _ ?_).mpr ?_
  · intro d member a inside
    obtain rfl := List.mem_singleton.mp member
    obtain rfl := List.mem_singleton.mp inside
    exact .inl rfl
  · intro d member
    obtain rfl := List.mem_singleton.mp member
    exact ⟨rfl, by simp⟩

/-- A logger of level INFO is written without its level and comes back as `UNKNOWN`. -/
theorem level_is_not_written :
    ¬ RoundTrips Flow.yaml ⟨[{ name := "root", level := .INFO }], by simp⟩ := by
  have typed : Typed ⟨[{ name := "root", level := .INFO }], by simp⟩ := by
    intro d member a inside
    obtain rfl := List.mem_singleton.mp member
    cases inside
  intro same
  have kept := (roundTrips_iff_kept Flow.yaml typed).mp same
  exact absurd kept (by decide)

end LogDefines

end Chord
