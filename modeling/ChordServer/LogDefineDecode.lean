import ChordServer.LogDefine

set_option autoImplicit false

namespace Chord.LogDefines

open YAML

variable (yaml : YamlCpp) {n : Node}

theorem readString_of_find (isMap : n.IsMap) {key : String} {text : Option String}
    (found : n.find key = text.map .Scalar) : readString yaml n key = pure text := by
  rw [readString, Node.subscript_of_isMap isMap, found]
  cases text <;> simp [yaml.asString_Scalar]

theorem readAppender_file (isMap : n.IsMap) {file : String} {formatter : Option String}
    (type : n.find "type" = some (.Scalar "FileLogAppender"))
    (named : n.find "file" = some (.Scalar file))
    (formats : n.find "formatter" = formatter.map .Scalar) :
    readAppender yaml (some n) =
      pure (some { type := 1, file := file, formatter := formatter.getD "" }) := by
  have subscripts := Node.subscript_of_isMap isMap
  cases formatter <;>
    simp [readAppender, subscripts, type, named, formats, yaml.asString_Scalar]

/-- Of an appender for the standard output nothing but the type is read. -/
theorem readAppender_stdout (isMap : n.IsMap)
    (type : n.find "type" = some (.Scalar "StdoutLogAppender")) :
    readAppender yaml (some n) = pure (some { type := 2 }) := by
  simp [readAppender, Node.subscript_of_isMap isMap, type, yaml.asString_Scalar]

section
variable {α : Type} (write : α → Node) (items : List α)

theorem readAppenders_loop {read : α → LogAppenderDefine}
    (reads : ∀ a ∈ items, readAppender yaml (some (write a)) = pure (some (read a))) :
    ∀ before, (items.map fun a => some (write a)).foldlM (pushAppender yaml) before =
      pure (before ++ items.map read) := by
  induction items with
  | nil => intro before; simp
  | cons a rest ih =>
    intro before
    obtain ⟨first, later⟩ := List.forall_mem_cons.mp reads
    rw [List.map_cons, List.foldlM_cons, pushAppender, first]
    simp only [pure_bind, Option.toList_some, ih later, List.map_cons, List.append_assoc,
      List.singleton_append]

/-- The appenders under their key are read one by one, and none if the key is not there. -/
theorem readAppenders_of_find {read : α → LogAppenderDefine} (isMap : n.IsMap)
    (found : n.find "appenders" = if items = [] then none
      else some (items.foldl (fun sequence a => sequence.push_back (write a)) .Null))
    (reads : ∀ a ∈ items, readAppender yaml (some (write a)) = pure (some (read a))) :
    readAppenders yaml n = pure (items.map read) := by
  rw [readAppenders, Node.subscript_of_isMap isMap, found]
  by_cases empty : items = []
  · simp [empty]
  · simp only [empty, ↓reduceIte, Decoder.lift_ok, pure_bind, YamlCpp.elements_push_backs]
    exact readAppenders_loop yaml write items reads []

theorem readDefine_of_find {name : String} {level formatter : Option String}
    {appenders : List LogAppenderDefine} (isMap : n.IsMap)
    (named : n.find "name" = some (.Scalar name)) (leveled : n.find "level" = level.map .Scalar)
    (formats : n.find "formatter" = formatter.map .Scalar)
    (reads : readAppenders yaml n = pure appenders) :
    readDefine yaml (some n) = pure (some
      { name := name, level := LogLevel.FromString (level.getD ""),
        formatter := formatter.getD "", appenders := appenders }) := by
  have nameRead : readString yaml n "name" = pure (some name) :=
    readString_of_find yaml isMap named
  simp only [readDefine, nameRead, readString_of_find yaml isMap leveled,
    readString_of_find yaml isMap formats, reads, pure_bind]

theorem insertDefine_loop {read : α → LogDefine}
    (reads : ∀ i ∈ items, readDefine yaml (some (write i)) = pure (some (read i))) :
    ∀ before, (items.map fun i => some (write i)).foldlM (insertDefine yaml) before =
      pure ((items.map read).foldl KeyedSet.insert before) := by
  induction items with
  | nil => exact fun _ => rfl
  | cons i rest ih =>
    intro before
    obtain ⟨first, later⟩ := List.forall_mem_cons.mp reads
    rw [List.map_cons, List.foldlM_cons, insertDefine, first]
    simp only [pure_bind, ih later, List.map_cons, List.foldl_cons]

/-- A document of definitions in ascending order is read as the set of them. -/
theorem fromString_emit {read : α → LogDefine}
    (reads : ∀ i ∈ items, readDefine yaml (some (write i)) = pure (some (read i)))
    (sorted : (items.map read).Pairwise fun a b => a.name < b.name) :
    fromString yaml (yaml.emit (items.foldl (fun node i => node.push_back (write i)) .Null)) =
      pure ⟨items.map read, sorted⟩ := by
  rw [fromString, yaml.Load_emit]
  simp only [Decoder.lift_ok, pure_bind, YamlCpp.elements_push_backs]
  rw [insertDefine_loop yaml write items reads]
  exact congrArg pure (KeyedSet.ext (KeyedSet.toList_foldl_insert _ ∅ sorted))

end

end Chord.LogDefines
