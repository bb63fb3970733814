import ChordServer.Yaml

set_option autoImplicit false

/- A loader and an emitter for YAML's flow style with quoted scalars. They show that
the law the library is trusted with can be met, and let trees be run through it. -/
namespace YAML.Flow

/-- The inside of a double-quoted scalar and its closing quote. -/
def emitText : List Char → List Char
  | [] => ['"']
  | c :: rest => if c = '"' ∨ c = '\\' then '\\' :: c :: emitText rest else c :: emitText rest

mutual
def emitNode : Node → List Char
  | .Null => ['~']
  | .Scalar text => '"' :: emitText text.toList
  | .Sequence items => '[' :: emitItems items
  | .Map entries => '{' :: emitEntries entries
def emitItems : List Node → List Char
  | [] => [']']
  | item :: rest => emitNode item ++ ',' :: emitItems rest
def emitEntries : List (String × Node) → List Char
  | [] => ['}']
  | (key, value) :: rest =>
      '"' :: emitText key.toList ++ ':' :: ' ' :: emitNode value ++ ',' :: emitEntries rest
end

def loadText : List Char → Option (List Char × List Char)
  | [] => none
  | '"' :: rest => some ([], rest)
  | '\\' :: c :: rest => (loadText rest).map fun read => (c :: read.1, read.2)
  | c :: rest => (loadText rest).map fun read => (c :: read.1, read.2)

mutual
/-- Reads one node and leaves the rest of the text; the number bounds its depth and width. -/
def loadNode : Nat → List Char → Option (Node × List Char)
  | 0, _ => none
  | _ + 1, '~' :: rest => some (.Null, rest)
  | _ + 1, '"' :: rest => (loadText rest).map fun read => (.Scalar (String.ofList read.1), read.2)
  | bound + 1, '[' :: rest => (loadItems bound rest).map fun read => (.Sequence read.1, read.2)
  | bound + 1, '{' :: rest => (loadEntries bound rest).map fun read => (.Map read.1, read.2)
  | _ + 1, _ => none
def loadItems : Nat → List Char → Option (List Node × List Char)
  | 0, _ => none
  | _ + 1, ']' :: rest => some ([], rest)
  | bound + 1, text => do
      let (item, ',' :: rest) ← loadNode bound text | none
      let (items, rest) ← loadItems bound rest
      some (item :: items, rest)
def loadEntries : Nat → List Char → Option (List (String × Node) × List Char)
  | 0, _ => none
  | _ + 1, '}' :: rest => some ([], rest)
  | bound + 1, '"' :: text => do
      let (key, ':' :: ' ' :: rest) ← loadText text | none
      let (value, ',' :: rest) ← loadNode bound rest | none
      let (entries, rest) ← loadEntries bound rest
      some ((String.ofList key, value) :: entries, rest)
  | _ + 1, _ => none
end

theorem loadText_emitText (text rest : List Char) :
    loadText (emitText text ++ rest) = some (text, rest) := by
  induction text with
  | nil => rfl
  | cons c text ih =>
    rw [emitText]
    split
    · rename_i special
      simp only [List.cons_append, loadText, ih, Option.map_some]
    · rename_i plain
      rw [List.cons_append, loadText, ih, Option.map_some]
      · exact fun quote => plain (.inl quote)
      · exact fun _ _ backslash _ => plain (.inr backslash)

mutual
theorem loadNode_emitNode : ∀ (node : Node) (bound : Nat) (rest : List Char),
    (emitNode node).length ≤ bound → loadNode bound (emitNode node ++ rest) = some (node, rest)
  | node, 0, rest, enough => by cases node <;> simp [emitNode] at enough
  | .Null, bound + 1, rest, enough => rfl
  | .Scalar text, bound + 1, rest, enough => by
      simp only [emitNode, List.cons_append, loadNode, loadText_emitText, Option.map_some,
        String.ofList_toList]
  | .Sequence items, bound + 1, rest, enough => by
      have short : (emitItems items).length ≤ bound := by simpa [emitNode] using enough
      simp only [emitNode, List.cons_append, loadNode, loadItems_emitItems items bound rest short,
        Option.map_some]
  | .Map entries, bound + 1, rest, enough => by
      have short : (emitEntries entries).length ≤ bound := by simpa [emitNode] using enough
      simp only [emitNode, List.cons_append, loadNode,
        loadEntries_emitEntries entries bound rest short, Option.map_some]
theorem loadItems_emitItems : ∀ (items : List Node) (bound : Nat) (rest : List Char),
    (emitItems items).length ≤ bound →
      loadItems bound (emitItems items ++ rest) = some (items, rest)
  | items, 0, rest, enough => by cases items <;> simp [emitItems] at enough
  | [], bound + 1, rest, enough => rfl
  | item :: items, bound + 1, rest, enough => by
      simp only [emitItems, List.length_append, List.length_cons] at enough
      have first := loadNode_emitNode item bound (',' :: emitItems items ++ rest) (by omega)
      have later := loadItems_emitItems items bound rest (by omega)
      have text : emitItems (item :: items) ++ rest =
          emitNode item ++ (',' :: emitItems items ++ rest) := by simp [emitItems]
      rw [text, loadItems]
      · rw [first]
        simp only [Option.bind_eq_bind, Option.bind_some, List.cons_append, later]
      · cases item <;> simp [emitNode]
theorem loadEntries_emitEntries : ∀ (entries : List (String × Node)) (bound : Nat)
    (rest : List Char), (emitEntries entries).length ≤ bound →
      loadEntries bound (emitEntries entries ++ rest) = some (entries, rest)
  | entries, 0, rest, enough => by
      cases entries with
      | nil => simp [emitEntries] at enough
      | cons entry entries => obtain ⟨key, value⟩ := entry; simp [emitEntries] at enough
  | [], bound + 1, rest, enough => rfl
  | (key, value) :: entries, bound + 1, rest, enough => by
      simp only [emitEntries, List.length_append, List.length_cons] at enough
      have first := loadNode_emitNode value bound (',' :: emitEntries entries ++ rest) (by omega)
      have later := loadEntries_emitEntries entries bound rest (by omega)
      have text : emitEntries ((key, value) :: entries) ++ rest =
          '"' :: (emitText key.toList ++
            ':' :: ' ' :: (emitNode value ++ (',' :: emitEntries entries ++ rest))) := by
        simp [emitEntries]
      rw [text, loadEntries, loadText_emitText]
      rw [List.cons_append] at first
      simp only [List.cons_append, Option.bind_eq_bind, Option.bind_some, first, later,
        String.ofList_toList]
end

def load (text : String) : Except Exception Node :=
  match loadNode text.length text.toList with
  | some (node, []) => .ok node
  | _ => .error (.parserException "yaml-cpp: error")

/-- The flow style as an instance of the library. -/
def yaml : YamlCpp where
  Load := load
  emit node := String.ofList (emitNode node)
  asIndex text := text.toNat?
  asString
    | .Scalar text => .ok text
    | _ => .error .badConversion
  Load_emit node := by
    have read := loadNode_emitNode node (emitNode node).length [] (Nat.le_refl _)
    rw [List.append_nil] at read
    simp only [load, String.toList_ofList, String.length_ofList, read]
  asString_Scalar _ := rfl

/-- The text begins as a number does. -/
def startsNumber (text : String) : Bool :=
  text.toList.head?.any fun c => c.isDigit || c = '-'

/-- Numbers as plain scalars, where they are the whole document, and a null node for a
document without text. -/
def loadPlain (text : String) : Except Exception Node :=
  if text = "" then .ok .Null
  else if startsNumber text then .ok (.Scalar text)
  else load text

def emitPlain : Node → String
  | .Scalar text =>
      if startsNumber text then text else String.ofList (emitNode (.Scalar text))
  | node => String.ofList (emitNode node)

theorem loadPlain_emitNode (node : Node) :
    loadPlain (String.ofList (emitNode node)) = .ok node := by
  have starts : ∃ c rest, emitNode node = c :: rest ∧ (c.isDigit || c = '-') = false := by
    cases node <;> exact ⟨_, _, rfl, by decide⟩
  obtain ⟨c, rest, shape, special⟩ := starts
  have full : String.ofList (emitNode node) ≠ "" := by
    rw [shape]
    simp
  have number : startsNumber (String.ofList (emitNode node)) = false := by
    rw [startsNumber, shape, String.toList_ofList]
    exact special
  rw [loadPlain, if_neg full, number]
  exact yaml.Load_emit node

/-- The flow style with plain numbers as an instance of the library. -/
def plain : YamlCpp where
  Load := loadPlain
  emit := emitPlain
  asIndex := yaml.asIndex
  asString := yaml.asString
  Load_emit node := by
    cases node with
    | Scalar text =>
      by_cases number : startsNumber text = true
      · have full : text ≠ "" := by
          rintro rfl
          cases number
        simp only [emitPlain, loadPlain, number, if_true, if_neg full]
      · rw [emitPlain, if_neg number]
        exact loadPlain_emitNode _
    | Null => exact loadPlain_emitNode _
    | Sequence items => exact loadPlain_emitNode _
    | Map entries => exact loadPlain_emitNode _
  asString_Scalar := yaml.asString_Scalar

end YAML.Flow
