import ChordServer.LogEvent
import ChordServer.LogFormatterOrder

set_option autoImplicit false

/- Arrays of `char` that hold C strings. A character stands for one byte, and `none` for a byte
that has not been written. -/
namespace CBuffer

abbrev Buffer := List (Option Char)

/-- The bytes in front of the first NUL. `none` is a read of a byte that has not been written or
is not in the array. -/
def read : Buffer → Option (List Char)
  | [] => none
  | none :: _ => none
  | some c :: rest => if c = '\x00' then some [] else (read rest).map (c :: ·)

/-- The buffer after the text and its NUL have been written at its start. -/
def store (text : List Char) (buffer : Buffer) : Buffer :=
  text.map some ++ some '\x00' :: buffer.drop (text.length + 1)

theorem read_store {text : List Char} (textual : '\x00' ∉ text) (buffer : Buffer) :
    read (store text buffer) = some text := by
  unfold store
  generalize buffer.drop (text.length + 1) = rest
  induction text with
  | nil => rfl
  | cons c text ih =>
    obtain ⟨other, textual⟩ := not_or.mp (mt List.mem_cons.mpr textual)
    rw [List.map_cons, List.cons_append, read, if_neg (Ne.symm other), ih textual]
    rfl

/-- A text that is read leaves room for its NUL. -/
theorem length_lt_of_read {buffer : Buffer} :
    ∀ {text : List Char}, read buffer = some text → text.length < buffer.length := by
  induction buffer with
  | nil =>
    intro text found
    cases found
  | cons byte rest ih =>
    intro text found
    cases byte with
    | none => cases found
    | some c =>
      rw [read] at found
      split at found
      · obtain rfl := Option.some.inj found
        exact Nat.succ_pos _
      · obtain ⟨behind, later, rfl⟩ := Option.map_eq_some_iff.mp found
        exact Nat.succ_lt_succ (ih later)

/-- What `strftime` leaves in a buffer for a format with this expansion: when it does not fit
with its NUL, the contents are unspecified. -/
inductive Strftime (expansion : List Char) (before : Buffer) : Buffer → Prop
  | fits (room : expansion.length < before.length) :
      Strftime expansion before (store expansion before)
  | tooLong (full : before.length ≤ expansion.length) (after : Buffer)
      (size : after.length = before.length) : Strftime expansion before after

theorem Strftime.length_eq {expansion : List Char} {before after : Buffer}
    (ran : Strftime expansion before after) : after.length = before.length := by
  cases ran with
  | fits room =>
    simp only [store, List.length_append, List.length_map, List.length_cons, List.length_drop]
    omega
  | tooLong full _ size => exact size

/-- The whole expansion is read back exactly if it fits. -/
theorem Strftime.read_iff {expansion : List Char} {before after : Buffer}
    (textual : '\x00' ∉ expansion) (ran : Strftime expansion before after) :
    read after = some expansion ↔ expansion.length < before.length := by
  constructor
  · intro found
    rw [← ran.length_eq]
    exact length_lt_of_read found
  · intro room
    cases ran with
    | fits _ => exact read_store textual before
    | tooLong full _ _ => exact absurd room (Nat.not_lt.mpr full)

end CBuffer

namespace Chord.LogFormatter

/-- What `strftime` expands a format to at a time, however long it is. -/
abbrev Expansion := String → UInt64 → List Char

/-- A text that `DateTimeFormatItem::format` may write for `char buf[64]`; `none` is a read of
bytes that have not been written. -/
def MayWrite (expand : Expansion) (m_format : String) (time : UInt64)
    (written : Option (List Char)) : Prop :=
  ∃ buf, CBuffer.Strftime (expand m_format time) (List.replicate 64 none) buf ∧
    written = CBuffer.read buf

/-- Whatever the buffer holds, the expansion is written. -/
def WritesWhole (expand : Expansion) (m_format : String) (time : UInt64) : Prop :=
  ∀ written, MayWrite expand m_format time written → written = some (expand m_format time)

/-- The format of the item that `%d{fmt}` becomes. -/
def dateFormat (fmt : List Char) : String :=
  if String.ofList fmt = "" then "%Y-%m-%d %H:%M:%S" else String.ofList fmt

theorem mayWrite_iff {expand : Expansion} {m_format : String} {time : UInt64}
    (textual : '\x00' ∉ expand m_format time) {written : Option (List Char)}
    (writes : MayWrite expand m_format time written) :
    written = some (expand m_format time) ↔ (expand m_format time).length < 64 := by
  obtain ⟨buf, ran, rfl⟩ := writes
  rw [ran.read_iff textual, List.length_replicate]

/-- Something is written for every format. -/
theorem exists_mayWrite (expand : Expansion) (m_format : String) (time : UInt64) :
    ∃ written, MayWrite expand m_format time written := by
  rcases Nat.lt_or_ge (expand m_format time).length 64 with room | full
  · exact ⟨_, _, .fits (by rwa [List.length_replicate]), rfl⟩
  · exact ⟨_, _, .tooLong (by rwa [List.length_replicate]) _ rfl, rfl⟩

theorem writesWhole_iff {expand : Expansion} {m_format : String} {time : UInt64}
    (textual : '\x00' ∉ expand m_format time) :
    WritesWhole expand m_format time ↔ (expand m_format time).length < 64 := by
  constructor
  · intro whole
    obtain ⟨written, writes⟩ := exists_mayWrite expand m_format time
    exact (mayWrite_iff textual writes).mp (whole written writes)
  · exact fun room written writes => (mayWrite_iff textual writes).mpr room

/-- What the item prints is what it may write, for a C library with this `strftime`. -/
theorem format_dateTime {expand : Expansion} {platform : Platform}
    (agrees : ∀ max format time, platform.strftime max format time =
      if (expand format time).length < max then some (String.ofList (expand format time))
      else none)
    (level : LogLevel) (event : LogEvent) (m_format : String)
    (room : (expand m_format event.m_time).length < 64) :
    ((FormatItem.dateTime m_format).format platform level event).toList =
      expand m_format event.m_time := by
  rw [FormatItem.format, agrees, if_pos room, Option.getD_some, String.toList_ofList]

/-- The entry of every directive is among those of the pattern. -/
theorem mem_entries {name : List Char} {fmt : Option (List Char)} (todo : List Round) :
    .directive name fmt ∈ todo → ∀ i nstr,
      (name, fmt.getD [], 1) ∈ (entries i nstr todo).map Prod.fst := by
  induction todo with
  | nil =>
    intro given
    cases given
  | cons round rest ih =>
    intro given i nstr
    rcases List.mem_cons.mp given with rfl | later
    · simp [entries]
    · cases round with
      | text c => exact ih later _ _
      | directive other text =>
        simp only [entries, List.map_append, List.map_cons, List.mem_append, List.mem_cons]
        exact .inr (.inr (ih later _ _))
      | unclosed =>
        rw [entries, List.map_cons]
        exact List.mem_cons_of_mem _ (ih later _ _)

/-- The item of a date directive is built. -/
theorem dateTime_mem {pattern : String} {fmt : List Char}
    (given : .directive ['d'] (some fmt) ∈ rounds pattern.toList) :
    .dateTime (dateFormat fmt) ∈ m_items ⟨pattern⟩ := by
  have entry := mem_entries _ given 0 []
  obtain ⟨⟨token, origin⟩, member, same⟩ := List.mem_map.mp entry
  obtain rfl : token = (['d'], fmt, 1) := same
  rw [← items_erase, items, List.map_map]
  exact List.mem_map.mpr ⟨_, member, rfl⟩

/-- A date directive becomes an item that writes the whole expansion of its format exactly if
this and its NUL fit into 64 bytes; a longer one is never written. -/
theorem date_written_iff (expand : Expansion)
    (textual : ∀ format time, '\x00' ∉ format.toList → '\x00' ∉ expand format time)
    (pattern : String) (fmt : List Char)
    (given : .directive ['d'] (some fmt) ∈ rounds pattern.toList) (plain : '\x00' ∉ fmt)
    (time : UInt64) :
    .dateTime (dateFormat fmt) ∈ m_items ⟨pattern⟩ ∧
      (WritesWhole expand (dateFormat fmt) time ↔
        (expand (dateFormat fmt) time).length < 64) ∧
      ∀ written, MayWrite expand (dateFormat fmt) time written →
        (written = some (expand (dateFormat fmt) time) ↔
          (expand (dateFormat fmt) time).length < 64) := by
  have whole : '\x00' ∉ (dateFormat fmt).toList := by
    unfold dateFormat
    split
    · decide
    · rwa [String.toList_ofList]
  have expanded := textual (dateFormat fmt) time whole
  exact ⟨dateTime_mem given, writesWhole_iff expanded, fun _ => mayWrite_iff expanded⟩

/-- The expansion of a format without a '%'. -/
def literally : Expansion := fun format _ => format.toList

theorem date_written_abc : WritesWhole literally (dateFormat ['a', 'b', 'c']) 0 :=
  (date_written_iff literally (fun _ _ plain => plain) "%d\x7babc\x7d" ['a', 'b', 'c']
    (by decide +kernel) (by decide) 0).2.1.mpr (by decide)

/-- Of a format of 64 letters nothing that may be written is the expansion. -/
theorem date_not_written :
    let fmt := List.replicate 64 'x'
    let pattern := "%d\x7b" ++ String.ofList fmt ++ "\x7d"
    (⟨pattern⟩ : LogFormatter).isError = false ∧
      m_items ⟨pattern⟩ = [.dateTime (dateFormat fmt)] ∧
      ¬ WritesWhole literally (dateFormat fmt) 0 ∧
      ¬ MayWrite literally (dateFormat fmt) 0 (some (literally (dateFormat fmt) 0)) := by
  have long : ¬ (literally (dateFormat (List.replicate 64 'x')) 0).length < 64 := by decide
  have textual : '\x00' ∉ literally (dateFormat (List.replicate 64 'x')) 0 := by decide
  refine ⟨by decide +kernel, by decide +kernel, fun whole => ?_, fun writes => ?_⟩
  · exact long ((writesWhole_iff textual).mp whole)
  · exact long ((mayWrite_iff textual writes).mp rfl)

end Chord.LogFormatter
