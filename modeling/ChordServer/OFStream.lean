import Mathlib.Data.List.Basic
import Mathlib.Logic.Function.Basic

set_option autoImplicit false

/- Output file streams over a disk of named files, after the standard library's
description of `std::ofstream`. Buffering is not modelled: a successful write is
in the file. -/

/-- The content of every file by name; an absent file reads as empty. -/
abbrev Disk := String → List Char

/-- `text` written at `position`; a gap behind the end of the file is filled up. -/
def Disk.writeAt (content : List Char) (position : Nat) (text : List Char) : List Char :=
  (content ++ List.replicate (position - content.length) '\x00').take position ++ text ++
    content.drop (position + text.length)

theorem Disk.writeAt_end (content text : List Char) :
    Disk.writeAt content content.length text = content ++ text := by
  simp [Disk.writeAt]

/-- `failed` is `failbit` or `badbit`; a stream converts to `true` while it is unset. -/
structure OFStream where
  isOpen : Bool := false
  failed : Bool := false
  file : String := ""
  position : Nat := 0
  deriving DecidableEq, Repr

namespace OFStream

/-- `close()` on a stream that is not open sets `failbit`. -/
def close (stream : OFStream) : OFStream :=
  { stream with isOpen := false, failed := stream.failed || !stream.isOpen }

/-- `open(name)` in the default mode: it fails on a stream that is open, truncates
an existing file, and clears the error state when it succeeds. -/
def openFile (stream : OFStream) (name : String) (succeeds : Bool) (disk : Disk) :
    OFStream × Disk :=
  if stream.isOpen ∨ succeeds = false then ({ stream with failed := true }, disk)
  else ({ isOpen := true, file := name }, Function.update disk name [])

/-- `stream << text`. -/
def write (stream : OFStream) (text : List Char) (succeeds : Bool) (disk : Disk) :
    OFStream × Disk :=
  if stream.failed ∨ stream.isOpen = false ∨ succeeds = false then
    ({ stream with failed := true }, disk)
  else
    ({ stream with position := stream.position + text.length },
      Function.update disk stream.file
        (Disk.writeAt (disk stream.file) stream.position text))

/-- The stream is good and writes at the end of `name`, which holds `content`. -/
structure Appending (stream : OFStream) (name : String) (disk : Disk) (content : List Char) :
    Prop where
  isOpen : stream.isOpen = true
  good : stream.failed = false
  file : stream.file = name
  holds : disk name = content
  position : stream.position = content.length

theorem openFile_appending (stream : OFStream) (name : String) (disk : Disk)
    (closed : stream.isOpen = false) :
    Appending (stream.openFile name true disk).1 name (stream.openFile name true disk).2 [] := by
  simp only [openFile, closed, Bool.false_eq_true, Bool.true_eq_false, or_self, ↓reduceIte]
  exact ⟨rfl, rfl, rfl, Function.update_self _ _ _, rfl⟩

theorem Appending.write {stream : OFStream} {name : String} {disk : Disk} {content : List Char}
    (appending : Appending stream name disk content) (text : List Char) :
    Appending (stream.write text true disk).1 name (stream.write text true disk).2
      (content ++ text) := by
  obtain ⟨isOpen, good, rfl, rfl, position⟩ := appending
  simp only [OFStream.write, isOpen, good, Bool.false_eq_true, Bool.true_eq_false, or_self,
    ↓reduceIte, position, Disk.writeAt_end]
  exact ⟨rfl, rfl, rfl, Function.update_self _ _ _, by simp⟩

end OFStream
