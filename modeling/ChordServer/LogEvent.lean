import ChordServer.LogFormatter
import ChordServer.LogLevel

set_option autoImplicit false

namespace Chord

/-- `m_logger` is the name of the event's logger: a logger's name never changes,
and the name is all that is read through the pointer. `m_ss` is the stream's text. -/
structure LogEvent where
  m_file : String
  m_line : Int
  m_elapsed : UInt32
  m_threadId : UInt32
  m_fiberId : UInt32
  m_time : UInt64
  m_ss : String
  m_logger : String
  m_level : LogLevel

/-- The C library's and the compiler's part of formatting. `strftime max format time`
is the expansion when it fits into `max` bytes with its NUL, and `unspecified` is what
printing the buffer gives when it does not. `sources` is what `__FILE__` puts before
a file's name. -/
structure Platform where
  strftime : Nat → String → UInt64 → Option String
  unspecified : String
  sources : String := ""

instance : Inhabited Platform := ⟨{ strftime := fun _ _ _ => none, unspecified := "" }⟩

namespace FormatItem

def format (platform : Platform) (level : LogLevel) (event : LogEvent) : FormatItem → String
  | .message => event.m_ss
  | .level => level.ToString
  | .elapse => toString event.m_elapsed
  | .name => event.m_logger
  | .threadId => toString event.m_threadId
  | .newLine => "\n"
  | .dateTime m_format => (platform.strftime 64 m_format event.m_time).getD platform.unspecified
  | .filename => event.m_file
  | .line => toString event.m_line
  | .fiberId => toString event.m_fiberId
  | .tab => "\t"
  | .string m_string => m_string

end FormatItem

def LogFormatter.format (platform : Platform) (formatter : LogFormatter) (level : LogLevel)
    (event : LogEvent) : String :=
  String.join (formatter.m_items.map (FormatItem.format platform level event))

end Chord
