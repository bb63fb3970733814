import ChordServer.LogEvent
import ChordServer.OFStream

set_option autoImplicit false

namespace Chord

/-- The members of the base class `LogAppender`. -/
structure LogAppender where
  m_formatter : Option LogFormatter := none
  m_level : LogLevel := .DEBUG
  m_has_Formatter : Bool := false
  deriving DecidableEq, Repr

structure FileLogAppender extends LogAppender where
  m_filename : String
  m_filestream : OFStream
  m_lastTime : UInt64
  deriving DecidableEq, Repr

/-- What the process writes: its files, and the text on `std::cout`. -/
structure Host where
  disk : Disk
  console : String

/-- What the operating system and the C library answer during one call: the clock, the
outcome of opening and writing a file, the value that an uninitialised `m_lastTime`
happens to have, and the thread and the fibre that make the call. -/
structure Environment where
  now : UInt64
  opens : Bool := true
  writes : Bool := true
  indeterminate : UInt64 := 0
  threadId : UInt32 := 0
  fiberId : UInt32 := 0

instance : Inhabited Host := ⟨{ disk := fun _ => [], console := "" }⟩

instance : Inhabited Environment := ⟨{ now := 0 }⟩

namespace LogAppender

def setFormatter (appender : LogAppender) (val : Option LogFormatter) : LogAppender :=
  { appender with m_formatter := val, m_has_Formatter := val.isSome }

def getFormatter (appender : LogAppender) : Option LogFormatter := appender.m_formatter

def setLevel (appender : LogAppender) (level : LogLevel) : LogAppender :=
  { appender with m_level := level }

end LogAppender

def Host.print (host : Host) (text : String) : Host :=
  { host with console := host.console ++ text }

namespace FileLogAppender

/-- The appender after the call, the host, and the returned `!m_filestream`. -/
def reopen (appender : FileLogAppender) (env : Environment) (host : Host) :
    FileLogAppender × Host × Bool :=
  let closed :=
    if appender.m_filestream.failed then appender.m_filestream
    else appender.m_filestream.close
  let opened := closed.openFile appender.m_filename env.opens host.disk
  ({ appender with m_filestream := opened.1 }, { host with disk := opened.2 }, opened.1.failed)

/-- `FileLogAppender(filename)`: the constructor does not set `m_lastTime`. -/
def new (filename : String) (env : Environment) (host : Host) : FileLogAppender × Host :=
  let opened := reopen
    { m_filename := filename, m_filestream := {}, m_lastTime := env.indeterminate } env host
  (opened.1, opened.2.1)

/-- `m_filestream << m_formatter->format(..)`, with the message of a failed write. -/
def write (appender : FileLogAppender) (text : String) (env : Environment) (host : Host) :
    FileLogAppender × Host :=
  let written := appender.m_filestream.write text.toList env.writes host.disk
  let host := { host with disk := written.2 }
  ({ appender with m_filestream := written.1 },
    if written.1.failed then host.print "file_appender log error\n" else host)

/-- `if(now != m_lastTime + 3) { reopen(); m_lastTime = now; }`, a sum of `uint64_t`. -/
def reopenAt (appender : FileLogAppender) (env : Environment) (host : Host) :
    FileLogAppender × Host :=
  if env.now ≠ appender.m_lastTime + 3 then
    let reopened := appender.reopen env host
    ({ reopened.1 with m_lastTime := env.now }, reopened.2.1)
  else (appender, host)

/-- `none` is the dereference of a null `m_formatter`. -/
def log (platform : Platform) (appender : FileLogAppender) (level : LogLevel) (event : LogEvent)
    (env : Environment) (host : Host) : Option (FileLogAppender × Host) :=
  if appender.m_level ≤ level then
    let ready := appender.reopenAt env host
    ready.1.m_formatter.map fun formatter =>
      ready.1.write (formatter.format platform level event) env ready.2
  else some (appender, host)

end FileLogAppender

/-- `StdOutLogAppender::log`; the class has no members of its own. -/
def StdOutLogAppender.log (platform : Platform) (appender : LogAppender) (level : LogLevel)
    (event : LogEvent) (host : Host) : Option Host :=
  if appender.m_level ≤ level then
    appender.m_formatter.map fun formatter => host.print (formatter.format platform level event)
  else some host

end Chord
