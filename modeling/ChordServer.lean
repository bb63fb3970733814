import ChordServer.Transition
import ChordServer.LogLevel
import ChordServer.LogFormatterGrammar
import ChordServer.FileLogAppenderContent
import ChordServer.FiberTracking
import ChordServer.FiberEnding
import ChordServer.ConfigLoadDocument
import ChordServer.LogDefineRoundTrip
import ChordServer.LogIniterRemoved
import ChordServer.LoggerDump
import ChordServer.ConfigVarNotified
import ChordServer.ConfigLockOrder
import ChordServer.LoggerLocksAlone
import ChordServer.AppenderInheritance
import ChordServer.LoggerDelivery
import ChordServer.LexicalCastStrings
import ChordServer.FiberCoroutines
import ChordServer.FiberThreadsAlone
import ChordServer.FiberThreadsExclusive
import ChordServer.FiberAbandoned
import ChordServer.ThreadStartSafe
import ChordServer.FormatterThreads
import ChordServer.LoggerFormatters
import ChordServer.ConfigVarListeners
import ChordServer.ListenerIds
import ChordServer.LogDefineUsable
import ChordServer.LexicalCastScalar
import ChordServer.ConfigRegistryNames
import ChordServer.ConfigLoadCaseRuns
import ChordServer.LogFormatterEscape
import ChordServer.LogFormatterOrder
import ChordServer.FileLogAppenderThrottle
import ChordServer.ConfigAliases
import ChordServer.LogFormatterDate
import ChordServer.LogFormatterBounds
import ChordServer.ScopedLockExclusive
import ChordServer.ConfigLockAnswers
import ChordServer.FileLogAppenderThreads
import ChordServer.RWScopedLock
import ChordServer.ConfigLoadLogging
import ChordServer.ConfigSavedTypes
import ChordServer.ThreadLifeNames
import ChordServer.ConfigLockListeners
import ChordServer.LoggerViewsRuns
