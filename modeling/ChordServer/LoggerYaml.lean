import ChordServer.Logger
import ChordServer.Yaml

set_option autoImplicit false

namespace Chord

open YAML

/-- How loggers and appenders write their level and their formatter. -/
def writeSettings (node : Node) (level : LogLevel) (formatter : Option LogFormatter) : Node :=
  let node := if level ≠ .UNKNOWN then node.set "level" (.Scalar level.ToString) else node
  match formatter with
  | some formatter => node.set "formatter" (.Scalar formatter.getPattern)
  | none => node

/-- `m_has_Formatter && m_formatter`. -/
def LogAppender.ownFormatter (appender : LogAppender) : Option LogFormatter :=
  if appender.m_has_Formatter then appender.m_formatter else none

def FileLogAppender.toYaml (appender : FileLogAppender) : Node :=
  let node := Node.Null.set "type" (.Scalar "FileLogAppender")
  let node := node.set "file" (.Scalar appender.m_filename)
  writeSettings node appender.m_level appender.ownFormatter

def FileLogAppender.toYamlString (yaml : YamlCpp) (appender : FileLogAppender) : String :=
  yaml.emit appender.toYaml

def StdOutLogAppender.toYaml (appender : LogAppender) : Node :=
  let node := Node.Null.set "type" (.Scalar "StdoutLogAppender")
  writeSettings node appender.m_level appender.ownFormatter

def StdOutLogAppender.toYamlString (yaml : YamlCpp) (appender : LogAppender) : String :=
  yaml.emit (toYaml appender)

namespace Appender

/-- The virtual function `toYamlString`. -/
def toYamlString (yaml : YamlCpp) : Appender → String
  | .file appender => appender.toYamlString yaml
  | .stdout appender => StdOutLogAppender.toYamlString yaml appender

def toYaml : Appender → Node
  | .file appender => appender.toYaml
  | .stdout appender => StdOutLogAppender.toYaml appender

theorem toYamlString_eq (yaml : YamlCpp) (appender : Appender) :
    appender.toYamlString yaml = yaml.emit appender.toYaml := by
  cases appender <;> rfl

end Appender

namespace Logger

/-- The members that a logger writes before its appenders. -/
def writeMembers (logger : Logger) : Node :=
  let node := Node.Null.set "name" (.Scalar logger.m_name)
  writeSettings node logger.m_level logger.m_formatter

/-- The appenders are loaded from the text that they write. -/
def toYamlString (yaml : YamlCpp) (s : LogSystem) (this : LoggerPtr) :
    Except YAML.Exception String := do
  let node := (s.loggers this).writeMembers
  let node ← (s.loggers this).m_appenders.foldlM (fun node i => do
    return node.pushBackAt "appenders" (← yaml.Load ((s.appenders i).toYamlString yaml))) node
  return yaml.emit node

def toYaml (s : LogSystem) (this : LoggerPtr) : Node :=
  (s.loggers this).m_appenders.foldl
    (fun node i => node.pushBackAt "appenders" (s.appenders i).toYaml)
    (s.loggers this).writeMembers

theorem toYamlString_eq (yaml : YamlCpp) (s : LogSystem) (this : LoggerPtr) :
    toYamlString yaml s this = pure (yaml.emit (toYaml s this)) := by
  unfold toYamlString
  simp only [Appender.toYamlString_eq, yaml.Load_emit]
  exact congrArg (fun node : Except YAML.Exception Node => node.map yaml.emit) List.foldlM_pure

end Logger

namespace LoggerManager

def toYamlString (yaml : YamlCpp) (s : LogSystem) : Except YAML.Exception String := do
  let node ← s.m_logger.toList.foldlM (fun node i => do
    return node.push_back (← yaml.Load (← Logger.toYamlString yaml s i.2))) Node.Null
  return yaml.emit node

theorem toYamlString_eq (yaml : YamlCpp) (s : LogSystem) :
    toYamlString yaml s = .ok (yaml.emit
      (s.m_logger.toList.foldl (fun node i => node.push_back (Logger.toYaml s i.2)) .Null)) := by
  unfold toYamlString
  simp only [Logger.toYamlString_eq, pure_bind, yaml.Load_emit]
  exact congrArg (fun node : Except YAML.Exception Node => node.map yaml.emit) List.foldlM_pure

end LoggerManager

section
variable (node : Node) (level : LogLevel) (formatter : Option LogFormatter)

theorem isMap_writeSettings {node : Node} (isMap : node.IsMap) :
    (writeSettings node level formatter).IsMap := by
  unfold writeSettings
  cases formatter with
  | none => exact Node.isMap_ite_set _ isMap _ _
  | some formatter => exact Node.isMap_set _ _ _

theorem find_writeSettings (key : String) :
    (writeSettings node level formatter).find key =
      if "formatter" = key ∧ formatter.isSome then
        (formatter.map LogFormatter.getPattern).map .Scalar
      else if level ≠ .UNKNOWN ∧ "level" = key then some (.Scalar level.ToString)
      else node.find key := by
  unfold writeSettings
  cases formatter with
  | none =>
    rw [Node.find_ite_set]
    simp
  | some formatter =>
    rw [Node.find_set, Node.find_ite_set]
    simp

end

end Chord
