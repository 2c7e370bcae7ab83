import ImportScan.Language
import ImportScan.Source

/-!
# Log records

What is worth a record while files are looked into. A record has a level, the name of its logger,
and a message.
-/

namespace ImportScan

/-- An event with a log record. -/
inductive Event where
  /-- A file is read, and a parser starts on its text. -/
  | parsing (path : Text) (language : Option Text) (parser : Parser)
  /-- A file is not looked into because of its name. -/
  | hidden (entity : Text)
  /-- A file is not looked into because its language is not known. -/
  | unknownLanguage (entity : Text)
  /-- A file cannot be read. -/
  | unreadable (entity : Text) (error : ReadError)
deriving DecidableEq, Repr

namespace Event

/-- The name of the logger above all others. -/
def rootLogger : String := "depscan"

/-- The full name of a logger. -/
def loggerName (name : Text) : Text :=
  if name.isEmpty then rootLogger.toList else rootLogger.toList ++ '.' :: name

/-- The level of the record. -/
def level : Event → String
  | .unreadable _ _ => "WARNING"
  | _ => "DEBUG"

/-- The logger of the record. -/
def logger : Event → Text
  | .parsing _ _ _ => loggerName "detect".toList
  | _ => loggerName "middleware".toList

/-- The message of the record. -/
def message : Event → Text
  | .parsing path language parser =>
    "Parsing ".toList ++ path ++ " as ".toList ++ language.getD "None".toList ++ " with ".toList ++
      parser.name.toList
  | .hidden entity => "Skipping dependency detection for sanitized entity ".toList ++ entity
  | .unknownLanguage entity =>
    "Skipping dependency detection for ".toList ++ entity ++ ": unknown language".toList
  | .unreadable entity error =>
    "Failed to detect dependencies for ".toList ++ entity ++ ": ".toList ++ error.message

end Event
end ImportScan
