/-!
# Settings

The limits that an expression has to keep and how much is logged.
-/

namespace Reckoner

inductive LogLevel where
  | debug
  | info
  | warning
  | error
  | critical
  deriving DecidableEq, Repr

namespace LogLevel

def name : LogLevel → String
  | .debug => "DEBUG"
  | .info => "INFO"
  | .warning => "WARNING"
  | .error => "ERROR"
  | .critical => "CRITICAL"

def all : List LogLevel := [.debug, .info, .warning, .error, .critical]

def ofName? (name : String) : Option LogLevel :=
  all.find? (·.name == name)

end LogLevel

structure Settings where
  /-- The greatest number of characters of a text. -/
  maxInputLength : Nat := 1024
  /-- The greatest number of levels of an expression. -/
  maxDepth : Nat := 100
  logLevel : LogLevel := .warning
  deriving DecidableEq, Repr

end Reckoner
