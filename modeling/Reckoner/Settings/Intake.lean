import Reckoner.Field.Basic
import Reckoner.Settings

/-!
# Settings from data

Settings are read from named data or from the environment, where each name is in
capitals behind a common word. Absent ones keep their defaults.
-/

namespace Reckoner.Settings

/-- The capital of an ASCII letter. The dotless i, too, has the capital I. -/
def capital (c : Char) : Char :=
  if c == 'ı' then 'I' else c.toUpper

/-- One of the five levels, in any case. -/
def level : Datum → Except Violation LogLevel
  | .text value =>
    match LogLevel.ofName? (value.map capital) with
    | some level => .ok level
    | none => .error .unknownWord
  | _ => .error .unknownWord

/-- Settings from named data, or a complaint about each unreadable field. -/
def ofRecord (fields : List (String × Datum)) : Except (List Complaint) Settings :=
  let standard : Settings := {}
  let length := Field.read fields "max_input_length" (some standard.maxInputLength) Field.positive
  let depth := Field.read fields "max_depth" (some standard.maxDepth) Field.positive
  let logged := Field.read fields "log_level" (some standard.logLevel) level
  match length, depth, logged with
  | .ok maxInputLength, .ok maxDepth, .ok logLevel => .ok { maxInputLength, maxDepth, logLevel }
  | length, depth, logged =>
    .error (Field.complaints length ++ Field.complaints depth ++ Field.complaints logged)

def names : List String := ["max_input_length", "max_depth", "log_level"]

/-- The word before the name of a setting in the environment. -/
def environmentMark : String := "CALC_"

/-- The variable that holds the setting called `name`. -/
def variableName (name : String) : String := environmentMark ++ name.toUpper

/-- Settings from environment variables; `environment` gives their values. -/
def ofEnvironment (environment : String → Option String) : Except (List Complaint) Settings :=
  ofRecord (names.filterMap fun name =>
    (environment (variableName name)).map fun value => (name, Datum.text value))

end Reckoner.Settings
