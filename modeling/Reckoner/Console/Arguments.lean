import Reckoner.Decimal.Numeral
import Reckoner.Text.Digit

/-!
# Command-line arguments

An argument is a plain text or an option. Options have long names, which may be
shortened as long as one option fits, and a value stands behind an equals sign or
in the next argument. What begins with a minus sign and is no option is refused,
unless it is a negative number, holds a space, or is the sign alone.
-/

namespace Reckoner.Console

inductive Switch where
  | expression
  | answer
  | tree
  | file
  | chain
  | help
  deriving DecidableEq, Repr

/-- The options by their names. -/
def switches : List (String × Switch) :=
  [("-h", .help), ("--help", .help), ("--expr", .expression), ("--ans", .answer), ("--tree", .tree),
    ("--file", .file), ("--chain", .chain)]

/-- The options that have a value. -/
def Switch.takesValue : Switch → Bool
  | .expression | .answer | .file => true
  | .tree | .chain | .help => false

/-- What an argument is, before its neighbours are looked at. -/
inductive Word where
  | plain (text : String)
  | option (s : Switch) (value : Option String)
  /-- An option that does not exist, or the end of all options. -/
  | stray
  /-- More than one option fits. -/
  | ambiguous
  deriving DecidableEq, Repr

/-- The text before and the text behind the first equals sign, if there is one. -/
def splitValue (text : List Char) : List Char × Option String :=
  match text.dropWhile (· != '=') with
  | [] => (text, none)
  | _ :: value => (text.takeWhile (· != '='), some (String.ofList value))

/-- Digits of any script, at least one, and perhaps a line end. -/
def areDigits (text : List Char) : Bool :=
  let isDigit (c : Char) : Bool := (Text.digitValue? c).isSome
  let rest := text.dropWhile isDigit
  (text.head?.map isDigit).getD false && (rest.isEmpty || rest == ['\n'])

/-- A minus sign with digits, at most one point among them and not at the end. -/
def isNegativeNumber (text : List Char) : Bool :=
  match text with
  | '-' :: rest =>
    areDigits rest ||
      match rest.dropWhile fun c => (Text.digitValue? c).isSome with
      | '.' :: fraction => areDigits fraction
      | _ => false
  | _ => false

/-- The option called `name`. -/
def switch? (name : List Char) : Option Switch :=
  (switches.find? (·.1 == String.ofList name)).map Prod.snd

/-- The options whose names begin with `name`. -/
def fitting (name : List Char) : List Switch :=
  (switches.filter fun (full, _) => name.isPrefixOf full.toList).map Prod.snd

/-- What the options that fit make of an argument that is none of them exactly. -/
def Word.ofFitting (text : List Char) (value : Option String) : List Switch → Word
  | [s] => .option s value
  | _ :: _ :: _ => .ambiguous
  | [] =>
    if isNegativeNumber text || text.contains ' ' then .plain (String.ofList text) else .stray

/-- What follows the short option for help asks for help again if it is a letter
for it, or several; an equals sign may stand before them. Nothing else may follow. -/
def repeatsHelp : List Char → Bool
  | '=' :: rest => !rest.isEmpty && rest.all (· == 'h')
  | rest => rest.all (· == 'h')

/-- What an argument with a minus sign in front is. -/
def Word.ofSigned (text : List Char) : Word :=
  match switch? text, text with
  | some s, _ => .option s none
  | none, '-' :: '-' :: _ =>
    let (name, value) := splitValue text
    match switch? name, value with
    | some s, some value => .option s (some value)
    | _, _ => .ofFitting text value (fitting name)
  | none, '-' :: 'h' :: rest =>
    .option .help (if repeatsHelp rest then none else some (String.ofList rest))
  | none, _ => .ofFitting text none []

/-- The arguments up to two minus signs are read one by one; behind them there
are no options. -/
def words : List String → List Word
  | [] => []
  | argument :: rest =>
    if argument == "--" then .stray :: rest.map .plain
    else if argument.toList.head? == some '-' && argument != "-" then
      .ofSigned argument.toList :: words rest
    else .plain argument :: words rest

/-- What a command line asks for. -/
structure Request where
  expression : String := "2+3*4"
  answer : Option Float := none
  tree : Bool := false
  file : Option String := none
  chained : Bool := false

/-- Why a command line is not obeyed. -/
inductive Refusal where
  | helpWanted
  | misuse
  deriving DecidableEq, Repr

/-- A request with the value of an option; a later one replaces it. -/
def Request.withValue (r : Request) (s : Switch) (value : String) : Except Refusal Request :=
  match s with
  | .expression => .ok { r with expression := value }
  | .file => .ok { r with file := some value }
  | .answer =>
    match Decimal.read? value with
    | some x => .ok { r with answer := some x }
    | none => .error .misuse
  | .tree | .chain | .help => .error .misuse

/-- A request with an option that has no value. -/
def Request.withFlag (r : Request) (s : Switch) : Except Refusal Request :=
  match s with
  | .tree => .ok { r with tree := true }
  | .chain => .ok { r with chained := true }
  | .help => .error .helpWanted
  | .expression | .answer | .file => .error .misuse

/-- Obeys the words one after the other. `stray` tells that a text stood where no
option wanted one, which is refused in the end. -/
def Request.obey (r : Request) (stray : Bool) : List Word → Except Refusal Request
  | [] => if stray then .error .misuse else .ok r
  | .plain _ :: rest => r.obey true rest
  | .stray :: rest => r.obey true rest
  | .ambiguous :: _ => .error .misuse
  | .option s (some value) :: rest =>
    (r.withValue s value).bind fun r => r.obey stray rest
  | [.option s none] =>
    (r.withFlag s).bind fun r => r.obey stray []
  | .option s none :: next :: rest =>
    if s.takesValue then
      match next with
      | .plain value => (r.withValue s value).bind fun r => r.obey stray rest
      | _ => .error .misuse
    else (r.withFlag s).bind fun r => r.obey stray (next :: rest)

/-- The request of a command line. -/
def Request.ofArguments (arguments : List String) : Except Refusal Request :=
  let read := words arguments
  if read.contains .ambiguous then .error .misuse else ({} : Request).obey false read

end Reckoner.Console
