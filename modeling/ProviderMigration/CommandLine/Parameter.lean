import ProviderMigration.Number.Word
import ProviderMigration.Text.Join

/-!
# Parameters

The named parameters of a command line, `--name` or `-n`, and the values they take.

* `Parameter`, `ValueKind.fault?` — what is declared, and which values it admits;
* `Matches` — what was given;
* `Matches.read` — reads the words of a command line.
-/

namespace ProviderMigration

/-! ## Errors -/

/-- Why a command line is not run. A request for help counts. -/
inductive UsageError where
  | conflict
  | invalidValue
  | malformedValue
  | unknownArgument
  | tooManyValues
  | unknownCommand
  | noCommand
  | helpRequested
  | versionRequested
  | nothingGiven
deriving Repr, DecidableEq, Inhabited

namespace UsageError

def message : UsageError → String
  | .conflict => "an argument is repeated or conflicts with another one"
  | .invalidValue => "a value is missing or not one of those allowed"
  | .malformedValue => "a value is not a number in range"
  | .unknownArgument => "unknown argument"
  | .tooManyValues => "a value is given to a flag"
  | .unknownCommand => "unknown command"
  | .noCommand => "no command"
  | .helpRequested => "help"
  | .versionRequested => "version"
  | .nothingGiven => "nothing to do"

end UsageError

/-! ## Values -/

inductive ValueKind where
  | text
  | path
  /-- Texts with commas in between. The parameter may be repeated. -/
  | texts
  /-- A natural number that fits a word of 64 bits. -/
  | natural
  /-- A natural number up to a limit. Zero may have a minus sign. -/
  | integer (limit : Nat)
  | choice (names : List String)
deriving Repr, DecidableEq, Inhabited

/-- The number that a value stands for. -/
def readNumber (value : String) : Option Nat :=
  Number.natUpTo? Number.maxUnsigned value.toList <|>
    ((Number.signed? value.toList).bind Int.toNat?)

namespace ValueKind

/-- What is wrong with a value. -/
def fault? (kind : ValueKind) (value : String) : Option UsageError :=
  let number (n : Option Nat) : Option UsageError :=
    if n.isSome then none else some .malformedValue
  match kind with
  | .text | .texts => none
  | .path => if value.isEmpty then some .invalidValue else none
  | .natural => number (Number.natUpTo? Number.maxUnsigned value.toList)
  | .integer limit => number ((readNumber value).filter (· ≤ limit))
  | .choice names => if names.contains value then none else some .invalidValue

end ValueKind

/-! ## Parameters -/

inductive ParameterKind where
  | flag
  | help
  | version
  | value (kind : ValueKind)
deriving Repr, DecidableEq, Inhabited

structure Parameter where
  name : String
  short : Option Char := none
  kind : ParameterKind
deriving Repr, DecidableEq, Inhabited

namespace Parameter

def isRepeatable (p : Parameter) : Bool :=
  p.kind == .value .texts

end Parameter

/-! ## Matches -/

/-- The parameters that were given, and one that waits for its value or for what comes next. -/
structure Matches where
  given : List (String × List String) := []
  pending : Option (Parameter × Option String) := none
deriving Repr, DecidableEq, Inhabited

namespace Matches

def has (m : Matches) (name : String) : Bool :=
  m.given.any (·.1 == name)

def values (m : Matches) (name : String) : List String :=
  (m.given.filter (·.1 == name)).flatMap (·.2)

def value? (m : Matches) (name : String) : Option String :=
  (m.values name).head?

def number? (m : Matches) (name : String) : Option Nat :=
  (m.value? name).bind readNumber

/-- Adds a parameter with its values. -/
def record (m : Matches) (p : Parameter) (values : List String) : Except UsageError Matches :=
  if m.has p.name && !p.isRepeatable then .error .conflict
  else .ok { m with given := m.given ++ [(p.name, values)] }

/-- Adds a parameter with its value, if the value is admitted. -/
def recordValue (m : Matches) (p : Parameter) (value : String) : Except UsageError Matches := do
  let values :=
    if p.isRepeatable then (Text.splitAtEach ',' value.toList).map String.ofList else [value]
  -- Repetition is reported before a value that is not admitted.
  let recorded ← m.record p values
  match p.kind with
  | .value kind =>
    match kind.fault? value with
    | some fault => throw fault
    | none => return recorded
  | _ => return recorded

/-- Adds the parameter that was pending. It must have got its value. -/
def settle (m : Matches) : Except UsageError Matches :=
  match m.pending with
  | none => .ok m
  | some (_, none) => .error .invalidValue
  | some (p, some value) => { m with pending := none }.recordValue p value

/-! ## Words -/

/-- A parameter without a value. -/
def giveFlag (m : Matches) (p : Parameter) : Except UsageError Matches := do
  let m ← m.settle
  match p.kind with
  | .help => throw .helpRequested
  | .version => throw .versionRequested
  | _ => m.record p []

/-- A parameter with a value, which may follow in the next word. -/
def giveValue (m : Matches) (p : Parameter) (value : Option String) :
    Except UsageError Matches := do
  let m ← m.settle
  match value with
  | some value => m.recordValue p value
  | none => return { m with pending := some (p, none) }

/-- A name with two dashes, and perhaps a value after an equals sign. -/
def readLong (ps : List Parameter) (m : Matches) (name : String) (value : Option String) :
    Except UsageError Matches :=
  match ps.find? (·.name == name) with
  | none => .error .unknownArgument
  | some p =>
    match p.kind, value with
    | .value _, value => m.giveValue p value
    | _, none => m.giveFlag p
    | _, some _ => .error .tooManyValues

/-- Letters after one dash. The first letter that takes a value takes the rest. -/
def readShort (ps : List Parameter) (m : Matches) : List Char → Except UsageError Matches
  | [] => .ok m
  | c :: rest =>
    match ps.find? (·.short == some c) with
    | none => .error .unknownArgument
    | some p =>
      match p.kind, rest with
      | .value _, [] => m.giveValue p none
      | .value _, '=' :: value => m.giveValue p (some (String.ofList value))
      | .value _, value => m.giveValue p (some (String.ofList value))
      | _, rest => do readShort ps (← m.giveFlag p) rest

/-- A word that is not a name: the value that was waited for. -/
def readPlain (m : Matches) (word : String) : Except UsageError Matches :=
  match m.pending with
  | some (p, none) => .ok { m with pending := some (p, some word) }
  | _ => .error .unknownArgument

/-- A name and a value, where there is an equals sign. -/
def splitValue (cs : List Char) : String × Option String :=
  match cs.dropWhile (· != '=') with
  | [] => (String.ofList cs, none)
  | _ :: value => (String.ofList (cs.takeWhile (· != '=')), some (String.ofList value))

/-- One word of a command line, other than two dashes alone. -/
def readWord (ps : List Parameter) (m : Matches) (word : String) : Except UsageError Matches :=
  match word.toList with
  | '-' :: '-' :: cs => let (name, value) := splitValue cs; m.readLong ps name value
  | '-' :: c :: cs => m.readShort ps (c :: cs)
  | _ => m.readPlain word

/-- Whether a word is a name or letters after dashes. -/
def isNamed (word : String) : Bool :=
  word.startsWith "-" && word != "-"

/-- Reads words. After two dashes alone no names follow, and there is nothing else to give. -/
def read (ps : List Parameter) (m : Matches) : List String → Except UsageError Matches
  | [] => m.settle
  | "--" :: [] => m.settle
  | "--" :: _ => .error .unknownArgument
  | word :: rest => do read ps (← m.readWord ps word) rest

end Matches

end ProviderMigration
