import Directive.Batch

/-!
# Command lines

What the arguments of the program ask for. Options and directives may stand in any order; after
`--` everything is a directive, and so is `-`. An option is named by `--` and its name or by `-`
and its letter, and letters may be joined as long as only the last of them takes a value. A value
follows its option as the next argument, in which case it must not start with `-`, or it is joined
to it: `--capacity=5`, `-cpath`, `-c=path`. No option may be given twice.
-/

namespace Directive

/-- An option that takes a value. -/
inductive Setting where
  | file
  | config
  | capacity
deriving DecidableEq

/-- An option without a value. -/
inductive Flag where
  | pretty
  | normalize
  | stats
  | verbose
deriving DecidableEq

/-- What an option is. -/
inductive Switch where
  | setting (setting : Setting)
  | flag (flag : Flag)
  | help
  | version
deriving DecidableEq

namespace Switch

/-- The option with a name. -/
def ofName? (name : String) : Option Switch :=
  match name with
  | "file" => some (setting .file)
  | "config" => some (setting .config)
  | "capacity" => some (setting .capacity)
  | "pretty" => some (flag .pretty)
  | "normalize" => some (flag .normalize)
  | "stats" => some (flag .stats)
  | "verbose" => some (flag .verbose)
  | "help" => some help
  | "version" => some version
  | _ => none

/-- The option with a letter. -/
def ofLetter? (letter : Char) : Option Switch :=
  match letter with
  | 'f' => some (setting .file)
  | 'c' => some (setting .config)
  | 'v' => some (flag .verbose)
  | 'h' => some help
  | 'V' => some version
  | _ => none

end Switch

/-- Why a command line is refused. -/
inductive UsageError where
  | unknownOption (name : String)
  | missingValue
  | unexpectedValue (name : String)
  | invalidValue (value : String)
  | repeatedOption
  | conflict

namespace UsageError

/-- Why a command line is refused, in words. -/
def message : UsageError → String
  | unknownOption name => s!"unexpected argument '{name}' found"
  | missingValue => "a value is required for an option but none was supplied"
  | unexpectedValue name => s!"no value is expected for '{name}'"
  | invalidValue value => s!"invalid value '{value}' for an option"
  | repeatedOption => "an option cannot be used multiple times"
  | conflict => "two arguments cannot be used with each other"

end UsageError

/-- What has been read of a command line. -/
structure CommandLine where
  /-- The directives, the last one first. -/
  directives : List String
  /-- The file that holds the directives. -/
  file : Option String
  /-- The file that holds the configuration. -/
  config : Option String
  /-- The capacity of the cache. -/
  capacity : Option UInt64
  /-- The options without a value, the last one first. -/
  flags : List Flag

/-- A batch as a command line asks for it. -/
structure Invocation where
  /-- How the batch is to be run. -/
  options : Options
  /-- Where the directives come from. -/
  source : Source
  /-- Whether the hits and misses of the cache are to be reported. -/
  stats : Bool

/-- What a command line asks for. -/
inductive Command where
  | run (invocation : Invocation)
  | help
  | version
  | refused (error : UsageError)

namespace CommandLine

/-- Nothing has been read. -/
def empty : CommandLine :=
  ⟨[], none, none, none, []⟩

/-- The number below `2 ^ 64` that is written in digits, perhaps after a plus sign. -/
def count? (text : String) : Option UInt64 :=
  let digits := match text.toList with
    | '+' :: digits => digits
    | digits => digits
  if digits.isEmpty || !digits.all Token.isDigit then
    none
  else
    let value : Nat := digits.foldl (fun value c => value * 10 + (c.toNat - '0'.toNat)) 0
    if value < Nat.pow 2 64 then some value.toUInt64 else none

/-- Adds the value of an option. -/
def set (line : CommandLine) (setting : Setting) (value : String) :
    Except UsageError CommandLine :=
  match setting with
  | .file =>
    if line.file.isSome then .error .repeatedOption
    else if value.isEmpty then .error (.invalidValue value)
    else .ok { line with file := some value }
  | .config =>
    if line.config.isSome then .error .repeatedOption
    else if value.isEmpty then .error (.invalidValue value)
    else .ok { line with config := some value }
  | .capacity =>
    if line.capacity.isSome then .error .repeatedOption
    else match count? value with
      | some count => .ok { line with capacity := some count }
      | none => .error (.invalidValue value)

/-- Adds an option without a value. -/
def raise (line : CommandLine) (flag : Flag) : Except UsageError CommandLine :=
  if flag ∈ line.flags then .error .repeatedOption
  else .ok { line with flags := flag :: line.flags }

/-- What has been read of a command line once one of its arguments has been read. -/
inductive Progress where
  /-- The argument has been read whole. -/
  | done (line : CommandLine)
  /-- The argument ends in an option whose value is the next argument. -/
  | awaiting (line : CommandLine) (setting : Setting)
  /-- The argument settles what the command line asks for. -/
  | settled (command : Command)

namespace Progress

/-- The progress after an addition that may be refused. -/
def ofAddition (added : Except UsageError CommandLine) : Progress :=
  match added with
  | .ok line => done line
  | .error error => settled (.refused error)

end Progress

/-- Reads an option by name, with the value that is joined to it, if one is. -/
def readNamed (line : CommandLine) (name : String) (value : Option String) : Progress :=
  match Switch.ofName? name, value with
  | none, _ => .settled (.refused (.unknownOption name))
  | some (.setting setting), none => .awaiting line setting
  | some (.setting setting), some value => .ofAddition (line.set setting value)
  | some (.flag flag), none => .ofAddition (line.raise flag)
  | some .help, none => .settled .help
  | some .version, none => .settled .version
  | some _, some _ => .settled (.refused (.unexpectedValue name))

/-- Reads options by their letters. What follows the letter of an option with a value is its
value, perhaps after an equals sign. -/
def readLetters (line : CommandLine) : List Char → Progress
  | [] => .done line
  | letter :: more =>
    match Switch.ofLetter? letter with
    | none => .settled (.refused (.unknownOption (String.singleton letter)))
    | some .help => .settled .help
    | some .version => .settled .version
    | some (.flag flag) =>
      match line.raise flag with
      | .ok line => line.readLetters more
      | .error error => .settled (.refused error)
    | some (.setting setting) =>
      match more with
      | [] => .awaiting line setting
      | '=' :: value => .ofAddition (line.set setting (String.ofList value))
      | value => .ofAddition (line.set setting (String.ofList value))

/-- Reads one argument before `--`. -/
def readArgument (line : CommandLine) (argument : String) : Progress :=
  match argument.toList with
  | '-' :: '-' :: name =>
    let value := match name.dropWhile (· ≠ '=') with
      | [] => none
      | _ :: value => some (String.ofList value)
    line.readNamed (String.ofList (name.takeWhile (· ≠ '='))) value
  | '-' :: letter :: letters => line.readLetters (letter :: letters)
  | _ => .done { line with directives := argument :: line.directives }

/-- What a command line asks for once it has been read. -/
def finish (line : CommandLine) : Command :=
  let isPretty := line.flags.contains .pretty
  let isNormalized := line.flags.contains .normalize
  if isPretty && isNormalized then
    .refused .conflict
  else if line.file.isSome && !line.directives.isEmpty then
    .refused .conflict
  else
    .run {
      options := {
        config := line.config
        capacity := line.capacity
        format := if isNormalized then .normalized else if isPretty then .pretty else .json }
      source := match line.file with
        | some path => .file path
        | none => if line.directives.isEmpty then .stdin else .arguments line.directives.reverse
      stats := line.flags.contains .stats }

/-- Reads the arguments that are left. -/
def read (line : CommandLine) : List String → Command
  | [] => line.finish
  | argument :: more =>
    if argument = "--" then
      finish { line with directives := more.reverse ++ line.directives }
    else
      match line.readArgument argument with
      | .done line => line.read more
      | .settled command => command
      | .awaiting line setting =>
        match more with
        | [] => .refused .missingValue
        | value :: more =>
          if value.startsWith "-" && value ≠ "-" then .refused .missingValue
          else
            match line.set setting value with
            | .ok line => line.read more
            | .error error => .refused error

end CommandLine

/-- What the arguments of the program ask for. -/
def Command.ofArguments (arguments : List String) : Command :=
  CommandLine.empty.read arguments

end Directive
