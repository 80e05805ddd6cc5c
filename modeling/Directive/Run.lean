import Directive.CommandLine

/-!
# Runs of the program

What a run of the program prints, and the code it ends with: 0 if all went well, 1 if something
could not be read or written, 2 if the command line asks for nothing sensible.

A run reads all that it needs before it prints anything, so that what it is to print is settled
first, as its `Plan`. Then it prints line by line. The first line that the standard output refuses
ends it, and what has been printed by then stays printed. So there are two answers to what a run
comes to: its `Outcome` if everything is taken, and its `Ending` on an output with faults. The
standard error is assumed to take what is reported.
-/

namespace Directive

/-- What a run prints and the code it ends with, where everything is taken. -/
structure Outcome where
  /-- The exit code. -/
  code : UInt32
  /-- What is printed. -/
  stdout : String
  /-- What is reported. -/
  stderr : String
deriving DecidableEq

/-- The lines as a text in which a line feed ends each of them. -/
def unlines (lines : List String) : String :=
  String.join (lines.map (· ++ "\n"))

/-! ## Plans -/

/-- What a run is to do once it has read what it needs. -/
structure Plan where
  /-- The lines to print, one for each directive. In the format `pretty` a line holds line feeds of
  its own. -/
  lines : List String
  /-- The code to end with when they are printed. -/
  code : UInt32
  /-- What to report when they are printed. -/
  report : String

/-- The outcome of a plan. -/
def Plan.outcome (plan : Plan) : Outcome :=
  ⟨plan.code, unlines plan.lines, plan.report⟩

/-- What a run reports of a session: how many directives it parsed, and how the cache did. -/
def Session.report (session : Session) : String :=
  s!"{session.total} directives, {session.hits} cache hits, {session.misses} misses\n"

/-- Runs a batch. -/
def Invocation.execute (invocation : Invocation) (inputs : Inputs) :
    Except BatchError (List String × Session) := do
  let session ← invocation.options.session inputs
  let directives ← invocation.source.directives inputs
  pure (session.renderAll invocation.options.format directives)

/-- What is to be done for a batch. If it could not be run, nothing is to be printed. -/
def Invocation.plan (invocation : Invocation) (inputs : Inputs) : Plan :=
  match invocation.execute inputs with
  | .error error => ⟨[], 1, s!"Error: {error.message}\n"⟩
  | .ok (output, session) => ⟨output, 0, if invocation.stats then session.report else ""⟩

/-- The outcome of a batch. -/
def Invocation.outcome (invocation : Invocation) (inputs : Inputs) : Outcome :=
  (invocation.plan inputs).outcome

/-- What the program is called, and its version. -/
def versionText : String :=
  "dirparse 0.1.0\n"

/-- How the program is used. -/
def helpText : String :=
  unlines [
    "Split template directive values into expression and filters",
    "",
    "Usage: dirparse [OPTIONS] [DIRECTIVE]...",
    "",
    "Arguments:",
    "  [DIRECTIVE]...  Directive values to parse (reads stdin when none and no --file)",
    "",
    "Options:",
    "  -f, --file <PATH>    Parse each non-blank line of a file",
    "  -c, --config <PATH>  JSON parser configuration",
    "      --capacity <N>   Descriptor cache capacity (overrides --config)",
    "      --pretty         Pretty-print JSON output",
    "      --normalize      Print canonical directive text instead of JSON",
    "      --stats          Print cache hits and misses to stderr",
    "  -v, --verbose        Enable debug logging",
    "  -h, --help           Print help",
    "  -V, --version        Print version"]

/-- What is reported of a command line that is refused. -/
def UsageError.report (error : UsageError) : String :=
  s!"error: {error.message}\n\nFor more information, try '--help'.\n"

/-- The outcome of what a command line asks for. -/
def Command.outcome (command : Command) (inputs : Inputs) : Outcome :=
  match command with
  | .run invocation => invocation.outcome inputs
  | .help => ⟨0, helpText, ""⟩
  | .version => ⟨0, versionText, ""⟩
  | .refused error => ⟨2, "", error.report⟩

/-- The outcome of a run of the program with some arguments. -/
def run (arguments : List String) (inputs : Inputs) : Outcome :=
  (Command.ofArguments arguments).outcome inputs

/-! ## Printing -/

section Printing

variable {m : Type → Type} [Monad m]

/-- Prints lines one after another, each with a line feed behind it, up to one that is refused. -/
def printLines (write : String → ExceptT String m Unit) : List String → ExceptT String m Unit
  | [] => pure ()
  | line :: more => do
    write (line ++ "\n")
    printLines write more

/-- Prints what is planned. The result is the code to end with and what is left to report: what the
plan says, or else why a line could not be written. -/
def Plan.perform (plan : Plan) (write : String → ExceptT String m Unit) :
    m (UInt32 × String) := do
  match ← (printLines write plan.lines).run with
  | .ok () => pure (plan.code, plan.report)
  | .error reason => pure (1, s!"Error: failed to write output: {reason}\n")

/-- Prints a text about the program. Whether it is taken is no matter. -/
def inform (write : String → ExceptT String m Unit) (text : String) : m (UInt32 × String) := do
  let _ ← (write text).run
  pure (0, "")

/-- Does what a command line asks for. -/
def Command.perform (command : Command) (inputs : Inputs)
    (write : String → ExceptT String m Unit) : m (UInt32 × String) :=
  match command with
  | .run invocation => (invocation.plan inputs).perform write
  | .help => inform write helpText
  | .version => inform write versionText
  | .refused error => pure (2, error.report)

end Printing

/-! ## Outputs with faults -/

/-- A write that fails. -/
structure WriteFault where
  /-- How many bytes of the text are taken all the same. All of them may be, if the output takes what
  is left over when the program exits. -/
  taken : Nat
  /-- The reason that the system gives. -/
  reason : String

/-- A standard output. -/
structure Sink where
  /-- The bytes that it has taken. -/
  taken : List UInt8
  /-- Which of the writes to come fail, and how. The next one is number 0. -/
  faults : Nat → Option WriteFault

/-- Writes a text to a standard output, or what is taken of it before the write fails. -/
def Sink.write (text : String) : ExceptT String (StateM Sink) Unit := fun sink =>
  let bytes := Text.utf8 text.toList
  let faults := fun write => sink.faults (write + 1)
  match sink.faults 0 with
  | none => (.ok (), ⟨sink.taken ++ bytes, faults⟩)
  | some fault => (.error fault.reason, ⟨sink.taken ++ bytes.take fault.taken, faults⟩)

/-- How a run has ended. -/
structure Ending where
  /-- The exit code. -/
  code : UInt32
  /-- The bytes that the standard output has taken. -/
  stdout : List UInt8
  /-- What is reported. -/
  stderr : String
deriving DecidableEq

/-- How it ends to do what a command line asks for, on a standard output with some faults. -/
def Command.ending (command : Command) (inputs : Inputs) (faults : Nat → Option WriteFault) :
    Ending :=
  let ((code, report), sink) := (command.perform inputs Sink.write).run ⟨[], faults⟩
  ⟨code, sink.taken, report⟩

end Directive
