import Directive.Run

/-!
# The program

Reads the files and the standard input that the command line names, and prints line by line what the
run comes to.
-/

namespace Directive

/-- Why the system could not read something. -/
def ReadError.ofSystem : IO.Error → ReadError
  | .noFileOrDirectory _ _ _ => notFound
  | .permissionDenied _ _ _ => permissionDenied
  | .inappropriateType _ code details =>
    if code = 20 then notDirectory else if code = 21 then isDirectory else other details
  | .invalidArgument _ code details => if code = 36 then nameTooLong else other details
  | error => other (toString error)

/-- The contents of a file. -/
def readFile (path : String) : IO Contents := do
  try
    let bytes ← (← IO.FS.Handle.mk path .read).readBinToEnd
    pure (.ok bytes.toList)
  catch error =>
    pure (.error (.ofSystem error))

/-- The contents of the standard input. -/
def readStdin : IO Contents := do
  try
    let bytes ← (← IO.getStdin).readBinToEnd
    pure (.ok bytes.toList)
  catch error =>
    pure (.error (.ofSystem error))

/-- What a batch reads. The source of the directives is left alone if the session cannot be set
up. -/
def readInputs (invocation : Invocation) : IO Inputs := do
  let config ← match invocation.options.config with
    | some path => readFile path
    | none => pure (.ok [])
  let settings : Inputs := {
    configFile := fun _ => config
    file := fun _ => .ok []
    stdin := .ok [] }
  match invocation.options.session settings, invocation.source with
  | .ok _, .file path =>
    let contents ← readFile path
    pure { settings with file := fun _ => contents }
  | .ok _, .stdin =>
    let contents ← readStdin
    pure { settings with stdin := contents }
  | _, _ => pure settings

/-- Why the system refused a write, in its words. -/
def writeReason : IO.Error → String
  | .resourceVanished code details | .resourceExhausted _ code details
  | .hardwareFault code details => s!"{details} (os error {code})"
  | error => toString error

/-- Writes a text to the standard output, at once. -/
def writeStdout (text : String) : ExceptT String IO Unit := ExceptT.mk do
  try
    let stdout ← IO.getStdout
    stdout.putStr text
    stdout.flush
    pure (.ok ())
  catch error =>
    pure (.error (writeReason error))

end Directive

/-- Runs the program. -/
def main (arguments : List String) : IO UInt32 := do
  let command := Directive.Command.ofArguments arguments
  let inputs ← match command with
    | .run invocation => Directive.readInputs invocation
    | _ => pure { configFile := fun _ => .ok [], file := fun _ => .ok [], stdin := .ok [] }
  let (code, report) ← command.perform inputs Directive.writeStdout
  IO.eprint report
  pure code
