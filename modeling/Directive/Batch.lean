import Directive.Config
import Directive.Descriptor.Json
import Directive.Descriptor.Printer
import Directive.Text.Lines

/-!
# Batches

Many directives parsed in one session: the session is set up from a configuration file, the
directives come from the arguments of a program, from a file or from its standard input, and each
descriptor is printed in one of three formats.

What a batch reads is given as `Inputs`. Nothing is printed unless everything could be read. A path
is given by the text that messages show for it. As a batch reads at most one file for its
configuration and one for its directives, no two paths have to be told apart that are shown alike.
-/

namespace Directive

/-- How descriptors are printed. -/
inductive Format where
  /-- In JSON, on one line. -/
  | json
  /-- In JSON, over several lines. -/
  | pretty
  /-- As a directive. -/
  | normalized
deriving DecidableEq

/-- A descriptor in a format. -/
def Format.render : Format → Descriptor → String
  | json, descriptor => descriptor.toJson.render .compact
  | pretty, descriptor => descriptor.toJson.render .pretty
  | normalized, descriptor => descriptor.render

/-- Where directives come from. -/
inductive Source where
  /-- They are given one by one. -/
  | arguments (directives : List String)
  /-- They are the lines of a file that are not blank. -/
  | file (path : String)
  /-- They are the lines of the standard input that are not blank. -/
  | stdin
deriving DecidableEq

/-- How a batch is to be run. -/
structure Options where
  /-- The file that holds the configuration, if there is one. -/
  config : Option String
  /-- The capacity of the cache, if it is not to be that of the configuration. -/
  capacity : Option UInt64
  /-- How descriptors are printed. -/
  format : Format

/-- Why a file or a stream could not be read. -/
inductive ReadError where
  /-- Nothing has that name. -/
  | notFound
  /-- The file must not be read. -/
  | permissionDenied
  /-- A file is used as a directory. -/
  | notDirectory
  /-- The path leads to a directory. -/
  | isDirectory
  /-- The path, or a name in it, is longer than the system admits. -/
  | nameTooLong
  /-- The contents are no text. -/
  | notUtf8
  /-- The system gives another reason. -/
  | other (reason : String)
deriving DecidableEq

namespace ReadError

/-- The reason in words. -/
def message : ReadError → String
  | notFound => "No such file or directory (os error 2)"
  | permissionDenied => "Permission denied (os error 13)"
  | notDirectory => "Not a directory (os error 20)"
  | isDirectory => "Is a directory (os error 21)"
  | nameTooLong => "File name too long (os error 36)"
  | notUtf8 => "stream did not contain valid UTF-8"
  | other reason => reason

end ReadError

/-- The contents of a file or a stream. -/
abbrev Contents := Except ReadError (List UInt8)

/-- What a batch can read. The configuration is read before the directives, and a stream that it was
read from may have nothing left for them. -/
structure Inputs where
  /-- The contents of a file when the configuration is read. -/
  configFile : String → Contents
  /-- The contents of a file when the directives are read. -/
  file : String → Contents
  /-- The contents of the standard input when the directives are read. -/
  stdin : Contents

/-- Why a batch could not be run. -/
inductive BatchError where
  /-- Something could not be read. -/
  | unreadable (what : String) (error : ReadError)
  /-- A file holds no usable configuration. -/
  | invalidConfig (path : String) (error : ConfigError)
  /-- The settings cannot be used. -/
  | refused (error : ConfigError)

namespace BatchError

/-- What went wrong, in words: each reason follows what it led to. -/
def message : BatchError → String
  | unreadable what error => s!"failed to read {what}: {error.message}"
  | invalidConfig path error => ": ".intercalate (s!"invalid config {path}" :: error.chain)
  | refused error => ": ".intercalate error.chain

end BatchError

/-- The contents of something, read as a text by `decode`. -/
def Contents.decode {α : Type} (contents : Contents) (what : String)
    (decode : List UInt8 → Option α) : Except BatchError α :=
  match contents with
  | .error error => .error (.unreadable what error)
  | .ok bytes =>
    match decode bytes with
    | some value => .ok value
    | none => .error (.unreadable what .notUtf8)

/-- The configuration in a file. -/
def Inputs.config (inputs : Inputs) (path : String) : Except BatchError Config := do
  let text ← (inputs.configFile path).decode s!"config {path}" Text.ofUtf8?
  (Config.ofJson (String.ofList text)).mapError (.invalidConfig path)

/-- The session that the options ask for. A configuration that cannot be used is an error even if
its capacity is not wanted. -/
def Options.session (options : Options) (inputs : Inputs) : Except BatchError Session := do
  let config ← match options.config with
    | some path => inputs.config path
    | none => pure Config.default
  let config := match options.capacity with
    | some capacity => { config with cacheCapacity := capacity }
    | none => config
  config.session.mapError .refused

/-- The directives among lines: those that are not blank. -/
def directivesOfLines (lines : List (List Char)) : List String :=
  (Text.nonBlank lines).map String.ofList

/-- The directives of a source. -/
def Source.directives (source : Source) (inputs : Inputs) : Except BatchError (List String) :=
  match source with
  | .arguments directives => .ok directives
  | .file path =>
    ((inputs.file path).decode path Text.ofUtf8?).map fun text =>
      directivesOfLines (Text.lines text)
  | .stdin => (inputs.stdin.decode "stdin" Text.linesOfBytes?).map directivesOfLines

/-- The descriptors of several directives in a format, in order, and the session after them. The
directives are parsed one after another, which is one of the schedules of a pool of workers: the
texts are the same for all of them, the hits and misses need not be. -/
def Session.renderAll (session : Session) (format : Format) (directives : List String) :
    List String × Session :=
  let (descriptors, session) := session.parseAll directives
  (descriptors.map format.render, session)

end Directive
