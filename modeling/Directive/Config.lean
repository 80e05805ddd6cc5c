import Directive.Json.Record
import Directive.Json.Writer
import Directive.Session

/-!
# Configurations

The settings of a session: how many descriptors its cache may hold. In JSON they are an object with
the member `cacheCapacity`, which may be missing; there is no other member. A capacity of zero can
be written down, and is refused when the configuration is used.
-/

namespace Directive

open Json (Reader Record Writer)

/-- The settings of a session. -/
structure Config where
  /-- How many descriptors the cache may hold. -/
  cacheCapacity : UInt64
deriving DecidableEq

/-- Why a configuration is refused. -/
inductive ConfigError where
  /-- The cache could hold nothing. -/
  | zeroCapacity
  /-- The text is no configuration. -/
  | json (error : Json.Error)

namespace ConfigError

/-- What is wrong, in words. -/
def message : ConfigError → String
  | zeroCapacity => "cache capacity must be at least 1"
  | json error => s!"invalid parser configuration: {error.message}"

/-- What is wrong, in words, followed by what lies behind it. -/
def chain (error : ConfigError) : List String :=
  error.message :: match error with
    | zeroCapacity => []
    | json error => [error.message]

end ConfigError

namespace Config

/-- The settings where none are given. -/
def default : Config :=
  ⟨Capacity.default.count⟩

/-- The capacity of the cache, unless it is zero. -/
def capacity (config : Config) : Except ConfigError Capacity :=
  match Capacity.ofCount? config.cacheCapacity with
  | some capacity => .ok capacity
  | none => .error .zeroCapacity

/-- A configuration in JSON. -/
def toJson (config : Config) : Writer :=
  .object [("cacheCapacity", .nat config.cacheCapacity.toNat)]

/-- How a configuration is read. -/
def record : Record (Option UInt64) Config where
  name := "struct ParserConfig"
  start := none
  member draft key :=
    if key = "cacheCapacity" then
      Record.once key draft Reader.count some
    else
      .error (.unknownField key "`cacheCapacity`")
  finish draft := pure ⟨draft.getD default.cacheCapacity⟩
  ofList := do
    let count ← Reader.positional true Reader.count
    pure ⟨count.getD default.cacheCapacity⟩

/-- The configuration that a JSON text holds, if it can be used. -/
def ofJson (text : String) : Except ConfigError Config :=
  match record.read.run text with
  | .error error => .error (.json error)
  | .ok config => config.capacity.map fun _ => config

/-- A new session with these settings. -/
def session (config : Config) : Except ConfigError Session :=
  config.capacity.map fun capacity => .start (.lru (.empty capacity))

end Config

end Directive
