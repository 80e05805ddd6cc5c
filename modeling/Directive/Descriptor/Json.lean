import Directive.Descriptor
import Directive.Json.Record
import Directive.Json.Writer

/-!
# Descriptors in JSON

A descriptor is an object with the members `expression` and `filters`, a filter one with `name`
and `args`, an argument one with `value` and `dynamic`. A missing list has no member when it is
written; when it is read it may also be `null`, and members of other names say nothing.
-/

namespace Directive

open Json (Cause Reader Record Writer)

/-- The member for a list that may be missing. -/
def Json.Writer.optionalList {α : Type} (key : String) (items : Option (List α))
    (write : α → Writer) : List (String × Writer) :=
  match items with
  | none => []
  | some items => [(key, .list (items.map write))]

/-- An argument in JSON. -/
def Argument.toJson (argument : Argument) : Writer :=
  .object [("value", .text argument.value), ("dynamic", .bool argument.isDynamic)]

/-- A filter in JSON. -/
def Filter.toJson (filter : Filter) : Writer :=
  .object (("name", .text filter.name)
    :: Writer.optionalList "args" filter.args Argument.toJson)

/-- A descriptor in JSON. -/
def Descriptor.toJson (descriptor : Descriptor) : Writer :=
  .object (("expression", .text descriptor.expression)
    :: Writer.optionalList "filters" descriptor.filters Filter.toJson)

namespace Argument

/-- What has been read of the members of an argument. -/
structure Draft where
  value : Option String
  isDynamic : Option Bool

/-- How an argument is read. -/
def record : Record Draft Argument where
  name := "struct FilterArg"
  start := ⟨none, none⟩
  member draft key :=
    if key = "value" then
      Record.once key draft.value Reader.text fun value => { draft with value := some value }
    else if key = "dynamic" then
      Record.once key draft.isDynamic Reader.bool fun value =>
        { draft with isDynamic := some value }
    else
      Record.ignored draft
  finish draft := do
    let value ← Record.required "value" draft.value
    let isDynamic ← Record.required "dynamic" draft.isDynamic
    pure (.ofValue value isDynamic)
  ofList := do
    let expected := "struct FilterArg with 2 elements"
    let value ← Record.place expected 0 Reader.text
    let isDynamic ← Record.place expected 1 Reader.bool
    pure (.ofValue value isDynamic)

end Argument

namespace Filter

/-- What has been read of the members of a filter. -/
structure Draft where
  name : Option String
  args : Option (Option (List Argument))

/-- How the arguments of a filter are read. -/
def readArguments : Reader (Option (List Argument)) :=
  Reader.optional (Reader.list Argument.record.read)

/-- How a filter is read. -/
def record : Record Draft Filter where
  name := "struct FilterSpec"
  start := ⟨none, none⟩
  member draft key :=
    if key = "name" then
      Record.once key draft.name Reader.text fun name => { draft with name := some name }
    else if key = "args" then
      Record.once key draft.args readArguments fun args => { draft with args := some args }
    else
      Record.ignored draft
  finish draft := do
    let name ← Record.required "name" draft.name
    pure ⟨name, draft.args.join⟩
  ofList := do
    let name ← Record.place "struct FilterSpec with 2 elements" 0 Reader.text
    let args ← Reader.positional false readArguments
    pure ⟨name, args.join⟩

end Filter

namespace Descriptor

/-- What has been read of the members of a descriptor. -/
structure Draft where
  expression : Option String
  filters : Option (Option (List Filter))

/-- How the filters of a descriptor are read. -/
def readFilters : Reader (Option (List Filter)) :=
  Reader.optional (Reader.list Filter.record.read)

/-- How a descriptor is read. -/
def record : Record Draft Descriptor where
  name := "struct DirectiveDescriptor"
  start := ⟨none, none⟩
  member draft key :=
    if key = "expression" then
      Record.once key draft.expression Reader.text fun expression =>
        { draft with expression := some expression }
    else if key = "filters" then
      Record.once key draft.filters readFilters fun filters =>
        { draft with filters := some filters }
    else
      Record.ignored draft
  finish draft := do
    let expression ← Record.required "expression" draft.expression
    pure ⟨expression, draft.filters.join⟩
  ofList := do
    let expression ← Record.place "struct DirectiveDescriptor with 2 elements" 0 Reader.text
    let filters ← Reader.positional false readFilters
    pure ⟨expression, filters.join⟩

/-- Why a text holds no descriptor. -/
structure JsonError where
  /-- What is wrong with the text. -/
  reason : Json.Error

/-- What is wrong, in words. -/
def JsonError.message (error : JsonError) : String :=
  s!"invalid directive descriptor: {error.reason.message}"

/-- The descriptor that a JSON text holds. -/
def ofJson (text : String) : Except JsonError Descriptor :=
  (record.read.run text).mapError JsonError.mk

end Descriptor

end Directive
