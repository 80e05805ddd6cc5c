/-!
# Descriptors

What a directive says: an expression and the filters that its value goes through, in order. Each
filter has a name and perhaps arguments, each argument is a constant or names a value that is
looked up when the directive is rendered.

A missing list and an empty list are different descriptors. Reading a directive never gives an
empty list.
-/

namespace Directive

/-- An argument of a filter. -/
inductive Argument where
  /-- A constant. -/
  | literal (value : String)
  /-- The name of a value that is looked up when the directive is rendered. -/
  | dynamic (name : String)
deriving DecidableEq, Inhabited

namespace Argument

/-- The text that an argument stands for: its constant or its name. -/
def value : Argument → String
  | literal value => value
  | dynamic name => name

/-- Whether an argument is looked up when the directive is rendered. -/
def isDynamic : Argument → Bool
  | literal _ => false
  | dynamic _ => true

/-- The argument that stands for `value`, looked up if `isDynamic`. -/
def ofValue (value : String) (isDynamic : Bool) : Argument :=
  if isDynamic then dynamic value else literal value

@[simp] theorem ofValue_value_isDynamic (argument : Argument) :
    ofValue argument.value argument.isDynamic = argument := by
  cases argument <;> rfl

end Argument

/-- A filter with its arguments. -/
structure Filter where
  /-- What the filter is called. -/
  name : String
  /-- The arguments, if the filter has a list of them. -/
  args : Option (List Argument)
deriving DecidableEq, Inhabited

namespace Filter

/-- A filter without arguments. -/
def new (name : String) : Filter :=
  ⟨name, none⟩

/-- The filter with one more argument at the end. -/
def addArgument (filter : Filter) (argument : Argument) : Filter :=
  { filter with args := some (filter.args.getD [] ++ [argument]) }

/-- The arguments, none if there is no list of them. -/
def arguments (filter : Filter) : List Argument :=
  filter.args.getD []

end Filter

/-- What a directive says. -/
structure Descriptor where
  /-- The text whose value goes through the filters. -/
  expression : String
  /-- The filters, if the directive has a list of them. -/
  filters : Option (List Filter)
deriving DecidableEq, Inhabited

namespace Descriptor

/-- An expression without filters. -/
def new (expression : String) : Descriptor :=
  ⟨expression, none⟩

/-- The descriptor with one more filter at the end. -/
def addFilter (descriptor : Descriptor) (filter : Filter) : Descriptor :=
  { descriptor with filters := some (descriptor.filters.getD [] ++ [filter]) }

/-- Whether there is a list of filters. -/
def hasFilters (descriptor : Descriptor) : Bool :=
  descriptor.filters.isSome

/-- The filters in order, none if there is no list of them. -/
def pipeline (descriptor : Descriptor) : List Filter :=
  descriptor.filters.getD []

end Descriptor

end Directive
