import Directive.Json.Skip

/-!
# Objects, lists and scalars in JSON text

Reading values of a known shape. An object of a known kind is a `Record`: its members may stand in
any order, each at most once, and it may also be written as a list of its values in a fixed order.
A value of another kind than expected is read first, as far as its first bracket, and then
reported.
-/

namespace Directive.Json

namespace Reader

variable {α σ : Type}

/-- Reads a value of another kind than expected and reports it. -/
def mismatch (expected : String) : Reader α := do
  match ← peek with
  | none => failWithin .expectedValue
  | some c =>
    if c = 'n' then
      word ['n', 'u', 'l', 'l']
      failBefore (.wrongType .null expected)
    else if c = 't' then
      word ['t', 'r', 'u', 'e']
      failBefore (.wrongType (.boolean true) expected)
    else if c = 'f' then
      word ['f', 'a', 'l', 's', 'e']
      failBefore (.wrongType (.boolean false) expected)
    else if c = '-' || Token.isDigit c then
      let found ← number
      failBefore (.wrongType found.toFound expected)
    else if c = '\x22' then
      skip
      let found ← string
      failBefore (.wrongType (.string found) expected)
    else if c = '[' then
      failBefore (.wrongType .sequence expected)
    else if c = '{' then
      failBefore (.wrongType .map expected)
    else
      failWithin .expectedValue

/-- Reads a value whose first character says how, after the space before it. -/
def dispatch (expected : String) (readers : Char → Option (Reader α)) : Reader α := do
  space
  match ← peek with
  | none => failBefore .endInValue
  | some c => (readers c).getD (mismatch expected)

/-- A string. -/
def text : Reader String :=
  dispatch "a string" fun c =>
    if c = '\x22' then some (do skip; string) else none

/-- A truth value. -/
def bool : Reader Bool :=
  dispatch "a boolean" fun c =>
    if c = 't' then some (do word ['t', 'r', 'u', 'e']; pure true)
    else if c = 'f' then some (do word ['f', 'a', 'l', 's', 'e']; pure false)
    else none

/-- A natural number below `2 ^ 64`. -/
def count : Reader UInt64 :=
  let expected := "usize"
  dispatch expected fun c =>
    if c = '-' || Token.isDigit c then some do
      match ← number with
      | .natural value => pure value
      | .negative value => failBefore (.wrongValue (Number.negative value).toFound expected)
      | .floating value => failBefore (.wrongType (.floating value) expected)
    else none

/-- A value, or nothing for `null`. -/
def optional (reader : Reader α) : Reader (Option α) := do
  space
  if (← peek) = some 'n' then
    word ['n', 'u', 'l', 'l']
    pure none
  else
    some <$> reader

/-- What stands at the place of an item of a list or of a member of an object. -/
inductive Item (isFirst : Bool) (text : List Char) where
  /-- An item, at the start of the rest. -/
  | next (rest : List Char) (h : rest.length < text.length + isFirst.toNat)
  /-- The closing bracket, at the start of the rest. -/
  | closer (rest : List Char) (h : rest.length ≤ text.length)

theorem length_cons_le {text rest : List Char} (c : Char) (h : rest.length < text.length) :
    (c :: rest).length ≤ text.length := h

theorem length_first_lt {isFirst : Bool} (hfirst : isFirst = true) {text rest : List Char}
    (c : Char) (h : rest.length < text.length) :
    (c :: rest).length < text.length + isFirst.toNat := by
  simp only [List.length_cons, hfirst, Bool.toNat_true]
  omega

theorem length_later_lt (isFirst : Bool) {text rest more : List Char} (d : Char)
    (h : rest.length < text.length) (h' : more.length < rest.length) :
    (d :: more).length < text.length + isFirst.toNat := by
  simp only [List.length_cons]
  omega

/-- The place of an item of a list: the first one follows the opening bracket, any other one a
comma. -/
def listItem (isFirst : Bool) (text : List Char) : Except Fault (Item isFirst text) :=
  match h : afterSpace text with
  | [] => .error (.before .endInList [])
  | c :: rest =>
    have shorter := length_lt_of_afterSpace h
    if c = ']' then
      .ok (.closer (c :: rest) (length_cons_le c shorter))
    else if isFirst_eq : isFirst then
      .ok (.next (c :: rest) (length_first_lt isFirst_eq c shorter))
    else if c = ',' then
      match h' : afterSpace rest with
      | [] => .error (.before .endInValue [])
      | d :: more =>
        have shorter' := length_lt_of_afterSpace h'
        if d = ']' then .error (.within .trailingComma (d :: more))
        else .ok (.next (d :: more) (length_later_lt isFirst d shorter shorter'))
    else
      .error (.within .expectedListComma (c :: rest))

/-- The place of a member of an object, at its key: the first one follows the opening bracket, any
other one a comma. -/
def objectItem (isFirst : Bool) (text : List Char) : Except Fault (Item isFirst text) :=
  match h : afterSpace text with
  | [] => .error (.before .endInObject [])
  | c :: rest =>
    have shorter := length_lt_of_afterSpace h
    if c = '}' then
      .ok (.closer (c :: rest) (length_cons_le c shorter))
    else if isFirst_eq : isFirst then
      if c = '\x22' then
        .ok (.next (c :: rest) (length_first_lt isFirst_eq c shorter))
      else
        .error (.within .keyNotString (c :: rest))
    else if c = ',' then
      match h' : afterSpace rest with
      | [] => .error (.before .endInValue [])
      | d :: more =>
        have shorter' := length_lt_of_afterSpace h'
        if d = '\x22' then .ok (.next (d :: more) (length_later_lt isFirst d shorter shorter'))
        else if d = '}' then .error (.within .trailingComma (d :: more))
        else .error (.within .keyNotString (d :: more))
    else
      .error (.within .expectedObjectComma (c :: rest))

/-- The items of a list after those in `seen`, the last of them first, up to the closing
bracket. -/
def itemsFrom (item : Reader α) (isFirst : Bool) (seen : List α) (text : List Char) :
    Except Fault (Read (List α) text) :=
  match listItem isFirst text with
  | .error fault => .error fault
  | .ok (.closer rest h) => .ok ⟨seen.reverse, rest.tail, by simp; omega⟩
  | .ok (.next rest h) =>
    match item rest with
    | .error fault => .error fault
    | .ok ⟨value, more, kept⟩ =>
      have := isFirst.toNat_le
      (itemsFrom item false (value :: seen) more).map (·.widen (by omega))
termination_by text.length + isFirst.toNat
decreasing_by simp only [Bool.toNat_false]; omega

/-- A list of values. -/
def list (item : Reader α) : Reader (List α) :=
  dispatch "a sequence" fun c =>
    if c = '[' then some (do skip; itemsFrom item true []) else none

/-- The next value of a list that stands for an object, unless the list ends. -/
def positional (isFirst : Bool) (item : Reader α) : Reader (Option α) := fun text =>
  match listItem isFirst text with
  | .error fault => .error fault
  | .ok (.closer rest h) => .ok ⟨none, rest, h⟩
  | .ok (.next rest h) =>
    have := isFirst.toNat_le
    (item rest).map fun read => (read.map some).widen (by omega)

/-- The end of a list that stands for an object. -/
def listEnd : Reader Unit := do
  space
  match ← peek with
  | none => failBefore .endInList
  | some c =>
    if c = ']' then
      skip
    else if c = ',' then
      skip
      space
      failWithin (if (← peek) = some ']' then .trailingComma else .trailingCharacters)
    else
      failWithin .trailingCharacters

end Reader

/-- How a kind of object is read: `σ` holds what has been read of its members, `α` is the result. -/
structure Record (σ α : Type) where
  /-- What a report calls an object of this kind. -/
  name : String
  /-- No member has been read. -/
  start : σ
  /-- How the value of the member with a key is read, or why there can be no such member. -/
  member : σ → String → Except Cause (Reader σ)
  /-- The result once all members have been read, or which member is missing. -/
  finish : σ → Except Cause α
  /-- How the values are read from a list, after the opening bracket. -/
  ofList : Reader α

namespace Record

variable {α σ : Type}

/-- The fault of a member that there cannot be, when the text after its key is `rest`. -/
def refusal (cause : Cause) (rest : List Char) : Fault :=
  let rest := Reader.afterSpace rest
  if rest.head? = some '}' then .within cause rest else .before cause rest

/-- Reads the members of an object up to the closing bracket, when the members in `state` have been
read. -/
def membersFrom (record : Record σ α) (isFirst : Bool) (state : σ) (text : List Char) :
    Except Fault (Read σ text) :=
  match Reader.objectItem isFirst text with
  | .error fault => .error fault
  | .ok (.closer rest h) => .ok ⟨state, rest, h⟩
  | .ok (.next rest h) =>
    match Reader.string rest.tail with
    | .error fault => .error fault
    | .ok ⟨key, afterKey, kept⟩ =>
      match record.member state key with
      | .error cause => .error (refusal cause afterKey)
      | .ok value =>
        match (do Reader.colon; value : Reader σ) afterKey with
        | .error fault => .error fault
        | .ok ⟨state, more, kept'⟩ =>
          have := isFirst.toNat_le
          have kept : afterKey.length ≤ rest.length - 1 := by simpa using kept
          (record.membersFrom false state more).map (·.widen (by omega))
termination_by text.length + isFirst.toNat
decreasing_by simp only [Bool.toNat_false]; omega

/-- The closing bracket of an object, when the members in `state` have been read. -/
def close (record : Record σ α) (state : σ) : Reader α :=
  match record.finish state with
  | .error cause => Reader.failWithin cause
  | .ok value => do
    Reader.skip
    pure value

/-- Reads an object. -/
def read (record : Record σ α) : Reader α :=
  Reader.dispatch record.name fun c =>
    if c = '{' then some do
      Reader.skip
      let state ← record.membersFrom true record.start
      record.close state
    else if c = '[' then some do
      Reader.skip
      let value ← record.ofList
      Reader.listEnd
      pure value
    else none

/-- Reads the value of a member that may stand once. -/
def once {β : Type} (name : String) (slot : Option β) (value : Reader β) (store : β → σ) :
    Except Cause (Reader σ) :=
  match slot with
  | some _ => .error (.duplicateField name)
  | none => .ok (store <$> value)

/-- The value of a member that has to stand. -/
def required {β : Type} (name : String) (slot : Option β) : Except Cause β :=
  match slot with
  | some value => .ok value
  | none => .error (.missingField name)

/-- Skips the value of a member that says nothing. -/
def ignored (state : σ) : Except Cause (Reader σ) :=
  .ok (do Reader.skipValue; pure state)

/-- The value at a place of a list where there has to be one. Before it stand `items` values. -/
def place {β : Type} (expected : String) (items : Nat) (value : Reader β) : Reader β := do
  match ← Reader.positional (items == 0) value with
  | some value => pure value
  | none => Reader.failWithin (.wrongLength items expected)

end Record

end Directive.Json
