import Directive.Json.Number
import Directive.Json.Text

/-!
# Skipping JSON values

A value that is not wanted is read for its form alone, however deep its lists and objects nest: the
brackets that are open are kept in a list, and each round of the loop takes one value or bracket.
-/

namespace Directive.Json

/-- A bracket that is open. -/
inductive Frame where
  | list
  | object
deriving DecidableEq

namespace Frame

/-- The frame that a character opens. -/
def ofOpener? : Char → Option Frame
  | '[' => some list
  | '{' => some object
  | _ => none

/-- The bracket that closes a frame. -/
def closer : Frame → Char
  | list => ']'
  | object => '}'

/-- What is wrong with a text that ends in a frame. -/
def ended : Frame → Cause
  | list => .endInList
  | object => .endInObject

/-- What is wrong with a text in which a value is followed by something else than a comma or the
closing bracket. -/
def unseparated : Frame → Cause
  | list => .expectedListComma
  | object => .expectedObjectComma

end Frame

namespace Reader

/-- The colon after a key. -/
def colon : Reader Unit := do
  space
  match ← peek with
  | none => failBefore .endInObject
  | some c => if c = ':' then skip else failWithin .expectedColon

/-- Skips the key of a member and its colon. A list has no keys. -/
def skipKey : Frame → Reader Unit
  | .list => pure ()
  | .object => do
    space
    match ← peek with
    | none => failBefore .endInObject
    | some c =>
      if c = '\x22' then
        skip
        skipString
        colon
      else
        failWithin .keyNotString

/-- Skips a value other than a list or an object, whose first character is `c`. -/
def skipScalar (c : Char) : Reader Unit :=
  if c = 'n' then word ['n', 'u', 'l', 'l']
  else if c = 't' then word ['t', 'r', 'u', 'e']
  else if c = 'f' then word ['f', 'a', 'l', 's', 'e']
  else if c = '\x22' then do
    skip
    skipString
  else if c = '-' || Token.isDigit c then skipNumber
  else failWithin .expectedValue

/-- What is to be taken next. -/
inductive Stage where
  /-- What follows a value: a comma or a closing bracket, if a bracket is open. -/
  | closed
  /-- A value. -/
  | value
  /-- What follows an opening bracket: the closing one, or an item. -/
  | opened (frame : Frame)

/-- How many stages can follow without taking anything from the text. -/
def Stage.rank : Stage → Nat
  | closed => 0
  | value => 1
  | opened _ => 2

/-- Skips to the end of the value that the brackets in `frames` are open in, the innermost one
first. -/
def skipFrom (stage : Stage) (frames : List Frame) (text : List Char) :
    Except Fault (Read Unit text) :=
  match stage, frames with
  | .closed, [] => .ok ⟨(), text, Nat.le_refl _⟩
  | .closed, frame :: frames =>
    match h : afterSpace text with
    | [] => .error (.before frame.ended [])
    | c :: rest =>
      have shorter := length_lt_of_afterSpace h
      if c = ',' then
        match skipKey frame rest with
        | .error fault => .error fault
        | .ok ⟨_, item, kept⟩ =>
          (skipFrom .value (frame :: frames) item).map (·.widen (by omega))
      else if c = frame.closer then
        (skipFrom .closed frames rest).map (·.widen (by omega))
      else
        .error (.within frame.unseparated (c :: rest))
  | .value, frames =>
    match h : afterSpace text with
    | [] => .error (.before .endInValue [])
    | c :: rest =>
      have shorter := length_lt_of_afterSpace h
      match Frame.ofOpener? c with
      | some frame =>
        (skipFrom (.opened frame) frames rest).map (·.widen (by omega))
      | none =>
        match skipScalar c (c :: rest) with
        | .error fault => .error fault
        | .ok ⟨_, left, kept⟩ =>
          have kept : left.length ≤ rest.length + 1 := kept
          (skipFrom .closed frames left).map (·.widen (by omega))
  | .opened frame, frames =>
    match h : afterSpace text with
    | [] => .error (.before frame.ended [])
    | c :: rest =>
      have shorter := length_lt_of_afterSpace h
      if c = frame.closer then
        (skipFrom .closed frames rest).map (·.widen (by omega))
      else
        match skipKey frame (c :: rest) with
        | .error fault => .error fault
        | .ok ⟨_, item, kept⟩ =>
          have kept : item.length ≤ rest.length + 1 := kept
          (skipFrom .value (frame :: frames) item).map (·.widen (by omega))
termination_by (text.length, stage.rank)
decreasing_by
  -- every stage takes a character or lowers the rank
  all_goals simp only [Stage.rank, Prod.lex_def]
  all_goals omega

/-- Skips a value. -/
def skipValue : Reader Unit :=
  skipFrom .value []

end Reader

end Directive.Json
