import Directive.Json.Skip
import Mathlib.Data.List.Basic

/-!
# The form of JSON text

What a JSON text looks like, apart from how it is read: strings with their escapes, numbers, lists
and objects, and the space that may stand around the values in them. Main definitions:

* `Spells`: the body of a string spells some characters, two escapes for a character outside the
  first plane.
* `IsBody`: the body of a string by its form alone, in which an escape may be half a character.
* `IsValue`: a value without the space around it.
* `Item`, `Member`: an item of a list and a member of an object, with the space around their parts.

Main facts:

* `enclosed_cons`: a list or an object is seen from its first item.
* `IsValue.exists_cons`: a value starts with a character that nothing else starts with.
-/

namespace Directive.Json

open Reader (hexValue? isSpace isLowSurrogate isHighSurrogate shortEscape? startsExponent)
open Token (isDigit)

/-- A text of nothing but space. -/
def IsSpace (text : List Char) : Prop :=
  ∀ c ∈ text, isSpace c = true

theorem isSpace_nil : IsSpace [] :=
  List.forall_mem_nil _

/-! ## Strings -/

/-- Four digits in base sixteen and the UTF-16 unit that they stand for. -/
inductive IsUnit : List Char → Nat → Prop
  | mk {a b c d : Char} {i j k l : Nat} (ha : hexValue? a = some i) (hb : hexValue? b = some j)
      (hc : hexValue? c = some k) (hd : hexValue? d = some l) :
      IsUnit [a, b, c, d] (((i * 16 + j) * 16 + k) * 16 + l)

/-- A character that stands for itself in a string. -/
structure IsBare (c : Char) : Prop where
  /-- It does not end the string. -/
  ne_quote : c ≠ '\x22'
  /-- It does not start an escape. -/
  ne_backslash : c ≠ '\\'
  /-- It is no control character. -/
  not_control : ¬ c.toNat < 0x20

instance (c : Char) : Decidable (IsBare c) :=
  decidable_of_iff (c ≠ '\x22' ∧ c ≠ '\\' ∧ ¬ c.toNat < 0x20)
    ⟨fun h => ⟨h.1, h.2.1, h.2.2⟩, fun h => ⟨h.ne_quote, h.ne_backslash, h.not_control⟩⟩

/-- A text has the form of the body of a string. An escape by number may be half of a character. -/
inductive IsBody : List Char → Prop
  /-- The empty string. -/
  | nil : IsBody []
  /-- A character that stands for itself. -/
  | bare {c : Char} {body : List Char} (hc : IsBare c) (h : IsBody body) : IsBody (c :: body)
  /-- A short escape. -/
  | short {mark c : Char} {body : List Char} (hmark : shortEscape? mark = some c)
      (h : IsBody body) : IsBody ('\\' :: mark :: body)
  /-- An escape by number. -/
  | unit {digits body : List Char} {n : Nat} (hdigits : IsUnit digits n) (h : IsBody body) :
      IsBody ('\\' :: 'u' :: (digits ++ body))

/-- The character of which two UTF-16 units are the halves. -/
def joined (high low : Nat) : Char :=
  Char.ofNat (0x10000 + (high - 0xD800) * 0x400 + (low - 0xDC00))

/-- The body of a string spells these characters. -/
inductive Spells : List Char → List Char → Prop
  /-- The empty string. -/
  | nil : Spells [] []
  /-- A character that stands for itself. -/
  | bare {c : Char} {body text : List Char} (hc : IsBare c) (h : Spells body text) :
      Spells (c :: body) (c :: text)
  /-- A short escape. -/
  | short {mark c : Char} {body text : List Char} (hmark : shortEscape? mark = some c)
      (h : Spells body text) : Spells ('\\' :: mark :: body) (c :: text)
  /-- The number of a character. -/
  | unit {digits body text : List Char} {n : Nat} (hdigits : IsUnit digits n)
      (hlow : isLowSurrogate n = false) (hhigh : isHighSurrogate n = false) (h : Spells body text) :
      Spells ('\\' :: 'u' :: (digits ++ body)) (Char.ofNat n :: text)
  /-- The numbers of the two halves of a character. -/
  | pair {first second body text : List Char} {high low : Nat} (hfirst : IsUnit first high)
      (hhigh : isHighSurrogate high = true) (hsecond : IsUnit second low)
      (hlow : isLowSurrogate low = true) (h : Spells body text) :
      Spells ('\\' :: 'u' :: (first ++ '\\' :: 'u' :: (second ++ body)))
        (joined high low :: text)

/-- A string that spells characters has the form of one. -/
theorem Spells.isBody {body text : List Char} (h : Spells body text) : IsBody body := by
  induction h with
  | nil => exact .nil
  | bare hc _ ih => exact .bare hc ih
  | short hmark _ ih => exact .short hmark ih
  | unit hdigits _ _ _ ih => exact .unit hdigits ih
  | pair hfirst _ hsecond _ _ ih => exact .unit hfirst (.unit hsecond ih)

/-- Characters that stand for themselves spell themselves. -/
theorem spells_of_bare {text : List Char} (h : text.Forall IsBare) : Spells text text := by
  induction text with
  | nil => exact .nil
  | cons c text ih =>
    obtain ⟨hc, hmore⟩ := (List.forall_cons IsBare c text).mp h
    exact .bare hc (ih hmore)

/-! ## Numbers -/

/-- A run of digits. -/
def IsDigits (text : List Char) : Prop :=
  text ≠ [] ∧ ∀ c ∈ text, isDigit c = true

/-- The part of a number in front of the point: no zero stands in front of other digits. -/
def IsWhole (text : List Char) : Prop :=
  text = ['0'] ∨ IsDigits text ∧ text.head? ≠ some '0'

/-- The places of a number, if it has any. -/
def IsPlaces (text : List Char) : Prop :=
  text = [] ∨ ∃ places, IsDigits places ∧ text = '.' :: places

/-- The exponent of a number, if it has one. -/
def IsExponent (text : List Char) : Prop :=
  text = [] ∨ ∃ mark sign digits, startsExponent mark = true
    ∧ (sign = [] ∨ sign = ['+'] ∨ sign = ['-']) ∧ IsDigits digits ∧ text = mark :: (sign ++ digits)

/-- A text has the form of a number. -/
inductive IsNumber : List Char → Prop
  | mk {sign whole places exponent : List Char} (hsign : sign = [] ∨ sign = ['-'])
      (hwhole : IsWhole whole) (hplaces : IsPlaces places) (hexponent : IsExponent exponent) :
      IsNumber (sign ++ (whole ++ (places ++ exponent)))

/-! ## Values -/

/-- A value with the space around it. -/
structure Item where
  /-- The space in front of the value. -/
  lead : List Char
  /-- The value. -/
  value : List Char
  /-- The space behind the value. -/
  trail : List Char

namespace Item

/-- The text of an item. -/
def text (item : Item) : List Char :=
  item.lead ++ (item.value ++ item.trail)

/-- Nothing but space stands around the value. -/
structure Spaced (item : Item) : Prop where
  /-- Space stands in front. -/
  lead : IsSpace item.lead
  /-- Space stands behind. -/
  trail : IsSpace item.trail

end Item

/-- A member of an object, with the space around its parts. -/
structure Member extends Item where
  /-- The space in front of the key. -/
  start : List Char
  /-- The key, between its quotes. -/
  key : List Char
  /-- The space between the key and the colon. -/
  gap : List Char

namespace Member

/-- The text of a member. -/
def text (member : Member) : List Char :=
  member.start ++ '\x22' :: (member.key ++ '\x22' :: (member.gap ++ ':' :: member.toItem.text))

/-- The key is a string, and nothing but space stands around the parts. -/
structure Spaced (member : Member) : Prop extends member.toItem.Spaced where
  /-- Space stands in front of the key. -/
  start : IsSpace member.start
  /-- The key has the form of a string. -/
  key : IsBody member.key
  /-- Space stands in front of the colon. -/
  gap : IsSpace member.gap

end Member

/-- Texts between two brackets, with commas between them, and the space behind the first bracket. -/
def enclosed (opener closer : Char) (space : List Char) (texts : List (List Char)) : List Char :=
  opener :: (space ++ ([','].intercalate texts ++ [closer]))

/-- The text of a list. -/
def listText (space : List Char) (items : List Item) : List Char :=
  enclosed '[' ']' space (items.map Item.text)

/-- The text of an object. -/
def objectText (space : List Char) (members : List Member) : List Char :=
  enclosed '{' '\x7d' space (members.map Member.text)

/-- A text has the form of a value. -/
inductive IsValue : List Char → Prop
  | nullWord : IsValue ['n', 'u', 'l', 'l']
  | trueWord : IsValue ['t', 'r', 'u', 'e']
  | falseWord : IsValue ['f', 'a', 'l', 's', 'e']
  | number {text : List Char} (h : IsNumber text) : IsValue text
  | string {body : List Char} (h : IsBody body) : IsValue ('\x22' :: (body ++ ['\x22']))
  | list {space : List Char} {items : List Item} (hspace : IsSpace space)
      (hitems : ∀ item ∈ items, item.Spaced) (h : ∀ item ∈ items, IsValue item.value) :
      IsValue (listText space items)
  | object {space : List Char} {members : List Member} (hspace : IsSpace space)
      (hmembers : ∀ member ∈ members, member.Spaced)
      (h : ∀ member ∈ members, IsValue member.value) : IsValue (objectText space members)

/-- An item with the form of one. -/
def Item.Formed (item : Item) : Prop :=
  item.Spaced ∧ IsValue item.value

/-- A member with the form of one. -/
def Member.Formed (member : Member) : Prop :=
  member.Spaced ∧ IsValue member.value

/-! ## Texts between brackets -/

/-- What follows the first text between brackets: the other texts, each behind a comma, and the
closing bracket. -/
def following (closer : Char) : List (List Char) → List Char
  | [] => [closer]
  | text :: texts => ',' :: (text ++ following closer texts)

theorem intercalate_append_closer (closer : Char) (text : List Char) (texts : List (List Char)) :
    [','].intercalate (text :: texts) ++ [closer] = text ++ following closer texts := by
  induction texts generalizing text with
  | nil => simp [following]
  | cons next texts ih =>
    rw [List.intercalate_cons_cons, List.append_assoc, ih next]
    simp [following]

/-- Texts between brackets, seen from the first one. -/
theorem enclosed_cons (opener closer : Char) (space text : List Char) (texts : List (List Char)) :
    enclosed opener closer space (text :: texts)
      = opener :: (space ++ (text ++ following closer texts)) := by
  rw [enclosed, intercalate_append_closer]

theorem enclosed_nil (opener closer : Char) (space : List Char) :
    enclosed opener closer space [] = opener :: (space ++ [closer]) := by
  simp [enclosed]

/-! ## First characters -/

/-- A number starts with its sign or a digit. -/
theorem IsNumber.exists_cons {text : List Char} (h : IsNumber text) :
    ∃ c more, text = c :: more ∧ (c = '-' ∨ isDigit c = true) := by
  cases h with
  | @mk sign whole places exponent hsign hwhole _ _ =>
    rcases hsign with rfl | rfl
    · rcases hwhole with rfl | ⟨⟨hne, hdigits⟩, -⟩
      · exact ⟨'0', _, rfl, Or.inr (by decide)⟩
      · obtain ⟨c, more, rfl⟩ := List.exists_cons_of_ne_nil hne
        exact ⟨c, _, rfl, Or.inr (hdigits c List.mem_cons_self)⟩
    · exact ⟨'-', _, rfl, Or.inl rfl⟩

theorem isSpace_of_isDigit {c : Char} (h : isDigit c = true) : isSpace c = false := by
  cases hc : isSpace c with
  | false => rfl
  | true =>
    simp only [isSpace, Bool.or_eq_true, decide_eq_true_eq] at hc
    rcases hc with ((rfl | rfl) | rfl) | rfl <;> exact absurd h (by decide)

/-- A value starts with a character that is no space and closes no bracket. -/
theorem IsValue.exists_cons {text : List Char} (h : IsValue text) :
    ∃ c more, text = c :: more ∧ isSpace c = false ∧ c ≠ ']' := by
  cases h with
  | number h =>
    obtain ⟨c, more, rfl, hc⟩ := h.exists_cons
    rcases hc with rfl | hc
    · exact ⟨'-', more, rfl, by decide⟩
    · exact ⟨c, more, rfl, isSpace_of_isDigit hc, by rintro rfl; exact absurd hc (by decide)⟩
  | nullWord => exact ⟨'n', _, rfl, by decide⟩
  | trueWord => exact ⟨'t', _, rfl, by decide⟩
  | falseWord => exact ⟨'f', _, rfl, by decide⟩
  | string => exact ⟨'\x22', _, rfl, by decide⟩
  | list => exact ⟨'[', _, rfl, by decide⟩
  | object => exact ⟨'{', _, rfl, by decide⟩

namespace IsValue

variable {more : List Char}

/-- A value that starts with a letter, a quote or a bracket is no number. -/
theorem not_isNumber {c : Char} (hsign : c ≠ '-') (hdigit : isDigit c = false) :
    ¬ IsNumber (c :: more) := by
  intro h
  obtain ⟨d, _, htext, hd⟩ := h.exists_cons
  cases htext
  rcases hd with rfl | hd
  · exact hsign rfl
  · rw [hdigit] at hd
    cases hd

theorem eq_null (h : IsValue ('n' :: more)) : more = ['u', 'l', 'l'] := by
  generalize htext : 'n' :: more = text at h
  cases h with
  | nullWord => exact (List.cons.inj htext).2
  | number h => exact absurd (htext ▸ h) (not_isNumber (by decide) (by decide))
  | _ => cases htext

theorem eq_true (h : IsValue ('t' :: more)) : more = ['r', 'u', 'e'] := by
  generalize htext : 't' :: more = text at h
  cases h with
  | trueWord => exact (List.cons.inj htext).2
  | number h => exact absurd (htext ▸ h) (not_isNumber (by decide) (by decide))
  | _ => cases htext

theorem eq_false (h : IsValue ('f' :: more)) : more = ['a', 'l', 's', 'e'] := by
  generalize htext : 'f' :: more = text at h
  cases h with
  | falseWord => exact (List.cons.inj htext).2
  | number h => exact absurd (htext ▸ h) (not_isNumber (by decide) (by decide))
  | _ => cases htext

/-- A value that starts with a quote is a string. -/
theorem exists_body (h : IsValue ('\x22' :: more)) :
    ∃ body, IsBody body ∧ more = body ++ ['\x22'] := by
  generalize htext : '\x22' :: more = text at h
  cases h with
  | string hbody => exact ⟨_, hbody, (List.cons.inj htext).2⟩
  | number h => exact absurd (htext ▸ h) (not_isNumber (by decide) (by decide))
  | _ => cases htext

/-- A value that starts with a square bracket is a list. -/
theorem exists_items (h : IsValue ('[' :: more)) :
    ∃ space items, IsSpace space ∧ (∀ item ∈ items, item.Formed)
      ∧ '[' :: more = listText space items := by
  generalize htext : '[' :: more = text at h
  cases h with
  | list hspace hitems h =>
    exact ⟨_, _, hspace, fun item hitem => ⟨hitems item hitem, h item hitem⟩, rfl⟩
  | number h => exact absurd (htext ▸ h) (not_isNumber (by decide) (by decide))
  | _ => cases htext

/-- A value that starts with a curly bracket is an object. -/
theorem exists_members (h : IsValue ('{' :: more)) :
    ∃ space members, IsSpace space ∧ (∀ member ∈ members, member.Formed)
      ∧ '{' :: more = objectText space members := by
  generalize htext : '{' :: more = text at h
  cases h with
  | object hspace hmembers h =>
    exact ⟨_, _, hspace, fun member hmember => ⟨hmembers member hmember, h member hmember⟩, rfl⟩
  | number h => exact absurd (htext ▸ h) (not_isNumber (by decide) (by decide))
  | _ => cases htext

end IsValue

/-! ## Where a value ends -/

/-- A text does not start like the rest of a number. -/
def Delimits (text : List Char) : Prop :=
  ∀ c ∈ text.head?, isDigit c = false ∧ c ≠ '.' ∧ startsExponent c = false

theorem delimits_nil : Delimits [] := by
  intro c hc
  cases hc

theorem delimits_cons {c : Char} (h : isDigit c = false ∧ c ≠ '.' ∧ startsExponent c = false)
    (rest : List Char) : Delimits (c :: rest) := by
  intro d hd
  obtain rfl : c = d := by simpa using hd
  exact h

/-- Space in front of a text starts like no number. -/
theorem delimits_append {space : List Char} (hspace : IsSpace space) {rest : List Char}
    (h : Delimits rest) : Delimits (space ++ rest) := by
  cases space with
  | nil => exact h
  | cons c space =>
    apply delimits_cons
    have hc := hspace c List.mem_cons_self
    simp only [isSpace, Bool.or_eq_true, decide_eq_true_eq] at hc
    rcases hc with ((rfl | rfl) | rfl) | rfl <;> decide

/-- So do a comma and a closing bracket. -/
theorem delimits_following (frame : Frame) (texts : List (List Char)) (rest : List Char) :
    Delimits (following frame.closer texts ++ rest) := by
  cases texts with
  | nil => cases frame <;> exact delimits_cons (by decide) rest
  | cons text texts => exact delimits_cons (by decide) _

end Directive.Json
