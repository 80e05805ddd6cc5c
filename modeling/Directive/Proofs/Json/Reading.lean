import Directive.Json.Record
import Directive.Json.Writer
import Mathlib.Data.List.TakeWhile

/-!
# What readers take

A reader takes a value from the start of a text and leaves the rest. The readings of the parts of a
value are put together to the reading of the value. Main facts:

* `Reads.bind`, `Reads.map`, `Reads.dispatch`: what readers that are put together take.
* `reads_string`: the characters of a string are read back from their escapes.
* `run_of_reads`: a text that a reader takes up to the space at its end is read as a whole.
-/

namespace Directive.Json

open Reader (isSpace afterSpace)

variable {α β : Type}

/-- A reader takes `value` from the start of `text` and leaves `rest`. -/
def Reads (reader : Reader α) (text : List Char) (value : α) (rest : List Char) : Prop :=
  ∃ h, reader text = .ok ⟨value, rest, h⟩

/-! ## Readers that are put together -/

namespace Reads

variable {reader : Reader α} {text middle rest : List Char} {value : α}

theorem pure (value : α) (text : List Char) :
    Reads (Pure.pure value : Reader α) text value text :=
  ⟨Nat.le_refl _, rfl⟩

/-- One reader after the other. -/
theorem bind {next : α → Reader β} {result : β} (h : Reads reader text value middle)
    (hnext : Reads (next value) middle result rest) :
    Reads (reader >>= next) text result rest := by
  obtain ⟨hle, hread⟩ := h
  obtain ⟨hle', hread'⟩ := hnext
  refine ⟨Nat.le_trans hle' hle, ?_⟩
  -- the two steps of `andThen` are the two readings, and the lengths of what they leave add up
  change Reader.andThen reader next text = _
  simp only [Reader.andThen, hread, hread']
  rfl

theorem map (f : α → β) (h : Reads reader text value rest) :
    Reads (f <$> reader) text (f value) rest :=
  h.bind (pure (f value) rest)

theorem space (text : List Char) : Reads Reader.space text () (afterSpace text) :=
  ⟨Reader.length_afterSpace_le text, rfl⟩

theorem peek (text : List Char) : Reads Reader.peek text text.head? text :=
  ⟨Nat.le_refl _, rfl⟩

theorem skip (c : Char) (text : List Char) : Reads Reader.skip (c :: text) () text :=
  ⟨Nat.le_succ _, rfl⟩

/-- A word is taken letter by letter. -/
theorem word (expected rest : List Char) :
    Reads (Reader.word expected) (expected ++ rest) () rest := by
  induction expected with
  | nil => exact ⟨Nat.le_refl _, by simp [Reader.word]⟩
  | cons c expected ih =>
    obtain ⟨hle, hread⟩ := ih
    refine ⟨Nat.le_succ_of_le hle, ?_⟩
    simp only [List.cons_append, Reader.word, ↓reduceIte, hread]
    rfl

end Reads

/-- Space in front of a text is skipped up to a character that is none. -/
theorem afterSpace_append {lead : List Char} (hlead : ∀ c ∈ lead, isSpace c = true) {c : Char}
    (hc : isSpace c = false) (rest : List Char) : afterSpace (lead ++ c :: rest) = c :: rest := by
  simp [afterSpace, List.dropWhile_append_of_pos hlead, hc]

/-- Space alone is skipped up to its end. -/
theorem afterSpace_of_isSpace {text : List Char} (h : ∀ c ∈ text, isSpace c = true) :
    afterSpace text = [] :=
  List.dropWhile_eq_nil_iff.mpr h

namespace Reads

/-- A value whose first character says how it is read. -/
theorem dispatch {expected : String} {readers : Char → Option (Reader α)} {reader : Reader α}
    {text more rest : List Char} {c : Char} {value : α} (htext : afterSpace text = c :: more)
    (hreader : readers c = some reader) (h : Reads reader (c :: more) value rest) :
    Reads (Reader.dispatch expected readers) text value rest := by
  refine (space text).bind ?_
  rw [htext]
  refine (peek (c :: more)).bind ?_
  simp only [List.head?_cons, hreader, Option.getD_some]
  exact h

/-- A colon behind space. -/
theorem colon {text rest : List Char} (htext : afterSpace text = ':' :: rest) :
    Reads Reader.colon text () rest := by
  refine (space text).bind ?_
  rw [htext]
  exact (peek _).bind (skip ':' rest)

end Reads

/-! ## Strings -/

/-- A digit is read as its value. -/
theorem hexValue?_hexDigit (n : Nat) : Reader.hexValue? (hexDigit n) = some (n % 16) := by
  have hall : ∀ k < 16, Reader.hexValue? (Nat.digitChar k) = some k := by decide
  exact hall (n % 16) (Nat.mod_lt n (by omega))

/-- The four digits of a character below U+0020 are read as the character. -/
theorem reads_hexChar {c : Char} (hc : c.toNat < 0x20) (rest : List Char) :
    Reads Reader.hexChar ('0' :: '0' :: hexDigit (c.toNat / 16) :: hexDigit c.toNat :: rest) c
      rest := by
  have hzero : Reader.hexValue? '0' = some 0 := rfl
  have hunit : Reads Reader.hexUnit
      ('0' :: '0' :: hexDigit (c.toNat / 16) :: hexDigit c.toNat :: rest) c.toNat rest := by
    -- the last two digits are the sixteens and the ones of a number below thirty-two
    have hvalue : ((0 * 16 + 0) * 16 + c.toNat / 16 % 16) * 16 + c.toNat % 16 = c.toNat := by omega
    refine ⟨by simp only [List.length_cons]; omega, ?_⟩
    simp only [Reader.hexUnit, hzero, hexValue?_hexDigit, hvalue]
  refine hunit.bind ?_
  -- the number is too small to be half of a character
  have hlow : Reader.isLowSurrogate c.toNat = false := by
    simp [Reader.isLowSurrogate]
    omega
  have hhigh : Reader.isHighSurrogate c.toNat = false := by
    simp [Reader.isHighSurrogate]
    omega
  simp only [hlow, hhigh, Bool.false_eq_true, ↓reduceIte, Char.ofNat_toNat]
  exact Reads.pure c rest

/-- A short escape is read as the character that it stands for. -/
theorem reads_shortEscape {mark c : Char} (h : Reader.shortEscape? mark = some c)
    (rest : List Char) : Reads Reader.escaped (mark :: rest) c rest := by
  refine (Reads.peek (mark :: rest)).bind ?_
  simp only [List.head?_cons, h]
  exact (Reads.skip mark rest).bind (Reads.pure c rest)

/-- A character is written as itself or as an escape that is read as the character. -/
theorem escape_cases (c : Char) :
    (∃ body, escape c = '\\' :: body ∧ ∀ rest, Reads Reader.escaped (body ++ rest) c rest)
      ∨ (escape c = [c] ∧ c ≠ '\x22' ∧ c ≠ '\\' ∧ ¬c.toNat < 0x20) := by
  unfold escape
  split
  case h_1 => exact Or.inl ⟨['\x22'], rfl, reads_shortEscape rfl⟩
  case h_2 => exact Or.inl ⟨['\\'], rfl, reads_shortEscape rfl⟩
  case h_3 => exact Or.inl ⟨['b'], rfl, reads_shortEscape rfl⟩
  case h_4 => exact Or.inl ⟨['f'], rfl, reads_shortEscape rfl⟩
  case h_5 => exact Or.inl ⟨['n'], rfl, reads_shortEscape rfl⟩
  case h_6 => exact Or.inl ⟨['r'], rfl, reads_shortEscape rfl⟩
  case h_7 => exact Or.inl ⟨['t'], rfl, reads_shortEscape rfl⟩
  case h_8 hquote hbackslash _ _ _ _ _ =>
    split
    case isTrue hc =>
      refine Or.inl ⟨_, rfl, fun rest => ?_⟩
      -- `u` is no short escape, so that the digits behind it are read
      exact (Reads.peek _).bind ((Reads.skip 'u' _).bind (reads_hexChar hc rest))
    case isFalse hc => exact Or.inr ⟨rfl, hquote, hbackslash, hc⟩

/-- A string ends at its closing quote. -/
theorem reads_stringFrom_close (seen rest : List Char) :
    Reads (Reader.stringFrom seen) ('\x22' :: rest) seen.reverse rest := by
  refine ⟨Nat.le_succ _, ?_⟩
  rw [Reader.stringFrom]
  rfl

/-- One more character of a string, however it is written. -/
theorem reads_stringFrom_escape (c : Char) {seen text value rest : List Char}
    (h : Reads (Reader.stringFrom (c :: seen)) text value rest) :
    Reads (Reader.stringFrom seen) (escape c ++ text) value rest := by
  obtain ⟨hle, hread⟩ := h
  rcases escape_cases c with ⟨body, hescape, hbody⟩ | ⟨hescape, hquote, hbackslash, hc⟩
  · -- behind the backslash the body of the escape is read as the character
    obtain ⟨hle', hread'⟩ := hbody text
    rw [hescape, List.cons_append]
    refine ⟨by simp only [List.length_cons]; omega, ?_⟩
    rw [Reader.stringFrom]
    simp only [hread', hread]
    rfl
  · -- the character ends no string, starts no escape and is no control character
    rw [hescape, List.singleton_append]
    refine ⟨Nat.le_succ_of_le hle, ?_⟩
    rw [Reader.stringFrom]
    simp only [hquote, hbackslash, hc, ↓reduceIte, hread]
    rfl

/-- The characters of a string are read back up to its closing quote. -/
theorem reads_stringFrom (seen text rest : List Char) :
    Reads (Reader.stringFrom seen) (text.flatMap escape ++ '\x22' :: rest) (seen.reverse ++ text)
      rest := by
  induction text generalizing seen with
  | nil => simpa using reads_stringFrom_close seen rest
  | cons c text ih =>
    -- what has been read is kept in reverse, so that the next character goes to its front
    have hmore := ih (c :: seen)
    rw [List.reverse_cons, List.append_assoc, List.singleton_append] at hmore
    rw [List.flatMap_cons, List.append_assoc]
    exact reads_stringFrom_escape c hmore

/-- A string is read back after its opening quote. -/
theorem reads_string (value : String) (rest : List Char) :
    Reads Reader.string (value.toList.flatMap escape ++ '\x22' :: rest) value rest := by
  have hchars := (reads_stringFrom [] value.toList rest).map String.ofList
  rwa [List.reverse_nil, List.nil_append, String.ofList_toList] at hchars

/-! ## Whole texts -/

/-- A text that a reader takes up to the space at its end is read as a whole. -/
theorem run_of_reads {reader : Reader α} {text : String} {value : α} {rest : List Char}
    (h : Reads reader text.toList value rest) (hrest : ∀ c ∈ rest, isSpace c = true) :
    reader.run text = .ok value := by
  have hspace := Reads.space rest
  rw [afterSpace_of_isSpace hrest] at hspace
  -- behind the space nothing is left, so that no trailing characters are reported
  unfold Reader.run
  extract_lets whole
  have hwhole : Reads whole text.toList value [] :=
    h.bind (hspace.bind ((Reads.peek []).bind (Reads.pure value [])))
  obtain ⟨hle, hread⟩ := hwhole
  rw [hread]

end Directive.Json
