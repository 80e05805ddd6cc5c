import Directive.Proofs.Json.Grammar
import Directive.Proofs.Json.Inversion

/-!
# Strings that are read and strings that are skipped

A string is skipped up to its closing quote for its form alone. When it is read, the body has to
spell characters as well: half of a character by itself spells none. Main facts:

* `Spells.reads`: a body that spells characters is read as them, whatever follows the quote.
* `IsBody.reads_string_iff`: nothing else is ever read.
* `IsBody.reads_skipString`: every body is skipped.
-/

namespace Directive.Json

open Reader (hexUnit hexChar isLowSurrogate isHighSurrogate shortEscape? skipEscaped skipString
  stringFrom surrogatePart)

variable {c : Char} {seen text value rest left : List Char} {n : Nat}

/-! ## Escapes -/

theorem IsUnit.reads {digits : List Char} (h : IsUnit digits n) (rest : List Char) :
    Reads hexUnit (digits ++ rest) n rest := by
  cases h with
  | mk ha hb hc hd =>
    refine ⟨by simp only [List.length_append]; omega, ?_⟩
    simp only [List.cons_append, List.nil_append, hexUnit, ha, hb, hc, hd]

/-- The escape of a unit that is no half of a character. -/
theorem IsUnit.hexChar_iff_of_whole {digits : List Char} (h : IsUnit digits n)
    (hlow : isLowSurrogate n = false) (hhigh : isHighSurrogate n = false) :
    Reads hexChar (digits ++ text) c rest ↔ c = Char.ofNat n ∧ rest = text := by
  unfold hexChar
  rw [(h.reads _).bind_eq_iff]
  simp only [hlow, hhigh, Bool.false_eq_true, ↓reduceIte]
  exact Reads.pure_iff

/-- The escape of the second half of a character stands for nothing. -/
theorem IsUnit.not_hexChar_of_low {digits : List Char} (h : IsUnit digits n)
    (hlow : isLowSurrogate n = true) : ¬ Reads hexChar (digits ++ text) c rest := by
  unfold hexChar
  rw [(h.reads _).bind_eq_iff]
  simp only [hlow, ↓reduceIte]
  exact Reads.not_failBefore

/-- One character that has to follow the first half of a character. -/
theorem reads_surrogatePart_bind_iff {expected : Char} {β : Type} {next : Unit → Reader β}
    {result : β} :
    Reads (surrogatePart expected >>= next) text result rest
      ↔ ∃ more, text = expected :: more ∧ Reads (next ()) more result rest := by
  rw [Reads.bind_iff]
  constructor
  · rintro ⟨_, middle, hpart, hnext⟩
    unfold surrogatePart at hpart
    rw [Reads.peek_bind_iff] at hpart
    cases text with
    | nil => exact absurd hpart Reads.not_failBefore
    | cons d more =>
      simp only [List.head?_cons] at hpart
      split at hpart
      case isTrue hd =>
        obtain ⟨-, rfl⟩ := hpart.unique (Reads.skip d more)
        exact ⟨middle, by rw [hd], hnext⟩
      case isFalse => exact absurd hpart Reads.not_failWithin
  · rintro ⟨more, rfl, hnext⟩
    refine ⟨(), more, ?_, hnext⟩
    unfold surrogatePart
    rw [Reads.peek_bind_iff]
    simp only [List.head?_cons, ↓reduceIte]
    exact Reads.skip expected more

/-- The escape of the first half of a character: the escape of the second half has to follow. -/
theorem IsUnit.hexChar_iff_of_high {digits : List Char} (h : IsUnit digits n)
    (hhigh : isHighSurrogate n = true) :
    Reads hexChar (digits ++ text) c rest ↔
      ∃ more low, text = '\\' :: 'u' :: more ∧ Reads hexUnit more low rest
        ∧ isLowSurrogate low = true ∧ c = joined n low := by
  have hlow : isLowSurrogate n = false := by
    simp only [isHighSurrogate, Bool.and_eq_true, decide_eq_true_eq] at hhigh
    simp only [isLowSurrogate, Bool.and_eq_false_iff, decide_eq_false_iff_not]
    omega
  unfold hexChar
  rw [(h.reads _).bind_eq_iff]
  simp only [hlow, hhigh, Bool.false_eq_true, ↓reduceIte]
  simp only [reads_surrogatePart_bind_iff]
  simp only [Reads.bind_iff]
  constructor
  · rintro ⟨_, rfl, more, rfl, low, middle, hunit, hread⟩
    split at hread
    case isTrue hsecond =>
      obtain ⟨hc, rfl⟩ := Reads.pure_iff.mp hread
      exact ⟨more, low, rfl, hunit, hsecond, hc⟩
    case isFalse => exact absurd hread Reads.not_failBefore
  · rintro ⟨more, low, rfl, hunit, hsecond, hc⟩
    refine ⟨_, rfl, more, rfl, low, rest, hunit, ?_⟩
    rw [if_pos hsecond]
    exact Reads.pure_iff.mpr ⟨hc, rfl⟩

/-- An escape by number. -/
theorem reads_escaped_unit_iff :
    Reads Reader.escaped ('u' :: text) c rest ↔ Reads hexChar text c rest := by
  unfold Reader.escaped
  rw [Reads.peek_bind_iff]
  exact Reads.skip_bind_iff

theorem IsUnit.reads_escaped {digits : List Char} (h : IsUnit digits n)
    (hlow : isLowSurrogate n = false) (hhigh : isHighSurrogate n = false) (rest : List Char) :
    Reads Reader.escaped ('u' :: (digits ++ rest)) (Char.ofNat n) rest :=
  reads_escaped_unit_iff.mpr ((h.hexChar_iff_of_whole hlow hhigh).mpr ⟨rfl, rfl⟩)

/-- The escapes of the two halves of a character are read as one. -/
theorem IsUnit.reads_escaped_pair {first second : List Char} {high low : Nat}
    (hfirst : IsUnit first high) (hhigh : isHighSurrogate high = true) (hsecond : IsUnit second low)
    (hlow : isLowSurrogate low = true) (rest : List Char) :
    Reads Reader.escaped ('u' :: (first ++ '\\' :: 'u' :: (second ++ rest))) (joined high low)
      rest :=
  reads_escaped_unit_iff.mpr
    ((hfirst.hexChar_iff_of_high hhigh).mpr ⟨_, low, rfl, hsecond.reads rest, hlow, rfl⟩)

/-! ## Characters of a string -/

/-- A character that stands for itself. -/
theorem IsBare.reads_stringFrom_iff (hc : IsBare c) :
    Reads (stringFrom seen) (c :: text) value rest
      ↔ Reads (stringFrom (c :: seen)) text value rest := by
  obtain ⟨hquote, hbackslash, hcontrol⟩ := hc
  unfold Reads
  rw [stringFrom]
  simp only [hquote, hbackslash, hcontrol, ↓reduceIte]
  constructor
  · rintro ⟨hle, hread⟩
    cases hmore : stringFrom (c :: seen) text with
    | error fault =>
      rw [hmore] at hread
      cases hread
    | ok read =>
      rw [hmore] at hread
      cases hread
      exact ⟨read.length_le, rfl⟩
  · rintro ⟨hle, hread⟩
    rw [hread]
    exact ⟨Nat.le_succ_of_le hle, rfl⟩

/-- An escape, and what follows it. -/
theorem reads_stringFrom_backslash_iff :
    Reads (stringFrom seen) ('\\' :: text) value rest
      ↔ ∃ c middle, Reads Reader.escaped text c middle
        ∧ Reads (stringFrom (c :: seen)) middle value rest := by
  have hquote : '\\' ≠ '\x22' := by decide
  constructor
  · rintro ⟨hle, hread⟩
    rw [stringFrom] at hread
    simp only [hquote, ↓reduceIte] at hread
    cases hescape : Reader.escaped text with
    | error fault => simp [hescape] at hread
    | ok read =>
      obtain ⟨c, middle, hmiddle⟩ := read
      simp only [hescape] at hread
      cases hmore : stringFrom (c :: seen) middle with
      | error fault =>
        rw [hmore] at hread
        cases hread
      | ok read =>
        rw [hmore] at hread
        cases hread
        exact ⟨c, middle, ⟨hmiddle, hescape⟩, ⟨read.length_le, hmore⟩⟩
  · rintro ⟨c, middle, ⟨hmiddle, hescape⟩, ⟨hrest, hmore⟩⟩
    refine ⟨by simp only [List.length_cons]; omega, ?_⟩
    rw [stringFrom]
    simp only [hquote, ↓reduceIte, hescape, hmore]
    rfl

/-- A body that spells characters is read as them, whatever follows the quote. -/
theorem Spells.reads {body : List Char} (h : Spells body text) (seen rest : List Char) :
    Reads (stringFrom seen) (body ++ '\x22' :: rest) (seen.reverse ++ text) rest := by
  -- what has been read is kept in reverse, so that the next character goes to its front
  induction h generalizing seen with
  | nil => simpa using reads_stringFrom_close seen rest
  | @bare c body text hc _ ih =>
    rw [List.cons_append, hc.reads_stringFrom_iff]
    simpa using ih (c :: seen)
  | @short mark c body text hmark _ ih =>
    rw [List.cons_append, List.cons_append, reads_stringFrom_backslash_iff]
    exact ⟨c, _, reads_shortEscape hmark _, by simpa using ih (c :: seen)⟩
  | @unit digits body text n hdigits hlow hhigh _ ih =>
    simp only [List.cons_append, List.append_assoc, reads_stringFrom_backslash_iff]
    exact ⟨Char.ofNat n, _, hdigits.reads_escaped hlow hhigh _,
      by simpa using ih (Char.ofNat n :: seen)⟩
  | @pair first second body text high low hfirst hhigh hsecond hlow _ ih =>
    simp only [List.cons_append, List.append_assoc, reads_stringFrom_backslash_iff]
    exact ⟨joined high low, _, hfirst.reads_escaped_pair hhigh hsecond hlow _,
      by simpa using ih (joined high low :: seen)⟩

/-- A body spells one text at most. -/
theorem Spells.unique {body other : List Char} (h : Spells body text) (h' : Spells body other) :
    text = other := by
  simpa using ((h.reads [] []).unique (h'.reads [] [])).1

/-! ## Bodies that spell nothing -/

/-- A body spells characters, or it is never read. -/
def Decided (body : List Char) : Prop :=
  (∃ text, Spells body text)
    ∨ ∀ seen rest value left, ¬ Reads (stringFrom seen) (body ++ '\x22' :: rest) value left

namespace Decided

variable {body : List Char}

theorem bare (hc : IsBare c) (h : Decided body) : Decided (c :: body) := by
  rcases h with ⟨text, htext⟩ | hnot
  · exact Or.inl ⟨c :: text, .bare hc htext⟩
  · refine Or.inr fun seen rest value left hread => ?_
    exact hnot _ _ _ _ (hc.reads_stringFrom_iff.mp hread)

/-- An escape that is read as a character changes nothing. -/
theorem escape (mark : List Char) (hmark : ∀ rest, Reads Reader.escaped (mark ++ rest) c rest)
    (hspells : ∀ text, Spells body text → Spells ('\\' :: (mark ++ body)) (c :: text))
    (h : Decided body) : Decided ('\\' :: (mark ++ body)) := by
  rcases h with ⟨text, htext⟩ | hnot
  · exact Or.inl ⟨c :: text, hspells text htext⟩
  · refine Or.inr fun seen rest value left hread => ?_
    rw [List.cons_append, List.append_assoc, reads_stringFrom_backslash_iff] at hread
    obtain ⟨d, middle, hescape, hmore⟩ := hread
    obtain ⟨rfl, rfl⟩ := hescape.unique (hmark _)
    exact hnot _ _ _ _ hmore

/-- With an escape that is never read nothing is read. -/
theorem not_escape (mark : List Char)
    (h : ∀ rest d left, ¬ Reads Reader.escaped (mark ++ (body ++ '\x22' :: rest)) d left) :
    Decided ('\\' :: (mark ++ body)) := by
  refine Or.inr fun seen rest value left hread => ?_
  rw [List.cons_append, List.append_assoc, reads_stringFrom_backslash_iff] at hread
  obtain ⟨d, middle, hescape, -⟩ := hread
  exact h _ _ _ hescape

end Decided

/-- Behind the first half of a character the body goes on with the second half, if it is read. -/
theorem IsBody.exists_low {digits body : List Char} (hdigits : IsUnit digits n)
    (hhigh : isHighSurrogate n = true) (h : IsBody body)
    (hread : Reads hexChar (digits ++ (body ++ '\x22' :: text)) c rest) :
    ∃ second low more, body = '\\' :: 'u' :: (second ++ more) ∧ IsUnit second low
      ∧ isLowSurrogate low = true ∧ IsBody more := by
  obtain ⟨behind, low, hbehind, hunit, hlow, -⟩ := (hdigits.hexChar_iff_of_high hhigh).mp hread
  cases h with
  | nil => cases hbehind
  | bare hbare h => exact absurd (List.cons.inj hbehind).1 hbare.ne_backslash
  | short hmark h =>
    -- a short escape is marked by another letter
    obtain ⟨rfl, -⟩ := List.cons.inj (List.cons.inj hbehind).2
    cases hmark
  | @unit second more m hsecond h =>
    obtain rfl : second ++ (more ++ '\x22' :: text) = behind := by simpa using hbehind
    obtain ⟨rfl, rfl⟩ := hunit.unique (hsecond.reads _)
    exact ⟨second, low, more, rfl, hsecond, hlow, h⟩

/-- The body of a string spells characters, or it is never read. -/
theorem IsBody.decided {body : List Char} (h : IsBody body) : Decided body := by
  -- on the length, since the two halves of a character are read at once
  induction hlength : body.length using Nat.strongRecOn generalizing body with
  | ind m ih =>
    subst hlength
    cases h with
    | nil => exact Or.inl ⟨[], .nil⟩
    | bare hc h => exact (ih _ (by simp) h rfl).bare hc
    | @short mark c body hmark h =>
      have hshorter : body.length < ('\\' :: mark :: body).length := by
        simp only [List.length_cons]
        omega
      exact (ih _ hshorter h rfl).escape [mark] (reads_shortEscape hmark) fun _ => .short hmark
    | @unit digits body n hdigits h =>
      cases hlow : isLowSurrogate n with
      | true =>
        exact Decided.not_escape ('u' :: digits) fun _ _ _ hescape =>
          hdigits.not_hexChar_of_low hlow (reads_escaped_unit_iff.mp hescape)
      | false =>
        cases hhigh : isHighSurrogate n with
        | false =>
          exact (ih _ (by simp; omega) h rfl).escape ('u' :: digits)
            (hdigits.reads_escaped hlow hhigh) fun _ => .unit hdigits hlow hhigh
        | true =>
          -- the first half of a character: either the second one follows, or nothing is read
          by_cases hpair : ∃ second low more, body = '\\' :: 'u' :: (second ++ more)
              ∧ IsUnit second low ∧ isLowSurrogate low = true ∧ IsBody more
          · obtain ⟨second, low, more, rfl, hsecond, hlow, hmore⟩ := hpair
            have hdecided := (ih _ (by simp; omega) hmore rfl).escape
              ('u' :: (digits ++ '\\' :: 'u' :: second)) (c := joined n low)
              (fun rest => by simpa using hdigits.reads_escaped_pair hhigh hsecond hlow rest)
              (fun _ htext => by simpa using Spells.pair hdigits hhigh hsecond hlow htext)
            simpa using hdecided
          · exact Decided.not_escape ('u' :: digits) fun _ _ _ hescape =>
              hpair (h.exists_low hdigits hhigh (reads_escaped_unit_iff.mp hescape))

/-- What is read of a string is what its body spells, up to the quote behind it. -/
theorem IsBody.reads_string_iff {body : List Char} (h : IsBody body) {value : String} :
    Reads Reader.string (body ++ '\x22' :: rest) value left
      ↔ ∃ text, Spells body text ∧ value = String.ofList text ∧ left = rest := by
  unfold Reader.string
  rw [Reads.map_iff]
  constructor
  · rintro ⟨chars, hread, rfl⟩
    rcases h.decided with ⟨text, htext⟩ | hnot
    · obtain ⟨rfl, rfl⟩ := hread.unique (htext.reads [] rest)
      exact ⟨_, htext, rfl, rfl⟩
    · exact absurd hread (hnot _ _ _ _)
  · rintro ⟨text, htext, rfl, rfl⟩
    exact ⟨text, htext.reads [] left, rfl⟩

/-! ## Skipping -/

theorem IsBare.reads_skipString (hc : IsBare c) (h : Reads skipString text () rest) :
    Reads skipString (c :: text) () rest := by
  obtain ⟨hquote, hbackslash, hcontrol⟩ := hc
  obtain ⟨hle, hread⟩ := h
  refine ⟨Nat.le_succ_of_le hle, ?_⟩
  rw [skipString]
  simp only [hquote, hbackslash, hcontrol, ↓reduceIte, hread]
  rfl

/-- An escape is skipped whatever it stands for. -/
theorem reads_skipString_backslash {middle : List Char} (hescape : Reads skipEscaped text () middle)
    (h : Reads skipString middle () rest) : Reads skipString ('\\' :: text) () rest := by
  have hquote : '\\' ≠ '\x22' := by decide
  obtain ⟨hmiddle, hescape⟩ := hescape
  obtain ⟨hrest, hread⟩ := h
  refine ⟨by simp only [List.length_cons]; omega, ?_⟩
  rw [skipString]
  simp only [hquote, ↓reduceIte, hescape, hread]
  rfl

theorem reads_skipEscaped_short {mark : Char} (h : shortEscape? mark = some c) (rest : List Char) :
    Reads skipEscaped (mark :: rest) () rest := by
  unfold skipEscaped
  rw [Reads.peek_bind_iff]
  simp only [List.head?_cons, h, Option.isSome_some, ↓reduceIte]
  exact Reads.skip mark rest

theorem IsUnit.reads_skipEscaped {digits : List Char} (h : IsUnit digits n) (rest : List Char) :
    Reads skipEscaped ('u' :: (digits ++ rest)) () rest := by
  unfold skipEscaped
  rw [Reads.peek_bind_iff]
  exact Reads.skip_bind_iff.mpr ((h.reads rest).bind (Reads.pure () rest))

/-- Every body is skipped, up to the quote behind it. -/
theorem IsBody.reads_skipString {body : List Char} (h : IsBody body) (rest : List Char) :
    Reads skipString (body ++ '\x22' :: rest) () rest := by
  induction h with
  | nil =>
    rw [List.nil_append]
    refine ⟨Nat.le_succ _, ?_⟩
    rw [skipString]
    rfl
  | bare hc _ ih => exact hc.reads_skipString ih
  | short hmark _ ih => exact reads_skipString_backslash (reads_skipEscaped_short hmark _) ih
  | unit hdigits _ ih =>
    simp only [List.cons_append, List.append_assoc]
    exact reads_skipString_backslash (hdigits.reads_skipEscaped _) ih

end Directive.Json
