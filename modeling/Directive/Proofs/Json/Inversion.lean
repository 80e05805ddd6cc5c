import Directive.Proofs.Json.Reading

/-!
# What a reading is made of

A reading by readers that are put together is made of their readings, and where a reader finds a
fault there is no reading. Main facts:

* `Reads.bind_iff`, `Reads.dispatch_iff`: the readings of readers that are put together.
* `Reads.not_mismatch`: a value of another kind than expected is never read.
* `run_eq_ok_iff`: what is read of a whole text.
-/

namespace Directive.Json

open Reader (isSpace afterSpace)

variable {α β : Type}

namespace Reads

variable {reader : Reader α} {text rest : List Char} {value : α}

/-- There is one reading at most. -/
theorem unique {other : α} {left : List Char} (h : Reads reader text value rest)
    (h' : Reads reader text other left) : value = other ∧ rest = left := by
  obtain ⟨hle, hread⟩ := h
  obtain ⟨hle', hread'⟩ := h'
  rw [hread] at hread'
  cases hread'
  exact ⟨rfl, rfl⟩

theorem bind_iff {next : α → Reader β} {result : β} :
    Reads (reader >>= next) text result rest
      ↔ ∃ value middle, Reads reader text value middle ∧ Reads (next value) middle result rest := by
  constructor
  · rintro ⟨hle, hread⟩
    change Reader.andThen reader next text = _ at hread
    unfold Reader.andThen at hread
    cases hfirst : reader text with
    | error fault => simp [hfirst] at hread
    | ok read =>
      obtain ⟨value, middle, hmiddle⟩ := read
      simp only [hfirst] at hread
      cases hsecond : next value middle with
      | error fault =>
        rw [hsecond] at hread
        cases hread
      | ok read =>
        obtain ⟨result, rest, hrest⟩ := read
        rw [hsecond] at hread
        cases hread
        exact ⟨value, middle, ⟨hmiddle, hfirst⟩, ⟨hrest, hsecond⟩⟩
  · rintro ⟨value, middle, hfirst, hsecond⟩
    exact hfirst.bind hsecond

/-- What is read where another reading is known. -/
theorem eq_iff (h : Reads reader text value rest) {other : α} {left : List Char} :
    Reads reader text other left ↔ other = value ∧ left = rest := by
  constructor
  · intro hother
    exact hother.unique h
  · rintro ⟨rfl, rfl⟩
    exact h

/-- What is read after a reader whose reading is known. -/
theorem bind_eq_iff (h : Reads reader text value rest) {next : α → Reader β} {result : β}
    {left : List Char} :
    Reads (reader >>= next) text result left ↔ Reads (next value) rest result left := by
  rw [bind_iff]
  constructor
  · rintro ⟨_, _, hother, hnext⟩
    obtain ⟨rfl, rfl⟩ := hother.unique h
    exact hnext
  · intro hnext
    exact ⟨value, rest, h, hnext⟩

theorem pure_iff {result : α} :
    Reads (Pure.pure result : Reader α) text value rest ↔ value = result ∧ rest = text :=
  (pure result text).eq_iff

theorem map_iff {f : α → β} {result : β} :
    Reads (f <$> reader) text result rest
      ↔ ∃ value, Reads reader text value rest ∧ f value = result := by
  constructor
  · intro h
    obtain ⟨value, middle, hvalue, h⟩ := bind_iff.mp h
    obtain ⟨rfl, rfl⟩ := pure_iff.mp h
    exact ⟨value, hvalue, rfl⟩
  · rintro ⟨value, hvalue, rfl⟩
    exact hvalue.map f

/-- What is read after looking at the next character. -/
theorem peek_bind_iff {next : Option Char → Reader β} {result : β} :
    Reads (Reader.peek >>= next) text result rest ↔ Reads (next text.head?) text result rest :=
  (peek text).bind_eq_iff

/-- What is read after the space. -/
theorem space_bind_iff {next : Unit → Reader β} {result : β} :
    Reads (Reader.space >>= next) text result rest
      ↔ Reads (next ()) (afterSpace text) result rest :=
  (space text).bind_eq_iff

/-- What is read after a character that is skipped. -/
theorem skip_bind_iff {next : Unit → Reader β} {result : β} {c : Char} :
    Reads (Reader.skip >>= next) (c :: text) result rest ↔ Reads (next ()) text result rest :=
  (skip c text).bind_eq_iff

/-! ## Faults -/

theorem not_failBefore {cause : Cause} : ¬ Reads (Reader.failBefore cause) text value rest := by
  rintro ⟨_, hread⟩
  cases hread

theorem not_failWithin {cause : Cause} : ¬ Reads (Reader.failWithin cause) text value rest := by
  rintro ⟨_, hread⟩
  cases hread

/-- What is read before a fault is not kept. -/
theorem not_bind {next : α → Reader β} {result : β}
    (h : ∀ value middle, ¬ Reads (next value) middle result rest) :
    ¬ Reads (reader >>= next) text result rest := by
  intro hread
  obtain ⟨value, middle, -, hnext⟩ := bind_iff.mp hread
  exact h value middle hnext

/-- A value of another kind than expected is never read. -/
theorem not_mismatch {expected : String} : ¬ Reads (Reader.mismatch expected) text value rest := by
  unfold Reader.mismatch
  rw [peek_bind_iff]
  split
  case h_1 => exact not_failWithin
  case h_2 c _ =>
    split_ifs
    · exact not_bind fun _ _ => not_failBefore
    · exact not_bind fun _ _ => not_failBefore
    · exact not_bind fun _ _ => not_failBefore
    · exact not_bind fun _ _ => not_failBefore
    · exact not_bind fun _ _ => not_bind fun _ _ => not_failBefore
    · exact not_failBefore
    · exact not_failBefore
    · exact not_failWithin

/-- A value whose first character says how it is read. -/
theorem dispatch_iff {expected : String} {readers : Char → Option (Reader α)} {more : List Char}
    {c : Char} (htext : afterSpace text = c :: more) :
    Reads (Reader.dispatch expected readers) text value rest
      ↔ ∃ reader, readers c = some reader ∧ Reads reader (c :: more) value rest := by
  constructor
  · intro h
    unfold Reader.dispatch at h
    rw [space_bind_iff, htext, peek_bind_iff] at h
    simp only [List.head?_cons] at h
    cases hreader : readers c with
    | none =>
      rw [hreader] at h
      exact absurd h not_mismatch
    | some reader =>
      rw [hreader] at h
      exact ⟨reader, rfl, h⟩
  · rintro ⟨reader, hreader, h⟩
    exact Reads.dispatch htext hreader h

/-- A value whose first character is one that a reader is known for. -/
theorem dispatch_eq_iff {expected : String} {readers : Char → Option (Reader α)}
    {more : List Char} {c : Char} (htext : afterSpace text = c :: more)
    (hreader : readers c = some reader) :
    Reads (Reader.dispatch expected readers) text value rest
      ↔ Reads reader (c :: more) value rest := by
  rw [dispatch_iff htext]
  constructor
  · rintro ⟨other, hother, h⟩
    obtain rfl : reader = other := Option.some.inj (hreader.symm.trans hother)
    exact h
  · intro h
    exact ⟨reader, hreader, h⟩

end Reads

/-! ## Whole texts -/

/-- A text is read as a whole exactly if a reader takes it up to the space at its end. -/
theorem run_eq_ok_iff {reader : Reader α} {text : String} {value : α} :
    reader.run text = .ok value
      ↔ ∃ rest, Reads reader text.toList value rest ∧ ∀ c ∈ rest, isSpace c = true := by
  constructor
  · intro h
    unfold Reader.run at h
    extract_lets whole at h
    cases hwhole : whole text.toList with
    | error fault => simp [hwhole] at h
    | ok read =>
      obtain ⟨result, left, hleft⟩ := read
      simp only [hwhole, Except.ok.injEq] at h
      subst h
      obtain ⟨value, rest, hread, hend⟩ := Reads.bind_iff.mp ⟨hleft, hwhole⟩
      rw [Reads.space_bind_iff, Reads.peek_bind_iff] at hend
      cases hspace : afterSpace rest with
      | nil =>
        rw [hspace] at hend
        obtain ⟨rfl, -⟩ := Reads.pure_iff.mp hend
        exact ⟨rest, hread, List.dropWhile_eq_nil_iff.mp hspace⟩
      | cons c more =>
        rw [hspace] at hend
        exact absurd hend Reads.not_failWithin
  · rintro ⟨rest, hread, hrest⟩
    exact run_of_reads hread hrest

end Directive.Json
