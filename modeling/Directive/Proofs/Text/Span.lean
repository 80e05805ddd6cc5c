import Directive.Text.Span
import Mathlib.Data.List.Basic

/-!
# Spans that have a slice

A span of a text has a slice exactly when its ends are in order, lie in the text and stand at
character boundaries. A boundary is an offset that the text, stored in UTF-8, accepts as a position:
a character starts there, or the text ends. Main facts:

* `isBoundary_iff`: a boundary is the length of a leading text.
* `Span.slice?_eq_some_iff`: the slice of a span is the stretch of the text between its ends.
* `Span.isSome_slice?_iff`: a span has a slice exactly when it fits the text.
-/

namespace Directive.Text

variable {text lead rest part : List Char} {offset : Nat}

/-! ## Boundaries -/

/-- The byte offset of the character with the number `index`, or that of the end of the text. -/
def byteOffset (text : List Char) (index : Nat) : Nat :=
  byteLength (text.take index)

/-- The character after a leading text starts where that text ends. -/
@[simp] theorem byteOffset_append (lead rest : List Char) :
    byteOffset (lead ++ rest) lead.length = byteLength lead := by
  rw [byteOffset, List.take_left]

/-- An offset of a text at which a character starts or the text ends. -/
def IsBoundary (text : List Char) (offset : Nat) : Prop :=
  String.Pos.Raw.IsValid (String.ofList text) ⟨offset⟩

theorem utf8ByteSize_ofList (text : List Char) :
    (String.ofList text).utf8ByteSize = byteLength text := by
  rw [← String.size_toByteArray, String.toByteArray_ofList, ← toByteArray_utf8,
    List.size_toByteArray]
  rfl

/-- A boundary is the length of a leading text. -/
theorem isBoundary_iff :
    IsBoundary text offset ↔ ∃ lead rest, text = lead ++ rest ∧ offset = byteLength lead := by
  rw [IsBoundary, String.Pos.Raw.isValid_ofList]
  constructor
  · rintro ⟨index, hindex⟩
    exact ⟨text.take index, text.drop index, (List.take_append_drop index text).symm,
      hindex.trans (utf8ByteSize_ofList _)⟩
  · rintro ⟨lead, rest, rfl, rfl⟩
    exact ⟨lead.length, by rw [List.take_left, utf8ByteSize_ofList]⟩

/-- What follows the first bytes of a text stands behind a leading text of that length. -/
theorem dropBytes?_eq_some_iff :
    dropBytes? offset text = some rest ↔ ∃ lead, text = lead ++ rest ∧ offset = byteLength lead := by
  constructor
  · intro h
    induction text generalizing offset with
    | nil =>
      cases offset with
      | zero => exact ⟨[], by simpa using h, rfl⟩
      | succ n => simp [dropBytes?] at h
    | cons c text ih =>
      cases offset with
      | zero => exact ⟨[], by simpa using h, rfl⟩
      | succ n =>
        -- a character is dropped with all of its bytes, or the offset is inside it
        rw [dropBytes?] at h
        split at h
        · obtain ⟨lead, rfl, hoffset⟩ := ih h
          exact ⟨c :: lead, rfl, by rw [byteLength_cons]; omega⟩
        · cases h
  · rintro ⟨lead, rfl, rfl⟩
    exact dropBytes?_append lead rest

/-- The first bytes of a text are a leading text of that length. -/
theorem takeBytes?_eq_some_iff :
    takeBytes? offset text = some lead ↔ ∃ rest, text = lead ++ rest ∧ offset = byteLength lead := by
  constructor
  · intro h
    induction text generalizing offset lead with
    | nil =>
      cases offset with
      | zero => exact ⟨[], by simpa using h, by simpa using congrArg byteLength (Option.some.inj h)⟩
      | succ n => simp [takeBytes?] at h
    | cons c text ih =>
      cases offset with
      | zero =>
        obtain rfl : [] = lead := by simpa using h
        exact ⟨c :: text, rfl, rfl⟩
      | succ n =>
        rw [takeBytes?] at h
        split at h
        · obtain ⟨lead, htake, rfl⟩ := Option.map_eq_some_iff.mp h
          obtain ⟨rest, rfl, hoffset⟩ := ih htake
          exact ⟨rest, rfl, by rw [byteLength_cons]; omega⟩
        · cases h
  · rintro ⟨rest, rfl, rfl⟩
    exact takeBytes?_append lead rest

/-- A text of no bytes is empty. -/
theorem eq_nil_of_byteLength_eq_zero (h : byteLength text = 0) : text = [] := by
  cases text with
  | nil => rfl
  | cons c text =>
    have hpos := c.utf8Size_pos
    rw [byteLength_cons] at h
    omega

/-! ## Slices -/

namespace Span

variable {span : Span}

/-- A span of a text that can be cut out of it. -/
structure Fits (span : Span) (text : List Char) : Prop where
  /-- The ends are in order. -/
  ordered : span.start ≤ span.stop
  /-- The span lies in the text. -/
  within : span.stop ≤ byteLength text
  /-- No character is cut in two at the start. -/
  start_boundary : IsBoundary text span.start
  /-- No character is cut in two at the stop. -/
  stop_boundary : IsBoundary text span.stop

/-- The slice of a span is the stretch of the text between its two ends. -/
theorem slice?_eq_some_iff :
    span.slice? text = some part ↔ ∃ lead rest, text = lead ++ (part ++ rest)
      ∧ span = ⟨byteLength lead, byteLength lead + byteLength part⟩ := by
  constructor
  · intro h
    rw [slice?] at h
    split at h
    case isTrue hordered =>
      -- what is dropped leads up to the span, and what is taken from there is its slice
      obtain ⟨rest, hdrop, htake⟩ := Option.bind_eq_some_iff.mp h
      obtain ⟨lead, rfl, hstart⟩ := dropBytes?_eq_some_iff.mp hdrop
      obtain ⟨rest, rfl, hlength⟩ := takeBytes?_eq_some_iff.mp htake
      obtain ⟨start, stop⟩ := span
      refine ⟨lead, rest, rfl, ?_⟩
      simp only [mk.injEq] at hstart hlength hordered ⊢
      omega
    case isFalse => cases h
  · rintro ⟨lead, rest, rfl, rfl⟩
    exact slice?_middle lead part rest

/-- A span has a slice exactly when it fits the text. -/
theorem isSome_slice?_iff : (span.slice? text).isSome ↔ span.Fits text := by
  constructor
  · intro h
    obtain ⟨part, hpart⟩ := Option.isSome_iff_exists.mp h
    obtain ⟨lead, rest, rfl, rfl⟩ := slice?_eq_some_iff.mp hpart
    exact {
      ordered := Nat.le_add_right _ _
      within := by simp only [byteLength_append]; omega
      start_boundary := isBoundary_iff.mpr ⟨lead, part ++ rest, rfl, rfl⟩
      stop_boundary := isBoundary_iff.mpr ⟨lead ++ part, rest, by simp, by simp⟩ }
  · intro h
    obtain ⟨lead, rest, hlead, hstart⟩ := isBoundary_iff.mp h.start_boundary
    obtain ⟨whole, after, hwhole, hstop⟩ := isBoundary_iff.mp h.stop_boundary
    -- of two texts that lead up to boundaries, the one with more bytes goes on from the other
    have hpart : ∃ part, whole = lead ++ part := by
      rcases List.append_eq_append_iff.mp (hlead.symm.trans hwhole) with
        ⟨part, hpart, -⟩ | ⟨part, hpart, -⟩
      · exact ⟨part, hpart⟩
      · have hordered := h.ordered
        rw [hstart, hstop, hpart, byteLength_append] at hordered
        have hnil : part = [] := eq_nil_of_byteLength_eq_zero (by omega)
        exact ⟨[], by simpa [hnil] using hpart.symm⟩
    obtain ⟨part, rfl⟩ := hpart
    refine Option.isSome_iff_exists.mpr ⟨part, slice?_eq_some_iff.mpr ⟨lead, after, ?_, ?_⟩⟩
    · rw [hwhole, List.append_assoc]
    · obtain ⟨start, stop⟩ := span
      simp only [mk.injEq]
      exact ⟨hstart, hstop.trans (byteLength_append lead part)⟩

/-- A span with a slice fits the text. -/
theorem fits_of_slice? (h : span.slice? text = some part) : span.Fits text :=
  isSome_slice?_iff.mp (Option.isSome_iff_exists.mpr ⟨part, h⟩)

end Span

end Directive.Text
