import Directive.Text.Utf8

/-!
# Spans of a text

A stretch of a text is named by the byte offsets of its two ends. Only offsets between two
characters name a stretch: `Span.slice?` gives nothing for a span that leaves the text or cuts a
character in two.
-/

namespace Directive.Text

/-- The text after its first `n` bytes, if a character starts or the text ends there. -/
def dropBytes? : Nat → List Char → Option (List Char)
  | 0, text => some text
  | _ + 1, [] => none
  | n + 1, c :: text =>
    if c.utf8Size ≤ n + 1 then dropBytes? (n + 1 - c.utf8Size) text else none

/-- The first `n` bytes of the text, if a character or the text ends there. -/
def takeBytes? : Nat → List Char → Option (List Char)
  | 0, _ => some []
  | _ + 1, [] => none
  | n + 1, c :: text =>
    if c.utf8Size ≤ n + 1 then (takeBytes? (n + 1 - c.utf8Size) text).map (c :: ·) else none

@[simp] theorem dropBytes?_zero (text : List Char) : dropBytes? 0 text = some text := by
  cases text <;> rfl

@[simp] theorem takeBytes?_zero (text : List Char) : takeBytes? 0 text = some [] := by
  cases text <;> rfl

/-- The bytes of a leading text lead to what follows it. -/
@[simp] theorem dropBytes?_append (lead rest : List Char) :
    dropBytes? (byteLength lead) (lead ++ rest) = some rest := by
  induction lead with
  | nil => simp
  | cons c lead ih =>
    obtain ⟨n, hn⟩ : ∃ n, c.utf8Size = n + 1 :=
      Nat.exists_eq_succ_of_ne_zero (Nat.ne_of_gt c.utf8Size_pos)
    have step : n + 1 + byteLength lead = (n + byteLength lead) + 1 := by omega
    have back : n + byteLength lead + 1 - (n + 1) = byteLength lead := by omega
    simp [hn, step, dropBytes?, back, ih]

/-- The bytes of a leading text hold that text. -/
@[simp] theorem takeBytes?_append (lead rest : List Char) :
    takeBytes? (byteLength lead) (lead ++ rest) = some lead := by
  induction lead with
  | nil => simp
  | cons c lead ih =>
    obtain ⟨n, hn⟩ : ∃ n, c.utf8Size = n + 1 :=
      Nat.exists_eq_succ_of_ne_zero (Nat.ne_of_gt c.utf8Size_pos)
    have step : n + 1 + byteLength lead = (n + byteLength lead) + 1 := by omega
    have back : n + byteLength lead + 1 - (n + 1) = byteLength lead := by omega
    simp [hn, step, takeBytes?, back, ih]

/-- A stretch of a text, from the byte offset `start` up to the byte offset `stop`. -/
structure Span where
  /-- The offset of the first byte. -/
  start : Nat
  /-- The offset just after the last byte. -/
  stop : Nat
deriving DecidableEq

namespace Span

/-- The characters of a span: none if its ends are out of order, leave the text or fall inside a
character. -/
def slice? (span : Span) (text : List Char) : Option (List Char) :=
  if span.start ≤ span.stop then
    (dropBytes? span.start text).bind (takeBytes? (span.stop - span.start))
  else
    none

/-- The characters of a span, and no character where the span has no slice. -/
def cut (span : Span) (text : List Char) : List Char :=
  (span.slice? text).getD []

/-- The span of a middle part holds that part. -/
@[simp] theorem slice?_middle (lead middle rest : List Char) :
    slice? ⟨byteLength lead, byteLength lead + byteLength middle⟩ (lead ++ (middle ++ rest))
      = some middle := by
  simp [slice?]

end Span

end Directive.Text
