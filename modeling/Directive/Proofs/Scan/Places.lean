import Directive.Proofs.Scan.Parts

/-!
# Where spans stand

The invariant of a scan. What it has read of a text is cut at separators, and at a separator nothing
is open; so every span starts with nothing open, and every span in front of a separator ends with
nothing open as well. Main facts:

* `Scan.Places.stepChar`, `Scan.Places.run`: one character keeps the invariant, and so does a text.
* `exists_of_segments_ofText`: the stretch of a text that a segment is, and what is open around it.
-/

namespace Directive

open Text (Span byteLength)

/-- A span names the stretch `segment` of a text after `lead`, with nothing open in front of it. -/
structure Stands (span : Span) (lead segment : List Char) : Prop where
  /-- The offsets are those of the two ends. -/
  span_eq : span = ⟨byteLength lead, byteLength lead + byteLength segment⟩
  /-- Nothing is open where the stretch starts. -/
  read_lead : Context.start.read lead = .start

namespace Scan

/-- What a scan knows when it has read a text. -/
structure Places (scan : Scan) (text : List Char) : Prop where
  /-- The context is that after the text. -/
  context : scan.context = Context.start.read text
  /-- The open span is the end of the text. -/
  last : ∃ lead segment, text = lead ++ segment ∧ Stands ⟨scan.start, scan.position⟩ lead segment
  /-- A closed span is a stretch of the text that leaves nothing open. -/
  closed : ∀ span ∈ scan.closed, ∃ lead segment rest, text = lead ++ (segment ++ rest)
    ∧ Stands span lead segment ∧ Context.start.read segment = .start

/-- Nothing has been read of the empty text. -/
theorem places_init : init.Places [] where
  context := rfl
  last := ⟨[], [], rfl, rfl, rfl⟩
  closed := by simp [init]

/-- The open span ends where the text does. -/
theorem Places.position {scan : Scan} {text : List Char} (h : scan.Places text) :
    scan.position = byteLength text := by
  obtain ⟨lead, segment, rfl, hspan, -⟩ := h.last
  rw [Text.byteLength_append]
  exact congrArg Span.stop hspan

/-- One more character keeps the invariant. -/
theorem Places.stepChar {scan : Scan} {text : List Char} (h : scan.Places text) (c : Char)
    (after : Option Char) : (scan.stepChar c after).Places (text ++ [c]) := by
  have hcontext : (scan.stepChar c after).context = Context.start.read (text ++ [c]) := by
    rw [context_stepChar, h.context, Context.read_append]
    rfl
  -- the spans closed so far stay where they are
  have hclosed : ∀ span ∈ scan.closed, ∃ lead segment rest, text ++ [c] = lead ++ (segment ++ rest)
      ∧ Stands span lead segment ∧ Context.start.read segment = .start := by
    intro span hspan
    obtain ⟨lead, segment, rest, rfl, hstands⟩ := h.closed span hspan
    exact ⟨lead, segment, rest ++ [c], by simp, hstands⟩
  obtain ⟨lead, segment, htext, hlast⟩ := h.last
  by_cases hsep : scan.separates (Symbol.ofChar? c) (after.bind Symbol.ofChar?) = true
  · -- the character is a pipe with nothing open: the open span ends, and one starts after the pipe
    obtain ⟨hpipe, htop⟩ : Symbol.ofChar? c = some .pipe ∧ scan.context = .start := by
      simp only [separates, Context.isTop, Bool.and_eq_true, decide_eq_true_eq] at hsep
      exact ⟨hsep.1.1.1, hsep.2⟩
    obtain rfl : c = '|' := Symbol.ofChar?_eq_some_iff.mp hpipe
    have hread : Context.start.read text = .start := h.context.symm.trans htop
    have hsegment : Context.start.read segment = .start := by
      rwa [htext, Context.read_append, hlast.read_lead] at hread
    have hone : byteLength ['|'] = 1 := rfl
    refine ⟨hcontext, ⟨text ++ ['|'], [], by simp, ?_, ?_⟩, ?_⟩
    · simp [Scan.stepChar, hsep, h.position, hone]
      rfl
    · rw [Context.read_append, hread]
      rfl
    · intro span hspan
      have hcases : span = ⟨scan.start, scan.position⟩ ∨ span ∈ scan.closed := by
        simpa [Scan.stepChar, hsep] using hspan
      rcases hcases with rfl | hspan
      · exact ⟨lead, segment, ['|'], by simp [htext], hlast, hsegment⟩
      · exact hclosed span hspan
  · refine ⟨hcontext, ⟨lead, segment ++ [c], by simp [htext], ?_, hlast.read_lead⟩, ?_⟩
    · have hstart := congrArg Span.start hlast.span_eq
      have hstop := congrArg Span.stop hlast.span_eq
      simp only at hstart hstop
      simp [Scan.stepChar, hsep, hstart, hstop, Nat.add_assoc]
    · simpa [Scan.stepChar, hsep] using hclosed

/-- A text keeps the invariant. -/
theorem Places.run {scan : Scan} {text : List Char} (h : scan.Places text) (more : List Char) :
    (scan.run (symbols more)).Places (text ++ more) := by
  induction more generalizing scan text with
  | nil => simpa [symbols, Scan.run] using h
  | cons c more ih =>
    rw [run_symbols_cons, List.append_cons]
    exact ih (h.stepChar c more.head?)

end Scan

/-- The stretch of a text that a segment is: nothing is open in front of it, and if another segment
follows then nothing is open at its end. -/
theorem exists_of_segments_ofText {text : List Char} {before after : List Span} {span : Span}
    (h : (Pieces.ofText text).segments = before ++ span :: after) :
    ∃ lead segment rest, text = lead ++ (segment ++ rest) ∧ Stands span lead segment
      ∧ (after ≠ [] → Context.start.read segment = .start) := by
  have hplaces : (Scan.init.run (symbols text)).Places text := by
    simpa using Scan.places_init.run text
  have hspans := Scan.pieces_eq_spans (Scan.init.run (symbols text))
  change (Pieces.ofText text).expression :: (Pieces.ofText text).segments = _ at hspans
  rw [h, Scan.spans, ← List.cons_append] at hspans
  rcases List.eq_nil_or_concat after with rfl | ⟨others, final, rfl⟩
  · -- the last segment is the span that is still open at the end
    obtain ⟨-, hspan⟩ := List.append_inj' hspans rfl
    obtain ⟨lead, segment, htext, hstands⟩ := hplaces.last
    rw [List.singleton_inj.mp hspan]
    exact ⟨lead, segment, [], by simpa using htext, hstands, fun hne => absurd rfl hne⟩
  · rw [List.concat_eq_append, ← List.cons_append, ← List.append_assoc] at hspans
    obtain ⟨hclosed, -⟩ := List.append_inj' hspans rfl
    have hspan : span ∈ (Scan.init.run (symbols text)).closed := by
      rw [← List.mem_reverse, ← hclosed]
      simp
    obtain ⟨lead, segment, rest, htext, hstands, hread⟩ := hplaces.closed span hspan
    exact ⟨lead, segment, rest, htext, hstands, fun _ => hread⟩

end Directive
