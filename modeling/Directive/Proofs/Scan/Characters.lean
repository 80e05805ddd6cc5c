import Directive.Proofs.Scan.Separators
import Directive.Proofs.Token.Arguments

/-!
# Scanning characters

The scan reads the bytes of a directive. Run over the characters instead, the same scan counts
characters where it counted bytes, and ends in the same state otherwise: the bytes of a character
beyond ASCII are no symbols, and every symbol is one byte. So each separator is found where its
character stands, and no span cuts a character in two. Main facts:

* `Scan.stepChar_onBytes`, `Scan.run_onBytes`: a character, and a text, read on bytes and on
  characters.
* `Scan.found_symbols`: the separators found in the bytes are those found in the characters.
* `scan_bytes_exact`: no piece of a directive, and no text in quotes, is cut inside a character.
-/

namespace Directive

open Text (Span byteLength byteOffset)

namespace Scan

/-! ## Separators as they are found -/

/-- The positions of the separators that a scan finds in what it reads. -/
def found (scan : Scan) : List (Option Symbol) → List Nat
  | [] => []
  | here :: rest =>
    let others := (scan.step here rest.head?.join).found rest
    if scan.separates here rest.head?.join then scan.position :: others else others

/-- A separator ends the open span, and nothing else does. -/
theorem closed_step (scan : Scan) (here after : Option Symbol) :
    (scan.step here after).closed
      = if scan.separates here after then ⟨scan.start, scan.position⟩ :: scan.closed
        else scan.closed := by
  unfold step
  split <;> rfl

@[simp] theorem position_step (scan : Scan) (here after : Option Symbol) :
    (scan.step here after).position = scan.position + 1 := by
  unfold step
  split <;> rfl

theorem start_step (scan : Scan) (here after : Option Symbol) :
    (scan.step here after).start
      = if scan.separates here after then scan.position + 1 else scan.start := by
  unfold step
  split <;> rfl

/-- The spans closed by a scan end at the separators that it finds. -/
theorem stops_run (scan : Scan) (read : List (Option Symbol)) :
    (scan.run read).closed.reverse.map Span.stop
      = scan.closed.reverse.map Span.stop ++ scan.found read := by
  induction read generalizing scan with
  | nil => simp [run, found]
  | cons here rest ih =>
    rw [run, ih, closed_step, found]
    split <;> simp

/-- A scan ends with the stretches between the separators that it finds. -/
theorem spans_run_found (scan : Scan) (read : List (Option Symbol)) :
    (scan.run read).spans
      = scan.closed.reverse
        ++ stretches scan.start (scan.found read) (scan.position + read.length) := by
  induction read generalizing scan with
  | nil => simp [run, found, spans, stretches]
  | cons here rest ih =>
    have hlength : scan.position + 1 + rest.length = scan.position + (here :: rest).length := by
      rw [List.length_cons]
      omega
    -- a separator closes the first stretch, and the others start behind it
    rw [run, ih, closed_step, start_step, position_step, hlength, found]
    split <;> simp [stretches]

/-! ## Bytes and characters -/

/-- A scan of the characters of a text, counted in the bytes of the text. -/
def onBytes (scan : Scan) (text : List Char) : Scan where
  context := scan.context
  before := scan.before
  position := byteOffset text scan.position
  start := byteOffset text scan.start
  closed := scan.closed.map fun span => ⟨byteOffset text span.start, byteOffset text span.stop⟩

/-- What is a separator does not depend on what is counted. -/
@[simp] theorem separates_onBytes (scan : Scan) (text : List Char) (here after : Option Symbol) :
    (scan.onBytes text).separates here after = scan.separates here after := rfl

/-- A character is read alike on bytes and on characters. -/
theorem stepChar_onBytes {scan : Scan} {lead rest : List Char} {c : Char}
    (h : scan.position = lead.length) :
    (scan.onBytes (lead ++ c :: rest)).stepChar c rest.head?
      = (scan.step (Symbol.ofChar? c) (rest.map Symbol.ofChar?).head?.join).onBytes
          (lead ++ c :: rest) := by
  have hafter : (rest.map Symbol.ofChar?).head?.join = rest.head?.bind Symbol.ofChar? := by
    cases rest <;> rfl
  have hcontext : (Symbol.ofChar? c).elim scan.context scan.context.step = scan.context.feed c :=
    rfl
  -- the character stands where the text before it ends, and the next one all its bytes further
  have hhere : byteOffset (lead ++ c :: rest) scan.position = byteLength lead := by
    rw [h, Text.byteOffset_append]
  have hnext : byteOffset (lead ++ c :: rest) (scan.position + 1)
      = byteLength lead + c.utf8Size := by
    have hoffset := Text.byteOffset_append (lead ++ [c]) rest
    simpa [h] using hoffset
  rw [hafter]
  by_cases hsep : scan.separates (Symbol.ofChar? c) (rest.head?.bind Symbol.ofChar?) = true
  · -- a separator is a pipe, and a pipe is one byte
    have hone : c.utf8Size = 1 := by
      simp only [separates, Bool.and_eq_true, decide_eq_true_eq] at hsep
      rw [Symbol.ofChar?_eq_some_iff.mp hsep.1.1.1]
      rfl
    simp only [stepChar, step, separates_onBytes, hsep, ↓reduceIte]
    simp only [onBytes, hhere, hnext, hone, hcontext, List.map_cons]
  · simp only [stepChar, step, separates_onBytes, hsep, Bool.false_eq_true, ↓reduceIte]
    simp only [onBytes, hhere, hnext, hcontext]

/-- A text is read alike on bytes and on characters. -/
theorem run_onBytes (scan : Scan) (lead rest : List Char) (h : scan.position = lead.length) :
    (scan.onBytes (lead ++ rest)).run (symbols rest)
      = (scan.run (rest.map Symbol.ofChar?)).onBytes (lead ++ rest) := by
  induction rest generalizing scan lead with
  | nil => rfl
  | cons c rest ih =>
    -- the scan of the characters stands behind those of `lead`, and then behind one more
    have hnext : (scan.step (Symbol.ofChar? c) (rest.map Symbol.ofChar?).head?.join).position
        = (lead ++ [c]).length := by
      rw [position_step, h, List.length_append, List.length_singleton]
    rw [run_symbols_cons, stepChar_onBytes h, List.map_cons, run, List.append_cons]
    exact ih _ (lead ++ [c]) hnext

/-- The separators found in the bytes of a text are where its characters have them. -/
theorem found_symbols (text : List Char) :
    init.found (symbols text)
      = (init.found (text.map Symbol.ofChar?)).map (byteOffset text) := by
  have hrun : init.run (symbols text) = (init.run (text.map Symbol.ofChar?)).onBytes text :=
    run_onBytes init [] text rfl
  have hbytes := stops_run init (symbols text)
  have hchars := stops_run init (text.map Symbol.ofChar?)
  have hnone : init.closed.reverse.map Span.stop = [] := rfl
  rw [hnone, List.nil_append] at hbytes hchars
  -- the separators are where closed spans end, and these ends are moved to the bytes
  rw [← hbytes, ← hchars, hrun]
  simp [onBytes, Function.comp_def]

end Scan

/-- Every span of a directive can be cut out of it. -/
theorem fits_of_mem_ofText {text : List Char} {span : Span}
    (h : span ∈ (Pieces.ofText text).expression :: (Pieces.ofText text).segments) :
    span.Fits text := by
  have hslice : span.slice? text ∈ ((Pieces.ofText text).expression
      :: (Pieces.ofText text).segments).map (·.slice? text) := List.mem_map_of_mem h
  rw [slice?_ofText] at hslice
  obtain ⟨part, -, hpart⟩ := List.mem_map.mp hslice
  exact Span.fits_of_slice? hpart.symm

/-- The spans of a directive are its stretches between the separators found in its bytes. -/
theorem ofText_eq_stretches (text : List Char) :
    (Pieces.ofText text).expression :: (Pieces.ofText text).segments
      = stretches 0 (Scan.init.found (symbols text)) (byteLength text) := by
  have hlength : (symbols text).length = byteLength text := List.length_map _
  have hspans := Scan.spans_run_found .init (symbols text)
  rw [← Scan.pieces_eq_spans] at hspans
  rw [Pieces.ofText, hspans, hlength]
  simp [Scan.init]

/-- The span between the quotes of a token can be cut out of it. -/
theorem Token.fits_of_quotedSpan? {token : Token} {span : Span}
    (h : quotedSpan? token = some span) : span.Fits token := by
  obtain ⟨quote, inner, rfl, rfl⟩ := exists_of_quotedSpan? h
  exact Span.fits_of_slice? (slice?_quoted quote inner)

/-- A directive is scanned exactly, and nothing in it is cut inside a character. The separators
found in its bytes stand where the same scan over its characters finds them, its pieces are the
stretches between them, and the ends of every piece are in order, in the text and at character
boundaries, so that the piece has a slice. So are the ends of what is between the quotes of a
token. -/
theorem scan_bytes_exact (raw : String) :
    Scan.init.found (symbols raw.toList)
        = (Scan.init.found (raw.toList.map Symbol.ofChar?)).map (byteOffset raw.toList)
      ∧ (Pieces.ofText raw.toList).expression :: (Pieces.ofText raw.toList).segments
        = stretches 0 (Scan.init.found (symbols raw.toList)) (byteLength raw.toList)
      ∧ (∀ span ∈ (Pieces.ofText raw.toList).expression :: (Pieces.ofText raw.toList).segments,
        span.Fits raw.toList ∧ (span.slice? raw.toList).isSome)
      ∧ ∀ (token : Token) (span : Span), token.quotedSpan? = some span →
        span = ⟨1, byteLength token - 1⟩ ∧ span.Fits token ∧ (span.slice? token).isSome := by
  refine ⟨Scan.found_symbols raw.toList, ofText_eq_stretches raw.toList, ?_, ?_⟩
  · intro span hspan
    have hfits := fits_of_mem_ofText hspan
    exact ⟨hfits, Span.isSome_slice?_iff.mpr hfits⟩
  · intro token span hspan
    have hfits := Token.fits_of_quotedSpan? hspan
    refine ⟨?_, hfits, Span.isSome_slice?_iff.mpr hfits⟩
    obtain ⟨quote, inner, rfl, rfl⟩ := Token.exists_of_quotedSpan? hspan
    have hone : byteLength [quote.char] = 1 := by cases quote <;> rfl
    have hlength : byteLength (quote.char :: (inner ++ [quote.char])) = 1 + byteLength inner + 1 := by
      rw [← List.singleton_append, Text.byteLength_append, Text.byteLength_append, hone]
      omega
    rw [hlength, Nat.add_sub_cancel]

/-- The pipe in front of a filter is the sixth character and the seventh byte, and the pipe between
the quotes of its argument is no separator. -/
theorem scan_bytes_exact_multibyte :
    Scan.init.found ("café | naïve 'ü|x'".toList.map Symbol.ofChar?) = [5]
      ∧ Scan.init.found (symbols "café | naïve 'ü|x'".toList) = [6]
      ∧ Span.Fits ⟨7, 21⟩ "café | naïve 'ü|x'".toList
      ∧ Token.quotedSpan? "'ü|x'".toList = some ⟨1, 5⟩
      ∧ Span.Fits ⟨1, 5⟩ "'ü|x'".toList := by
  obtain ⟨-, -, hpieces, hquoted⟩ := scan_bytes_exact "café | naïve 'ü|x'"
  have hsegment : (⟨7, 21⟩ : Span) ∈ (Pieces.ofText "café | naïve 'ü|x'".toList).expression
      :: (Pieces.ofText "café | naïve 'ü|x'".toList).segments := by
    decide +kernel
  have hspan : Token.quotedSpan? "'ü|x'".toList = some ⟨1, 5⟩ := by
    decide +kernel
  exact ⟨by decide +kernel, by decide +kernel, (hpieces _ hsegment).1, hspan,
    (hquoted _ _ hspan).2.1⟩

end Directive
