import Directive.Batch
import Directive.Proofs.Text.Lines

/-!
# Files and the standard input

A file is read whole and cut into lines; the standard input is read line by line. The same bytes
offer the same directives either way, or none in both. Main facts:

* `ofUtf8?_eq_none_iff`: bytes read as no text exactly if they are not UTF-8.
* `Source.directives_file_stdin`: what a file and the standard input with the same bytes offer.
-/

namespace Directive

/-- Bytes read as some text exactly if they are UTF-8. -/
theorem Text.exists_ofUtf8?_iff {bytes : List UInt8} :
    (∃ text, Text.ofUtf8? bytes = some text) ↔ bytes.toByteArray.IsValidUTF8 := by
  constructor
  · rintro ⟨text, h⟩
    exact ⟨text, by rw [← Text.toByteArray_utf8, Text.utf8_of_ofUtf8? h]⟩
  · rintro ⟨text, h⟩
    have hbytes : bytes = Text.utf8 text := by
      rw [← Text.toByteArray_utf8] at h
      simpa using congrArg (fun b => b.data.toList) h
    exact ⟨text, by rw [hbytes, Text.ofUtf8?_utf8]⟩

/-- Bytes read as no text exactly if they are not UTF-8. -/
theorem Text.ofUtf8?_eq_none_iff {bytes : List UInt8} :
    Text.ofUtf8? bytes = none ↔ ¬ bytes.toByteArray.IsValidUTF8 := by
  rw [← Text.exists_ofUtf8?_iff, ← Option.isSome_iff_exists, Option.not_isSome_iff_eq_none]

namespace Source

/-- The directives among the lines of some bytes: those that are not blank, as they stand. -/
def kept (found : List (List Char)) : List String :=
  (found.filter fun line => decide (Text.trim line ≠ [])).map String.ofList

theorem directivesOfLines_eq_kept (found : List (List Char)) :
    directivesOfLines found = kept found := by
  unfold directivesOfLines kept Text.nonBlank
  congr 1
  refine List.filter_congr fun line _ => ?_
  cases Text.trim line <;> rfl

section

variable {inputs other : Inputs} {path : String} {content : List UInt8}

/-- What is in a file that is read whole. -/
theorem directives_file (hfile : inputs.file path = .ok content) :
    (file path).directives inputs
      = match Text.ofUtf8? content with
        | some text => .ok (kept (Text.lines text))
        | none => .error (.unreadable path .notUtf8) := by
  simp only [directives, hfile, Contents.decode, ← directivesOfLines_eq_kept]
  cases Text.ofUtf8? content <;> rfl

/-- What is on a standard input that is read line by line. -/
theorem directives_stdin (hstdin : other.stdin = .ok content) :
    stdin.directives other
      = match Text.ofUtf8? content with
        | some text => .ok (kept (Text.lines text))
        | none => .error (.unreadable "stdin" .notUtf8) := by
  simp only [directives, hstdin, Contents.decode, Text.linesOfBytes?_eq,
    ← directivesOfLines_eq_kept]
  cases Text.ofUtf8? content <;> rfl

/-- A file and a standard input that hold the same bytes offer the same directives. If the bytes are
UTF-8, these are the lines of their text that are not blank, in order and as they stand; a line ends
at a line feed, together with a carriage return directly before it, or with the text. If they are
not, both fail for that reason. -/
theorem directives_file_stdin (hfile : inputs.file path = .ok content)
    (hstdin : other.stdin = .ok content) :
    (content.toByteArray.IsValidUTF8 →
        ∃ text found, Text.utf8 text = content ∧ Text.HasLines text found
          ∧ (file path).directives inputs = .ok (kept found)
          ∧ stdin.directives other = .ok (kept found))
      ∧ (¬ content.toByteArray.IsValidUTF8 →
        (file path).directives inputs = .error (.unreadable path .notUtf8)
          ∧ stdin.directives other = .error (.unreadable "stdin" .notUtf8)) := by
  rw [directives_file hfile, directives_stdin hstdin]
  constructor
  · intro hvalid
    obtain ⟨text, htext⟩ := Text.exists_ofUtf8?_iff.mpr hvalid
    refine ⟨text, Text.lines text, Text.utf8_of_ofUtf8? htext, Text.lines_eq_iff.mp rfl, ?_⟩
    rw [htext]
    exact ⟨rfl, rfl⟩
  · intro hinvalid
    rw [Text.ofUtf8?_eq_none_iff.mpr hinvalid]
    exact ⟨rfl, rfl⟩

end

/-- A file and a standard input with two lines that are kept: one keeps its blanks, the other the
carriage return that no line feed follows. -/
def returned : Inputs :=
  ⟨fun _ => .error .notFound, fun _ => .ok (Text.utf8 " a\r\n \n\nb\r".toList),
    .ok (Text.utf8 " a\r\n \n\nb\r".toList)⟩

/-- A file and a standard input where a line feed cuts the two bytes of a character apart. -/
def severed : Inputs :=
  ⟨fun _ => .error .notFound, fun _ => .ok [0x61, 0x0A, 0xC3, 0x0A, 0xA9],
    .ok [0x61, 0x0A, 0xC3, 0x0A, 0xA9]⟩

theorem directives_file_stdin_returned :
    (file "lines").directives returned = .ok [" a", "b\r"]
      ∧ stdin.directives returned = .ok [" a", "b\r"]
      ∧ (file "lines").directives severed = .error (.unreadable "lines" .notUtf8)
      ∧ stdin.directives severed = .error (.unreadable "stdin" .notUtf8) := by
  have hvalid : (Text.utf8 " a\r\n \n\nb\r".toList).toByteArray.IsValidUTF8 :=
    ⟨_, Text.toByteArray_utf8 _⟩
  have hinvalid : ¬ ([0x61, 0x0A, 0xC3, 0x0A, 0xA9] : List UInt8).toByteArray.IsValidUTF8 :=
    Text.ofUtf8?_eq_none_iff.mp (by decide)
  have hreturned : returned.file "lines" = returned.stdin := rfl
  have hsevered : severed.file "lines" = severed.stdin := rfl
  have hreturned' : returned.stdin = .ok (Text.utf8 " a\r\n \n\nb\r".toList) := rfl
  have hsevered' : severed.stdin = .ok [0x61, 0x0A, 0xC3, 0x0A, 0xA9] := rfl
  obtain ⟨hread, -⟩ := directives_file_stdin hreturned hreturned'
  obtain ⟨-, hfail⟩ := directives_file_stdin hsevered hsevered'
  obtain ⟨text, found, htext, hfound, hfile, hstdin⟩ := hread hvalid
  -- the text and its lines are the ones that the bytes spell
  obtain rfl : " a\r\n \n\nb\r".toList = text := by
    have h := congrArg Text.ofUtf8? htext
    rw [Text.ofUtf8?_utf8, Text.ofUtf8?_utf8] at h
    exact (Option.some.inj h).symm
  obtain rfl := hfound.lines_eq
  exact ⟨hfile, hstdin, hfail hinvalid⟩

end Source

end Directive
