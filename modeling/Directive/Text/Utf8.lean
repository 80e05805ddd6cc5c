/-!
# Texts as bytes

A text is stored and counted in UTF-8. Main facts:

* `ofUtf8?_utf8`: the bytes of a text read back as that text.
* `utf8_of_ofUtf8?`: bytes that read as a text are the bytes of that text, so each text has one
  spelling in bytes.
-/

namespace Directive.Text

/-- The UTF-8 bytes of a text. -/
def utf8 (text : List Char) : List UInt8 :=
  text.flatMap String.utf8EncodeChar

/-- The number of bytes of a text in UTF-8. -/
def byteLength (text : List Char) : Nat :=
  (utf8 text).length

/-- The text that the bytes spell in UTF-8, if they spell one. -/
def ofUtf8? (bytes : List UInt8) : Option (List Char) :=
  (String.fromUTF8? bytes.toByteArray).map String.toList

@[simp] theorem utf8_nil : utf8 [] = [] := rfl

@[simp] theorem utf8_cons (c : Char) (text : List Char) :
    utf8 (c :: text) = String.utf8EncodeChar c ++ utf8 text := rfl

@[simp] theorem utf8_append (a b : List Char) : utf8 (a ++ b) = utf8 a ++ utf8 b :=
  List.flatMap_append

@[simp] theorem byteLength_nil : byteLength [] = 0 := rfl

@[simp] theorem byteLength_cons (c : Char) (text : List Char) :
    byteLength (c :: text) = c.utf8Size + byteLength text := by
  simp [byteLength]

@[simp] theorem byteLength_append (a b : List Char) :
    byteLength (a ++ b) = byteLength a + byteLength b := by
  simp [byteLength]

theorem toByteArray_utf8 (text : List Char) : (utf8 text).toByteArray = text.utf8Encode := rfl

/-- The bytes of a text read back as that text. -/
theorem ofUtf8?_utf8 (text : List Char) : ofUtf8? (utf8 text) = some text := by
  have valid : (utf8 text).toByteArray.IsValidUTF8 := ⟨text, toByteArray_utf8 text⟩
  have spelled : String.fromUTF8 (utf8 text).toByteArray valid = String.ofList text := rfl
  simp [ofUtf8?, String.fromUTF8?, valid, spelled]

/-- Bytes that read as a text are the bytes of that text. -/
theorem utf8_of_ofUtf8? {bytes : List UInt8} {text : List Char} (h : ofUtf8? bytes = some text) :
    utf8 text = bytes := by
  simp only [ofUtf8?, String.fromUTF8?, Option.map_eq_some_iff] at h
  obtain ⟨spelled, h, rfl⟩ := h
  split at h
  · cases h
    have same : (utf8 (String.fromUTF8 bytes.toByteArray (by assumption)).toList).toByteArray
        = bytes.toByteArray := by
      rw [toByteArray_utf8, String.utf8Encode_toList]
      rfl
    simpa using congrArg (fun b => b.data.toList) same
  · simp at h

end Directive.Text
