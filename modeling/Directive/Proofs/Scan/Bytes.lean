import Directive.Scan
import Mathlib.Data.List.Basic

/-!
# The bytes of a character as symbols

Symbols are ASCII characters, and every byte of a character beyond ASCII is at least `0x80`. So the
first byte of a character is read as the symbol the character is, and its other bytes as no symbol
at all. Main facts:

* `Text.head?_utf8_eq_some_iff`, `Text.getLast?_utf8_eq_some_iff`: the ends of a text, seen on its
  bytes.
* `map_ofByte?_utf8EncodeChar`: what the bytes of a character are read as.
* `symbols_cons`: what the bytes of a text are read as, one character at a time.
-/

namespace Directive

namespace Symbol

/-- Symbols are ASCII characters. -/
theorem toNat_char_lt (symbol : Symbol) : symbol.char.toNat < 0x80 := by
  rcases symbol with ⟨_ | _⟩ | ⟨_ | _ | _⟩ | ⟨_ | _ | _⟩ | _ <;> decide

/-- A character beyond ASCII is no symbol. -/
theorem ofChar?_eq_none_of_le {c : Char} (h : 0x80 ≤ c.toNat) : ofChar? c = none := by
  cases hsymbol : ofChar? c with
  | none => rfl
  | some symbol =>
    have hlt := symbol.toNat_char_lt
    rw [char_of_ofChar? hsymbol] at hlt
    omega

/-- A byte beyond ASCII is no symbol. -/
theorem ofByte?_eq_none_of_le {byte : UInt8} (h : 0x80 ≤ byte.toNat) : ofByte? byte = none :=
  ofChar?_eq_none_of_le h

end Symbol

namespace Text

/-- An ASCII character is one byte. -/
theorem utf8EncodeChar_of_lt {c : Char} (h : c.toNat < 0x80) :
    String.utf8EncodeChar c = [UInt8.ofNat c.toNat] := by
  have hle : c.val.toNat ≤ 0x7f := Nat.le_of_lt_succ h
  simp only [String.utf8EncodeChar, hle, ↓reduceIte]
  rfl

/-- The bytes of a character beyond ASCII are all beyond ASCII. -/
theorem le_toNat_of_mem_utf8EncodeChar {c : Char} (h : 0x80 ≤ c.toNat) {byte : UInt8}
    (hbyte : byte ∈ String.utf8EncodeChar c) : 0x80 ≤ byte.toNat := by
  have hle : ¬c.val.toNat ≤ 0x7f := by
    change ¬c.toNat ≤ 0x7f
    omega
  simp only [String.utf8EncodeChar, hle, ↓reduceIte] at hbyte
  -- two, three or four bytes, each with its highest bit set
  split at hbyte
  · rcases List.mem_pair.mp hbyte with rfl | rfl <;> simp <;> omega
  · split at hbyte
    · simp only [List.mem_cons, List.not_mem_nil, or_false] at hbyte
      rcases hbyte with rfl | rfl | rfl <;> simp <;> omega
    · simp only [List.mem_cons, List.not_mem_nil, or_false] at hbyte
      rcases hbyte with rfl | rfl | rfl | rfl <;> simp <;> omega

/-- The byte of an ASCII character is a byte of that character only. -/
theorem toUInt8_mem_utf8EncodeChar {c ascii : Char} (h : ascii.toNat < 0x80) :
    ascii.toUInt8 ∈ String.utf8EncodeChar c ↔ c = ascii := by
  have hself : String.utf8EncodeChar ascii = [ascii.toUInt8] := by
    rw [utf8EncodeChar_of_lt h]
    rfl
  constructor
  · intro hmem
    have hbyte : ascii.toUInt8.toNat = ascii.toNat := by
      change (UInt8.ofNat ascii.toNat).toNat = ascii.toNat
      rw [UInt8.toNat_ofNat', Nat.mod_eq_of_lt (by omega)]
    rcases Nat.lt_or_ge c.toNat 0x80 with hc | hc
    · -- both are ASCII, so that their bytes are their numbers
      rw [utf8EncodeChar_of_lt hc, List.mem_singleton] at hmem
      have hnumber := congrArg UInt8.toNat hmem
      rw [hbyte, UInt8.toNat_ofNat', Nat.mod_eq_of_lt (by omega)] at hnumber
      exact Char.toNat_inj.mp hnumber.symm
    · have hle := le_toNat_of_mem_utf8EncodeChar hc hmem
      omega
  · rintro rfl
    rw [hself]
    exact List.mem_singleton_self _

/-- A text starts with the byte of an ASCII character if it starts with that character. -/
theorem head?_utf8_eq_some_iff {text : List Char} {ascii : Char} (h : ascii.toNat < 0x80) :
    (utf8 text).head? = some ascii.toUInt8 ↔ text.head? = some ascii := by
  cases text with
  | nil => simp
  | cons c text =>
    rw [utf8_cons, List.head?_append_of_ne_nil _ String.utf8EncodeChar_ne_nil, List.head?_cons,
      Option.some_inj]
    constructor
    · intro hhead
      exact (toUInt8_mem_utf8EncodeChar h).mp (List.mem_of_mem_head? hhead)
    · rintro rfl
      rw [utf8EncodeChar_of_lt h]
      rfl

/-- A text ends with the byte of an ASCII character if it ends with that character. -/
theorem getLast?_utf8_eq_some_iff {text : List Char} {ascii : Char} (h : ascii.toNat < 0x80) :
    (utf8 text).getLast? = some ascii.toUInt8 ↔ text.getLast? = some ascii := by
  rcases List.eq_nil_or_concat text with rfl | ⟨text, c, rfl⟩
  · simp
  · rw [List.concat_eq_append, utf8_append, utf8_cons, utf8_nil, List.append_nil,
      List.getLast?_append_of_ne_nil _ String.utf8EncodeChar_ne_nil, List.getLast?_concat,
      Option.some_inj]
    constructor
    · intro hlast
      exact (toUInt8_mem_utf8EncodeChar h).mp (List.mem_of_getLast? hlast)
    · rintro rfl
      rw [utf8EncodeChar_of_lt h]
      rfl

end Text

/-- The bytes of a character are read as the symbol it is, followed by no symbols. -/
theorem map_ofByte?_utf8EncodeChar (c : Char) :
    (String.utf8EncodeChar c).map Symbol.ofByte?
      = Symbol.ofChar? c :: List.replicate (c.utf8Size - 1) none := by
  rcases Nat.lt_or_ge c.toNat 0x80 with h | h
  -- the byte of an ASCII character is its number
  · have hbyte : Char.ofUInt8 (UInt8.ofNat c.toNat) = c := by
      apply Char.ext
      apply UInt32.toNat_inj.mp
      change (UInt8.ofNat c.toNat).toNat = c.toNat
      rw [UInt8.toNat_ofNat']
      omega
    have hsize : c.utf8Size = 1 := by
      rw [← String.length_utf8EncodeChar, Text.utf8EncodeChar_of_lt h]
      rfl
    rw [Text.utf8EncodeChar_of_lt h, hsize]
    simp [Symbol.ofByte?, hbyte]
  · have hnone : ∀ byte ∈ String.utf8EncodeChar c, Symbol.ofByte? byte = none := fun byte hbyte =>
      Symbol.ofByte?_eq_none_of_le (Text.le_toNat_of_mem_utf8EncodeChar h hbyte)
    -- neither the character nor any of its bytes is a symbol
    rw [Symbol.ofChar?_eq_none_of_le h, ← List.replicate_succ, List.eq_replicate_iff]
    have hpos := c.utf8Size_pos
    refine ⟨by simp; omega, ?_⟩
    intro symbol hsymbol
    obtain ⟨byte, hbyte, rfl⟩ := List.mem_map.mp hsymbol
    exact hnone byte hbyte

@[simp] theorem symbols_nil : symbols [] = [] := rfl

/-- The bytes of a text are read one character at a time. -/
theorem symbols_cons (c : Char) (text : List Char) :
    symbols (c :: text)
      = Symbol.ofChar? c :: (List.replicate (c.utf8Size - 1) none ++ symbols text) := by
  simp [symbols, map_ofByte?_utf8EncodeChar]

end Directive
