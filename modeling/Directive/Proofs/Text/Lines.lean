import Directive.Proofs.Scan.Bytes
import Directive.Text.Lines

/-!
# Lines of texts and of bytes

The lines of a text are known from what stands at their ends. Reading a stream line by line is
reading it whole: in UTF-8 the byte of a line feed is found in line feeds only, so that the rows of
the bytes of a text are the bytes of its rows. Main facts:

* `lines_eq_iff`: the lines of a text are the only ones that it can be cut into.
* `rows_utf8`: the rows of the bytes of a text.
* `linesOfBytes?_eq`: a stream has lines exactly if all of it is a text, and they are those of the
  text.
-/

namespace Directive.Text

/-! ## Rows -/

section Rows

variable {α : Type}

/-- Adds items in front of the first row. -/
def prependRow (items : List α) : List (List α) → List (List α)
  | [] => [items]
  | row :: more => (items ++ row) :: more

theorem prependRow_append (a b : List α) (rest : List (List α)) :
    prependRow (a ++ b) rest = prependRow a (prependRow b rest) := by
  cases rest with
  | nil => rfl
  | cons row more => simp [prependRow]

variable [DecidableEq α]

theorem rows_cons_self (separator : α) (items : List α) :
    rows separator (separator :: items) = [separator] :: rows separator items := by
  simp [rows]

theorem rows_cons_of_ne {separator item : α} (h : item ≠ separator) (items : List α) :
    rows separator (item :: items) = prependRow [item] (rows separator items) := by
  simp only [rows, List.foldr_cons, if_neg h]
  rfl

/-- Items other than the separator in front of a list belong to its first row. -/
theorem rows_append {separator : α} {items : List α} (hne : items ≠ [])
    (h : separator ∉ items) (rest : List α) :
    rows separator (items ++ rest) = prependRow items (rows separator rest) := by
  induction items with
  | nil => exact absurd rfl hne
  | cons item items ih =>
    have hitem : item ≠ separator := fun heq => h (heq ▸ List.mem_cons_self)
    rw [List.cons_append, rows_cons_of_ne hitem]
    cases items with
    | nil => rfl
    | cons next items =>
      have hitems : separator ∉ next :: items := fun hmem => h (List.mem_cons_of_mem item hmem)
      rw [ih (List.cons_ne_nil _ _) hitems, ← prependRow_append]
      rfl

end Rows

/-! ## Lines of a text -/

/-- A text has these lines, in order. A line holds no line feed. It ends at a line feed, together
with a carriage return directly before the line feed; the last line, if it is not empty, may end
with the text instead and is then whole. -/
inductive HasLines : List Char → List (List Char) → Prop
  /-- The empty text has no lines. -/
  | nil : HasLines [] []
  /-- A line that ends with the text. -/
  | whole {line : List Char} (hne : line ≠ []) (hline : '\n' ∉ line) : HasLines line [line]
  /-- A line that ends at a line feed alone. -/
  | feed {line text : List Char} {lines : List (List Char)} (hline : '\n' ∉ line)
      (hlast : line.getLast? ≠ some '\r') (h : HasLines text lines) :
      HasLines (line ++ '\n' :: text) (line :: lines)
  /-- A line that ends at a carriage return and a line feed. -/
  | returnFeed {line text : List Char} {lines : List (List Char)} (hline : '\n' ∉ line)
      (h : HasLines text lines) : HasLines (line ++ '\r' :: '\n' :: text) (line :: lines)

section Lines

variable {line : List Char}

/-- A row without a line feed is whole. -/
theorem chomp_of_not_mem (h : '\n' ∉ line) : chomp line = line := by
  have hreverse : '\n' ∉ line.reverse := by simpa using h
  unfold chomp
  split
  case h_1 hrow => simp [hrow] at hreverse
  case h_2 hrow => simp [hrow] at hreverse
  case h_3 => rfl

/-- Only a carriage return directly before the line feed goes with it. -/
theorem chomp_feed (h : line.getLast? ≠ some '\r') : chomp (line ++ ['\n']) = line := by
  rw [← List.head?_reverse] at h
  unfold chomp
  rw [List.reverse_append, List.reverse_singleton, List.singleton_append]
  cases hreverse : line.reverse with
  | nil => exact (List.reverse_eq_nil_iff.mp hreverse).symm
  | cons c rest =>
    rw [hreverse, List.head?_cons, ne_eq, Option.some_inj] at h
    have hline : (c :: rest).reverse = line := by rw [← hreverse, List.reverse_reverse]
    simp [h, ← hline]

theorem chomp_returnFeed (line : List Char) : chomp (line ++ ['\r', '\n']) = line := by
  simp [chomp]

/-- A text without a line feed is one row. -/
theorem rows_of_not_mem {text : List Char} (hne : text ≠ []) (h : '\n' ∉ text) :
    rows '\n' text = [text] := by
  have hrows := rows_append hne h []
  rw [List.append_nil] at hrows
  rw [hrows]
  simp [rows, prependRow]

/-- The first row ends at the first line feed. -/
theorem rows_feed (h : '\n' ∉ line) (text : List Char) :
    rows '\n' (line ++ '\n' :: text) = (line ++ ['\n']) :: rows '\n' text := by
  by_cases hne : line = []
  · rw [hne, List.nil_append, rows_cons_self, List.nil_append]
  · rw [rows_append hne h, rows_cons_self]
    rfl

/-- The lines that a text has are read from it. -/
theorem HasLines.lines_eq {text : List Char} {found : List (List Char)} (h : HasLines text found) :
    lines text = found := by
  unfold lines
  induction h with
  | nil => rfl
  | whole hne hline =>
    rw [rows_of_not_mem hne hline, List.map_singleton, chomp_of_not_mem hline]
  | feed hline hlast _ ih => rw [rows_feed hline, List.map_cons, chomp_feed hlast, ih]
  | @returnFeed line text lines hline _ ih =>
    -- the carriage return belongs to the row in front of the line feed
    have hreturn : '\n' ∉ line ++ ['\r'] := by simpa using hline
    have hrows := rows_feed hreturn text
    rw [List.append_assoc, List.append_assoc] at hrows
    rw [← List.singleton_append, hrows, List.map_cons, ih]
    congr 1
    exact chomp_returnFeed line

/-- Every text has lines. -/
theorem exists_hasLines (text : List Char) : ∃ found, HasLines text found := by
  induction hlength : text.length using Nat.strongRecOn generalizing text with
  | ind n ih =>
    subst hlength
    by_cases hmem : '\n' ∈ text
    · obtain ⟨line, rest, rfl, hline⟩ := List.eq_append_cons_of_mem hmem
      obtain ⟨found, hfound⟩ := ih rest.length (by simp; omega) rest rfl
      by_cases hlast : line.getLast? = some '\r'
      · obtain ⟨line, rfl⟩ := List.getLast?_eq_some_iff.mp hlast
        rw [List.append_assoc, List.singleton_append]
        exact ⟨line :: found, .returnFeed (fun h => hline (List.mem_append_left _ h)) hfound⟩
      · exact ⟨line :: found, .feed hline hlast hfound⟩
    · by_cases hne : text = []
      · exact ⟨[], hne ▸ .nil⟩
      · exact ⟨[text], .whole hne hmem⟩

/-- The lines that are read from a text are the only ones that it has. -/
theorem lines_eq_iff {text : List Char} {found : List (List Char)} :
    lines text = found ↔ HasLines text found := by
  constructor
  · rintro rfl
    obtain ⟨found, hfound⟩ := exists_hasLines text
    rwa [hfound.lines_eq]
  · exact HasLines.lines_eq

end Lines

/-! ## Rows of bytes -/

theorem map_prependRow (row : List Char) (rest : List (List Char)) :
    (prependRow row rest).map utf8 = prependRow (utf8 row) (rest.map utf8) := by
  cases rest with
  | nil => rfl
  | cons next more => simp [prependRow]

/-- The rows of the bytes of a text are the bytes of its rows. -/
theorem rows_utf8 (text : List Char) :
    rows '\n'.toUInt8 (utf8 text) = (rows '\n' text).map utf8 := by
  induction text with
  | nil => rfl
  | cons c text ih =>
    by_cases hc : c = '\n'
    · subst hc
      have hbytes : utf8 ('\n' :: text) = '\n'.toUInt8 :: utf8 text := rfl
      rw [hbytes, rows_cons_self, rows_cons_self, ih]
      rfl
    · -- no byte of any other character is that of a line feed
      have hnot : '\n'.toUInt8 ∉ String.utf8EncodeChar c :=
        mt (toUInt8_mem_utf8EncodeChar (by decide)).mp hc
      have hone : utf8 [c] = String.utf8EncodeChar c := List.append_nil _
      rw [utf8_cons, rows_append String.utf8EncodeChar_ne_nil hnot, rows_cons_of_ne hc, ih,
        map_prependRow, hone]

theorem utf8_flatten (texts : List (List Char)) :
    utf8 texts.flatten = (texts.map utf8).flatten := by
  induction texts with
  | nil => rfl
  | cons text texts ih => simp [ih]

/-- Texts are read back from their bytes one by one. -/
theorem mapM_ofUtf8?_eq_some_iff {rows : List (List UInt8)} {texts : List (List Char)} :
    rows.mapM ofUtf8? = some texts ↔ rows = texts.map utf8 := by
  constructor
  · intro h
    induction rows generalizing texts with
    | nil =>
      obtain rfl : [] = texts := by simpa using h
      rfl
    | cons row rows ih =>
      rw [List.mapM_cons] at h
      obtain ⟨text, hrow, h⟩ := Option.bind_eq_some_iff.mp h
      obtain ⟨more, hrows, h⟩ := Option.bind_eq_some_iff.mp h
      obtain rfl : text :: more = texts := Option.some.inj h
      rw [List.map_cons, utf8_of_ofUtf8? hrow, ← ih hrows]
  · rintro rfl
    induction texts with
    | nil => rfl
    | cons text texts ih => simp [List.mapM_cons, ofUtf8?_utf8, ih]

/-- A stream has lines exactly if all of it is a text, and they are the lines of the text. -/
theorem linesOfBytes?_eq (bytes : List UInt8) :
    linesOfBytes? bytes = (ofUtf8? bytes).map lines := by
  unfold linesOfBytes?
  cases htext : ofUtf8? bytes with
  | some text =>
    have hrows : (rows '\n'.toUInt8 bytes).mapM ofUtf8? = some (rows '\n' text) := by
      rw [mapM_ofUtf8?_eq_some_iff, ← rows_utf8, utf8_of_ofUtf8? htext]
    rw [hrows]
    rfl
  | none =>
    cases hrows : (rows '\n'.toUInt8 bytes).mapM ofUtf8? with
    | none => rfl
    | some texts =>
      -- the rows are texts, and so are all of them in a row
      have hbytes : bytes = utf8 texts.flatten := by
        rw [utf8_flatten, ← mapM_ofUtf8?_eq_some_iff.mp hrows, flatten_rows]
      rw [hbytes, ofUtf8?_utf8] at htext
      cases htext

end Directive.Text
