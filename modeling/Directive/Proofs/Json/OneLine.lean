import Directive.Descriptor.Json
import Directive.Proofs.Json.Written

/-!
# Compact JSON is one line

A value that is written without blanks holds no control character: the layout adds none, and those
of a string are escaped. So the text of a descriptor is one line, whatever its parts hold. Main
facts:

* `hasNoControl_escape`: a character is written without control characters.
* `Writer.OneLine.list`, `Writer.OneLine.object`: lists and objects add none.
* `Descriptor.oneLine_toJson`: the text of a descriptor holds none.
-/

namespace Directive

namespace Json

/-! ## Texts without control characters -/

/-- A text holds no character below U+0020. -/
def HasNoControl (text : List Char) : Prop :=
  ∀ c ∈ text, 0x20 ≤ c.toNat

@[simp] theorem hasNoControl_nil : HasNoControl [] :=
  List.forall_mem_nil _

@[simp] theorem hasNoControl_cons {c : Char} {text : List Char} :
    HasNoControl (c :: text) ↔ 0x20 ≤ c.toNat ∧ HasNoControl text :=
  List.forall_mem_cons

@[simp] theorem hasNoControl_append {a b : List Char} :
    HasNoControl (a ++ b) ↔ HasNoControl a ∧ HasNoControl b :=
  List.forall_mem_append

/-- A text without control characters is one line. -/
theorem HasNoControl.lineFeed_not_mem {text : List Char} (h : HasNoControl text) :
    '\n' ∉ text := by
  intro hmem
  have hle : 0x20 ≤ '\n'.toNat := h '\n' hmem
  exact absurd hle (by decide)

theorem le_toNat_hexDigit (n : Nat) : 0x20 ≤ (hexDigit n).toNat := by
  have hall : ∀ k < 16, 0x20 ≤ (Nat.digitChar k).toNat := by decide
  exact hall (n % 16) (Nat.mod_lt n (by omega))

/-- A character is written without control characters, also if it is one. -/
theorem hasNoControl_escape (c : Char) : HasNoControl (escape c) := by
  unfold escape
  split
  case h_8 =>
    -- a character without an escape of its own is written in digits, or is no control character
    split
    case isTrue => simp [le_toNat_hexDigit]
    case isFalse hc => simpa using hc
  all_goals simp [HasNoControl]

/-- So is a string. -/
theorem hasNoControl_quoted (text : List Char) : HasNoControl (quoted text) := by
  have htext : HasNoControl (text.flatMap escape) := by
    intro c hc
    obtain ⟨d, -, hc⟩ := List.mem_flatMap.mp hc
    exact hasNoControl_escape d c hc
  simp [quoted, htext]

/-! ## Values -/

namespace Layout

variable {level : Nat} {closer : Char} {items : List (List Char)}

theorem hasNoControl_afterItem (hcloser : 0x20 ≤ closer.toNat)
    (hitems : ∀ item ∈ items, HasNoControl item) :
    HasNoControl (compact.afterItem level closer items) := by
  induction items with
  | nil => simpa [afterItem, compact] using hcloser
  | cons item items ih =>
    obtain ⟨hitem, hmore⟩ := List.forall_mem_cons.mp hitems
    simpa [afterItem, compact, hitem] using ih hmore

/-- Between brackets on one line stands nothing but the items and commas. -/
theorem hasNoControl_enclose {opener : Char} (hopener : 0x20 ≤ opener.toNat)
    (hcloser : 0x20 ≤ closer.toNat) (hitems : ∀ item ∈ items, HasNoControl item) :
    HasNoControl (compact.enclose level opener closer items) := by
  cases items with
  | nil => simp [enclose, hopener, hcloser]
  | cons item items =>
    obtain ⟨hitem, hmore⟩ := List.forall_mem_cons.mp hitems
    rw [enclose_cons]
    simpa [compact, hopener, hitem] using hasNoControl_afterItem hcloser hmore

end Layout

namespace Writer

/-- A value whose text is one line when it is written without blanks. -/
def OneLine (writer : Writer) : Prop :=
  ∀ level, HasNoControl (writer .compact level)

theorem oneLine_text (value : String) : (text value).OneLine :=
  fun _ => hasNoControl_quoted value.toList

theorem oneLine_bool (value : Bool) : (bool value).OneLine := by
  intro level
  cases value <;> simp [bool, HasNoControl]

namespace OneLine

theorem list {items : List Writer} (h : ∀ item ∈ items, item.OneLine) :
    (Writer.list items).OneLine := by
  intro level
  refine Layout.hasNoControl_enclose (by decide) (by decide) fun _ htext => ?_
  obtain ⟨item, hitem, rfl⟩ := List.mem_map.mp htext
  exact h item hitem (level + 1)

theorem object {members : List (String × Writer)} (h : ∀ member ∈ members, member.2.OneLine) :
    (Writer.object members).OneLine := by
  intro level
  refine Layout.hasNoControl_enclose (by decide) (by decide) fun _ htext => ?_
  obtain ⟨⟨key, value⟩, hmember, rfl⟩ := List.mem_map.mp htext
  have hkey := hasNoControl_quoted key.toList
  have hgap : Layout.compact.gap = [] := rfl
  simpa [hgap, hkey] using h _ hmember (level + 1)

/-- The members of an object, of which the last one may be a list that is missing. -/
theorem objectWithList {α : Type} {key listKey : String} {value : Writer}
    {items : Option (List α)} {write : α → Writer} (hvalue : value.OneLine)
    (hitems : ∀ list ∈ items, ∀ item ∈ list, (write item).OneLine) :
    (Writer.object ((key, value) :: optionalList listKey items write)).OneLine := by
  refine object (List.forall_mem_cons.mpr ⟨hvalue, ?_⟩)
  cases items with
  | none => exact List.forall_mem_nil _
  | some items =>
    refine List.forall_mem_singleton.mpr (list fun _ hwriter => ?_)
    obtain ⟨item, hitem, rfl⟩ := List.mem_map.mp hwriter
    exact hitems items rfl item hitem

end OneLine

end Writer

end Json

/-! ## Descriptors and their parts -/

open Json (Writer)

theorem Argument.oneLine_toJson (argument : Argument) : argument.toJson.OneLine :=
  .object (List.forall_mem_cons.mpr ⟨Writer.oneLine_text argument.value,
    List.forall_mem_singleton.mpr (Writer.oneLine_bool argument.isDynamic)⟩)

theorem Filter.oneLine_toJson (filter : Filter) : filter.toJson.OneLine :=
  .objectWithList (Writer.oneLine_text filter.name) fun _ _ argument _ => argument.oneLine_toJson

/-- A descriptor is written on one line, whatever characters its parts hold. -/
theorem Descriptor.oneLine_toJson (descriptor : Descriptor) : descriptor.toJson.OneLine :=
  .objectWithList (Writer.oneLine_text descriptor.expression)
    fun _ _ filter _ => filter.oneLine_toJson

end Directive
