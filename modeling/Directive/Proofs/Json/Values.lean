import Directive.Proofs.Json.Skipping
import Directive.Proofs.Json.Written

/-!
# Values that are read where they stand

A reader reads a value as the same thing wherever the value stands, or reads it nowhere, and it
takes all of the value and nothing else. This holds of the readers of scalars, and carries over to
lists and to values that may be missing. Main facts:

* `exact_text`, `exact_bool`: readers of scalars.
* `Exact.optional`, `Exact.list`: readers of other values.
* `means_list_iff`: what a list is read as, item by item.
-/

namespace Directive.Json

open Reader (isSpace afterSpace)

variable {α β : Type}

/-- A reader reads a value as `result` wherever the value stands, and takes all of it. -/
def Means (reader : Reader α) (value : List Char) (result : α) : Prop :=
  ∀ ⦃lead rest : List Char⦄, IsSpace lead → Delimits rest →
    Reads reader (lead ++ (value ++ rest)) result rest

/-- A reader that reads a value somewhere reads it everywhere, as the same thing and to its end. -/
def Exact (reader : Reader α) : Prop :=
  ∀ ⦃value : List Char⦄, IsValue value → ∀ ⦃lead rest left : List Char⦄ ⦃result : α⦄,
    IsSpace lead → Delimits rest → Reads reader (lead ++ (value ++ rest)) result left →
      left = rest ∧ Means reader value result

section Means

variable {reader : Reader α} {value : List Char} {result : α}

theorem Means.map (h : Means reader value result) (f : α → β) :
    Means (f <$> reader) value (f result) :=
  fun _ _ hlead hrest => (h hlead hrest).map f

theorem Exact.map (h : Exact reader) (f : α → β) : Exact (f <$> reader) := by
  intro value hvalue lead rest left result hlead hrest hread
  obtain ⟨inner, hinner, rfl⟩ := Reads.map_iff.mp hread
  obtain ⟨rfl, hmeans⟩ := h hvalue hlead hrest hinner
  exact ⟨rfl, hmeans.map f⟩

/-- A value is read in one way at most. -/
theorem Means.unique {other : α} (h : Means reader value result) (h' : Means reader value other) :
    result = other :=
  ((h isSpace_nil delimits_nil).unique (h' isSpace_nil delimits_nil)).1

/-- What a value is read as, if it is known what is read of it in every place. -/
theorem means_iff_of_reads_iff {p : Prop}
    (h : ∀ ⦃lead rest left : List Char⦄, IsSpace lead →
      (Reads reader (lead ++ (value ++ rest)) result left ↔ p ∧ left = rest)) :
    Means reader value result ↔ p := by
  constructor
  · intro hmeans
    exact ((h isSpace_nil).mp (hmeans isSpace_nil delimits_nil)).1
  · intro hp lead rest hlead _
    exact (h hlead).mpr ⟨hp, rfl⟩

theorem means_map_iff (hexact : Exact reader) (hvalue : IsValue value) {f : α → β} {result : β} :
    Means (f <$> reader) value result ↔ ∃ inner, Means reader value inner ∧ f inner = result := by
  constructor
  · intro h
    obtain ⟨inner, hinner, hresult⟩ := Reads.map_iff.mp (h isSpace_nil delimits_nil)
    exact ⟨inner, (hexact hvalue isSpace_nil delimits_nil hinner).2, hresult⟩
  · rintro ⟨inner, h, rfl⟩
    exact h.map f

end Means

/-! ## Scalars -/

/-- A reader that looks at the first character is exact if the reader that it goes on with is, on
the values that start with this character. -/
theorem exact_dispatch {expected : String} {readers : Char → Option (Reader α)}
    (h : ∀ ⦃c : Char⦄ ⦃more : List Char⦄ ⦃reader : Reader α⦄, IsValue (c :: more) →
      readers c = some reader → ∀ ⦃rest left : List Char⦄ ⦃result : α⦄, Delimits rest →
        Reads reader (c :: (more ++ rest)) result left →
          left = rest
            ∧ ∀ other, Delimits other → Reads reader (c :: (more ++ other)) result other) :
    Exact (Reader.dispatch expected readers) := by
  intro value hvalue lead rest left result hlead hrest hread
  obtain ⟨c, more, rfl, hc, -⟩ := hvalue.exists_cons
  obtain ⟨reader, hreader, hread⟩ := (Reads.dispatch_iff (afterSpace_append hlead hc _)).mp hread
  obtain ⟨rfl, hall⟩ := h hvalue hreader hrest hread
  refine ⟨rfl, fun other rest hother hrest => ?_⟩
  exact Reads.dispatch (afterSpace_append hother hc _) hreader (hall rest hrest)

theorem exact_text : Exact Reader.text := by
  refine exact_dispatch fun c more reader hvalue hreader rest left result hrest hread => ?_
  split_ifs at hreader with hc
  subst hc
  obtain rfl := Option.some.inj hreader
  obtain ⟨body, hbody, rfl⟩ := hvalue.exists_body
  have hiff (rest left : List Char) :
      Reads (do Reader.skip; Reader.string) ('\x22' :: (body ++ ['\x22'] ++ rest)) result left
        ↔ ∃ text, Spells body text ∧ result = String.ofList text ∧ left = rest := by
    rw [Reads.skip_bind_iff, List.append_assoc, List.singleton_append, hbody.reads_string_iff]
  obtain ⟨text, htext, hresult, rfl⟩ := (hiff rest left).mp hread
  exact ⟨rfl, fun other _ => (hiff other other).mpr ⟨text, htext, hresult, rfl⟩⟩

/-- A word that stands for a value. -/
theorem exact_word {word more : List Char} {c : Char} {value result : α} (hword : word = c :: more)
    {rest left : List Char}
    (h : Reads (do Reader.word word; pure value) (c :: (more ++ rest)) result left) :
    left = rest
      ∧ ∀ other, Reads (do Reader.word word; pure value) (c :: (more ++ other)) result other := by
  subst hword
  have hread (other : List Char) :
      Reads (do Reader.word (c :: more); pure value) (c :: (more ++ other)) value other :=
    (Reads.word (c :: more) other).bind (Reads.pure value other)
  obtain ⟨rfl, rfl⟩ := h.unique (hread rest)
  exact ⟨rfl, hread⟩

theorem exact_bool : Exact Reader.bool := by
  refine exact_dispatch fun c more reader hvalue hreader rest left result hrest hread => ?_
  split_ifs at hreader with htrue hfalse
  · subst htrue
    obtain rfl := Option.some.inj hreader
    obtain ⟨hleft, hall⟩ := exact_word (by rw [hvalue.eq_true]) hread
    exact ⟨hleft, fun other _ => hall other⟩
  · subst hfalse
    obtain rfl := Option.some.inj hreader
    obtain ⟨hleft, hall⟩ := exact_word (by rw [hvalue.eq_false]) hread
    exact ⟨hleft, fun other _ => hall other⟩

/-- Every value is skipped. -/
theorem IsValue.means_skipValue {value : List Char} (h : IsValue value) :
    Means Reader.skipValue value () :=
  fun _ _ hlead hrest => h.reads_skipValue hlead hrest

/-! ## Values that may be missing -/

section Optional

variable {reader : Reader α} {value : List Char}

theorem means_optional_null (reader : Reader α) :
    Means (Reader.optional reader) ['n', 'u', 'l', 'l'] none := by
  intro lead rest hlead _
  unfold Reader.optional
  rw [Reads.space_bind_iff, List.cons_append, afterSpace_append hlead rfl, Reads.peek_bind_iff]
  exact (Reads.word ['n', 'u', 'l', 'l'] rest).bind (Reads.pure none rest)

/-- What is read of a value that is not `null`. -/
theorem reads_optional_iff {c : Char} {more lead left : List Char} {result : Option α}
    (hlead : IsSpace lead) (hc : isSpace c = false) (hnull : c ≠ 'n') :
    Reads (Reader.optional reader) (lead ++ c :: more) result left
      ↔ ∃ inner, Reads reader (c :: more) inner left ∧ some inner = result := by
  unfold Reader.optional
  rw [Reads.space_bind_iff, afterSpace_append hlead hc, Reads.peek_bind_iff, List.head?_cons,
    if_neg fun h => hnull (Option.some.inj h), Reads.map_iff]

theorem Means.optional {result : α} (h : Means reader value result) (hvalue : IsValue value)
    (hnull : value.head? ≠ some 'n') : Means (Reader.optional reader) value (some result) := by
  intro lead rest hlead hrest
  obtain ⟨c, more, rfl, hc, -⟩ := hvalue.exists_cons
  have hc' : c ≠ 'n' := by simpa using hnull
  have hread := h isSpace_nil hrest
  exact (reads_optional_iff hlead hc hc').mpr ⟨result, hread, rfl⟩

theorem Exact.optional (h : Exact reader) : Exact (Reader.optional reader) := by
  intro value hvalue lead rest left result hlead hrest hread
  obtain ⟨c, more, rfl, hc, -⟩ := hvalue.exists_cons
  -- no other value starts like `null`, so that its first character decides
  by_cases hnull : c = 'n'
  · subst hnull
    obtain rfl := hvalue.eq_null
    obtain ⟨rfl, rfl⟩ := hread.unique (means_optional_null reader hlead hrest)
    exact ⟨rfl, means_optional_null reader⟩
  · obtain ⟨inner, hinner, rfl⟩ := (reads_optional_iff hlead hc hnull).mp hread
    obtain ⟨rfl, hmeans⟩ := h hvalue isSpace_nil hrest hinner
    exact ⟨rfl, hmeans.optional hvalue (by simpa using hnull)⟩

end Optional

/-! ## Lists -/

section List

variable {reader : Reader α} {items : List Item} {space lead rest left : List Char}

theorem reads_itemsFrom_next_iff {isFirst : Bool} {seen values : List α} {text middle : List Char}
    (hitem : ∃ h, Reader.listItem isFirst text = .ok (.next middle h)) :
    Reads (Reader.itemsFrom reader isFirst seen) text values left
      ↔ ∃ value behind, Reads reader middle value behind
        ∧ Reads (Reader.itemsFrom reader false (value :: seen)) behind values left := by
  constructor
  · rintro ⟨hle, hread⟩
    obtain ⟨hmiddle, hitem⟩ := hitem
    rw [Reader.itemsFrom, hitem] at hread
    cases hfirst : reader middle with
    | error fault => simp [hfirst] at hread
    | ok read =>
      obtain ⟨value, behind, hbehind⟩ := read
      simp only [hfirst] at hread
      cases hmore : Reader.itemsFrom reader false (value :: seen) behind with
      | error fault =>
        rw [hmore] at hread
        cases hread
      | ok read =>
        rw [hmore] at hread
        cases hread
        exact ⟨value, behind, ⟨hbehind, hfirst⟩, ⟨read.length_le, hmore⟩⟩
  · rintro ⟨value, behind, hvalue, hmore⟩
    exact reads_itemsFrom_next hitem hvalue hmore

/-- A value is found behind space where an item may start. -/
theorem Item.Formed.afterSpace_eq {item : Item} (h : item.Formed) (hspace : IsSpace space)
    (rest : List Char) :
    ∃ c more, afterSpace (space ++ (item.text ++ rest)) = c :: more ∧ c ≠ ']'
      ∧ c :: more = item.value ++ (item.trail ++ rest) := by
  obtain ⟨hspaced, hvalue⟩ := h
  obtain ⟨c, more, hvalue, hc, hcloser⟩ := hvalue.exists_cons
  have hboth : IsSpace (space ++ item.lead) := List.forall_mem_append.mpr ⟨hspace, hspaced.lead⟩
  refine ⟨c, more ++ (item.trail ++ rest), ?_, hcloser, by rw [hvalue, List.cons_append]⟩
  rw [← afterSpace_append hboth hc, Item.text, hvalue]
  simp

/-- What is read of an item of a list at its value, when the text behind the item is `rest`. -/
theorem reads_item_iff (hexact : Exact reader) {item : Item} (hitem : item.Formed)
    (hrest : Delimits rest) {isFirst : Bool} {text : List Char} {seen values : List α}
    (hnext : ∃ h, Reader.listItem isFirst text
      = .ok (.next (item.value ++ (item.trail ++ rest)) h)) :
    Reads (Reader.itemsFrom reader isFirst seen) text values left
      ↔ ∃ value, Means reader item.value value
        ∧ Reads (Reader.itemsFrom reader false (value :: seen)) (item.trail ++ rest) values
          left := by
  have hdelimits := delimits_append hitem.1.trail hrest
  rw [reads_itemsFrom_next_iff hnext]
  constructor
  · rintro ⟨value, behind, hread, hbehind⟩
    obtain ⟨rfl, hmeans⟩ := hexact hitem.2 isSpace_nil hdelimits hread
    exact ⟨value, hmeans, hbehind⟩
  · rintro ⟨value, hmeans, hbehind⟩
    exact ⟨value, _, hmeans isSpace_nil hdelimits, hbehind⟩

/-- What is read of the items of a list after the first one, up to the closing bracket. -/
theorem reads_itemsFrom_following_iff (hexact : Exact reader) (hitems : ∀ item ∈ items, item.Formed)
    {trail : List Char} (htrail : IsSpace trail) {seen values : List α} :
    Reads (Reader.itemsFrom reader false seen)
        (trail ++ (following ']' (items.map Item.text) ++ rest)) values left
      ↔ ∃ found, List.Forall₂ (fun item value => Means reader item.value value) items found
        ∧ values = seen.reverse ++ found ∧ left = rest := by
  -- the values that have been read are kept in reverse, in front of those that are still to come
  induction items generalizing seen trail with
  | nil =>
    have hclose : Reads (Reader.itemsFrom reader false seen) (trail ++ ([']'] ++ rest)) seen.reverse
        rest := reads_itemsFrom_closer (afterSpace_append htrail rfl rest)
    constructor
    · intro h
      obtain ⟨rfl, rfl⟩ := h.unique hclose
      exact ⟨[], .nil, (List.append_nil _).symm, rfl⟩
    · rintro ⟨found, ⟨⟩, rfl, rfl⟩
      rwa [List.append_nil]
  | cons item items ih =>
    obtain ⟨hitem, hmore⟩ := List.forall_mem_cons.mp hitems
    obtain ⟨c, more, hspace, hcloser, hvalue⟩ := hitem.afterSpace_eq isSpace_nil
      (following ']' (items.map Item.text) ++ rest)
    have hdelimits : Delimits (following ']' (items.map Item.text) ++ rest) :=
      delimits_following .list _ rest
    have hcomma : afterSpace (trail ++ (following ']' ((item :: items).map Item.text) ++ rest))
        = ',' :: ([] ++ (item.text ++ (following ']' (items.map Item.text) ++ rest))) := by
      simpa [following] using afterSpace_append htrail (c := ',') rfl
        (item.text ++ (following ']' (items.map Item.text) ++ rest))
    rw [reads_item_iff hexact hitem hdelimits (hvalue ▸ listItem_later hcomma hspace hcloser)]
    constructor
    · rintro ⟨value, hmeans, hbehind⟩
      obtain ⟨found, hfound, rfl, rfl⟩ := (ih hmore hitem.1.trail).mp hbehind
      exact ⟨value :: found, .cons hmeans hfound, by simp, rfl⟩
    · rintro ⟨found, hfound, rfl, rfl⟩
      cases hfound with
      | @cons _ value _ others hmeans hothers =>
        exact ⟨value, hmeans, (ih hmore hitem.1.trail).mpr ⟨others, hothers, by simp, rfl⟩⟩

/-- What is read of a list is what is read of its items. -/
theorem reads_list_iff (hexact : Exact reader) (hspace : IsSpace space)
    (hitems : ∀ item ∈ items, item.Formed) (hlead : IsSpace lead) {values : List α} :
    Reads (Reader.list reader) (lead ++ (listText space items ++ rest)) values left
      ↔ List.Forall₂ (fun item value => Means reader item.value value) items values
        ∧ left = rest := by
  have hbracket : Reads (Reader.list reader) (lead ++ (listText space items ++ rest)) values left
      ↔ Reads (Reader.itemsFrom reader true [])
        (space ++ ([','].intercalate (items.map Item.text) ++ [']']) ++ rest) values left := by
    have htext : afterSpace (lead ++ (listText space items ++ rest))
        = '[' :: (space ++ ([','].intercalate (items.map Item.text) ++ [']']) ++ rest) :=
      afterSpace_append hlead rfl _
    rw [Reader.list, Reads.dispatch_eq_iff htext rfl]
    exact Reads.skip_bind_iff
  rw [hbracket]
  cases items with
  | nil =>
    have hclose : Reads (Reader.itemsFrom reader true []) (space ++ [']'] ++ rest) [] rest :=
      reads_itemsFrom_closer (by simpa using afterSpace_append hspace (c := ']') rfl rest)
    rw [List.map_nil]
    constructor
    · intro h
      obtain ⟨rfl, rfl⟩ := h.unique hclose
      exact ⟨.nil, rfl⟩
    · rintro ⟨⟨⟩, rfl⟩
      exact hclose
  | cons item items =>
    obtain ⟨hitem, hmore⟩ := List.forall_mem_cons.mp hitems
    obtain ⟨c, more, hstart, hcloser, hvalue⟩ := hitem.afterSpace_eq hspace
      (following ']' (items.map Item.text) ++ rest)
    have hdelimits : Delimits (following ']' (items.map Item.text) ++ rest) :=
      delimits_following .list _ rest
    rw [List.map_cons, intercalate_append_closer, List.append_assoc, List.append_assoc,
      reads_item_iff hexact hitem hdelimits (hvalue ▸ listItem_first hstart hcloser)]
    constructor
    · rintro ⟨value, hmeans, hbehind⟩
      obtain ⟨found, hfound, rfl, rfl⟩ :=
        (reads_itemsFrom_following_iff hexact hmore hitem.1.trail).mp hbehind
      exact ⟨.cons hmeans hfound, rfl⟩
    · rintro ⟨hvalues, rfl⟩
      cases hvalues with
      | @cons _ value _ others hmeans hothers =>
        exact ⟨value, hmeans, (reads_itemsFrom_following_iff hexact hmore hitem.1.trail).mpr
          ⟨others, hothers, rfl, rfl⟩⟩

/-- A list is read as what its items are read as. -/
theorem means_list_iff (hexact : Exact reader) (hspace : IsSpace space)
    (hitems : ∀ item ∈ items, item.Formed) {values : List α} :
    Means (Reader.list reader) (listText space items) values
      ↔ List.Forall₂ (fun item value => Means reader item.value value) items values :=
  means_iff_of_reads_iff fun _ _ _ hlead => reads_list_iff hexact hspace hitems hlead

theorem Exact.list (hexact : Exact reader) : Exact (Reader.list reader) := by
  intro value hvalue lead rest left values hlead hrest hread
  -- only a list starts with the bracket that the reader looks for
  have hlist : ∃ space items, IsSpace space ∧ (∀ item ∈ items, item.Formed)
      ∧ value = listText space items := by
    obtain ⟨c, more, rfl, hc, -⟩ := hvalue.exists_cons
    obtain ⟨_, hreader, -⟩ := (Reads.dispatch_iff (afterSpace_append hlead hc _)).mp hread
    split_ifs at hreader with hbracket
    subst hbracket
    exact hvalue.exists_items
  obtain ⟨space, items, hspace, hitems, rfl⟩ := hlist
  obtain ⟨hvalues, rfl⟩ := (reads_list_iff hexact hspace hitems hlead).mp hread
  exact ⟨rfl, (means_list_iff hexact hspace hitems).mpr hvalues⟩

end List

end Directive.Json
