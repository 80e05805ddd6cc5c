import Directive.Proofs.Json.Members

/-!
# Objects with two known members

A kind of object that reads two members and skips all others. Such an object may also be written as
a list of the values of the two members. What it is read as depends on these values alone.
Main facts:

* `TwoFields.admits_iff`: the three ways in which a member leads on.
* `TwoFields.gathers_perm`: members lead to the same state in any order.
* `TwoFields.reads_positions_iff`: what is read of the values in a list.
* `TwoFields.exact`: the reader of the objects is exact.
-/

namespace Directive.Json

open Reader (isSpace afterSpace)

variable {α β γ σ : Type}

/-- A record that reads two members and skips all others. -/
structure TwoFields (record : Record σ α) (β γ : Type) where
  /-- The name of the first member. -/
  first : String
  /-- The name of the second member. -/
  second : String
  /-- How the value of the first member is read. -/
  readFirst : Reader β
  /-- How the value of the second member is read. -/
  readSecond : Reader γ
  /-- The state in which these values have been read. -/
  draft : Option β → Option γ → σ
  /-- What the values in a list stand for, of which the second may be missing. -/
  ofValues? : β → Option γ → Option α
  names_ne : first ≠ second
  exact_first : Exact readFirst
  exact_second : Exact readSecond
  exists_draft : ∀ state, ∃ a b, state = draft a b
  start_eq : record.start = draft none none
  member_first : ∀ a b, record.member (draft a b) first
    = Record.once first a readFirst fun value => draft (some value) b
  member_second : ∀ a b, record.member (draft a b) second
    = Record.once second b readSecond fun value => draft a (some value)
  member_other : ∀ {name} a b, name ≠ first → name ≠ second →
    record.member (draft a b) name = Record.ignored (draft a b)
  reads_ofList_iff : ∀ {text value left}, Reads record.ofList text value left
    ↔ ∃ a b middle, Reads (Reader.positional true readFirst) text (some a) middle
      ∧ Reads (Reader.positional false readSecond) middle b left ∧ ofValues? a b = some value

/-! ## Members -/

section Once

variable {name : String} {reader : Reader β} {store : β → σ}

/-- A member that may stand once is read if it has not been read before. -/
theorem Record.once_eq_ok_iff {slot : Option β} {stored : Reader σ} :
    Record.once name slot reader store = .ok stored ↔ slot = none ∧ stored = store <$> reader := by
  cases slot with
  | none =>
    simp only [Record.once, Except.ok.injEq, true_and]
    exact eq_comm
  | some value => simp [Record.once]

end Once

/-- The reader of a member that says nothing. -/
theorem means_ignored {state : σ} {value : List Char} (hvalue : IsValue value) :
    Means (do Reader.skipValue; pure state : Reader σ) value state := by
  intro lead rest hlead hrest
  exact (hvalue.means_skipValue hlead hrest).bind (Reads.pure state rest)

theorem exact_ignored (state : σ) : Exact (do Reader.skipValue; pure state : Reader σ) := by
  intro value hvalue lead rest left result hlead hrest hread
  obtain ⟨rfl, rfl⟩ := hread.unique (means_ignored hvalue hlead hrest)
  exact ⟨rfl, means_ignored hvalue⟩

namespace TwoFields

variable {record : Record σ α}

/-- All values of members are read by readers that are exact. -/
theorem exactMembers (fields : TwoFields record β γ) : record.ExactMembers := by
  intro state name reader hmember
  obtain ⟨a, b, rfl⟩ := fields.exists_draft state
  by_cases hfirst : name = fields.first
  · subst hfirst
    rw [fields.member_first, Record.once_eq_ok_iff] at hmember
    obtain ⟨-, rfl⟩ := hmember
    exact fields.exact_first.map _
  · by_cases hsecond : name = fields.second
    · subst hsecond
      rw [fields.member_second, Record.once_eq_ok_iff] at hmember
      obtain ⟨-, rfl⟩ := hmember
      exact fields.exact_second.map _
    · rw [fields.member_other a b hfirst hsecond] at hmember
      obtain rfl := Except.ok.inj hmember
      exact exact_ignored _

/-- How a member of a name leads on: it is one of the two and has not been read before, or it is
neither and says nothing. -/
inductive Leads (fields : TwoFields record β γ) (a : Option β) (b : Option γ) (name : String)
    (value : List Char) : σ → Prop
  /-- The first member. -/
  | first {result : β} (hname : name = fields.first) (ha : a = none)
      (h : Means fields.readFirst value result) :
      fields.Leads a b name value (fields.draft (some result) b)
  /-- The second member. -/
  | second {result : γ} (hname : name = fields.second) (hb : b = none)
      (h : Means fields.readSecond value result) :
      fields.Leads a b name value (fields.draft a (some result))
  /-- Another member. -/
  | other (hfirst : name ≠ fields.first) (hsecond : name ≠ fields.second) :
      fields.Leads a b name value (fields.draft a b)

variable {fields : TwoFields record β γ}

/-- The ways in which a member leads on. -/
theorem admits_iff {a : Option β} {b : Option γ} {entry : List Char × List Char} {name : List Char}
    {next : σ} (hvalue : IsValue entry.2) :
    record.Admits (fields.draft a b) entry name next
      ↔ Spells entry.1 name ∧ fields.Leads a b (String.ofList name) entry.2 next := by
  constructor
  · rintro ⟨hkey, reader, hmember, hmeans⟩
    refine ⟨hkey, ?_⟩
    by_cases hfirst : String.ofList name = fields.first
    · rw [hfirst, fields.member_first, Record.once_eq_ok_iff] at hmember
      obtain ⟨ha, rfl⟩ := hmember
      obtain ⟨result, hresult, rfl⟩ := (means_map_iff fields.exact_first hvalue).mp hmeans
      exact .first hfirst ha hresult
    · by_cases hsecond : String.ofList name = fields.second
      · rw [hsecond, fields.member_second, Record.once_eq_ok_iff] at hmember
        obtain ⟨hb, rfl⟩ := hmember
        obtain ⟨result, hresult, rfl⟩ := (means_map_iff fields.exact_second hvalue).mp hmeans
        exact .second hsecond hb hresult
      · rw [fields.member_other a b hfirst hsecond] at hmember
        obtain rfl := Except.ok.inj hmember
        obtain rfl := hmeans.unique (means_ignored hvalue)
        exact .other hfirst hsecond
  · rintro ⟨hkey, hleads⟩
    refine ⟨hkey, ?_⟩
    cases hleads with
    | first hname ha h =>
      have hmember : record.member (fields.draft a b) (String.ofList name)
          = .ok ((fun value => fields.draft (some value) b) <$> fields.readFirst) := by
        rw [hname, fields.member_first, Record.once_eq_ok_iff]
        exact ⟨ha, rfl⟩
      exact ⟨_, hmember, h.map _⟩
    | second hname hb h =>
      have hmember : record.member (fields.draft a b) (String.ofList name)
          = .ok ((fun value => fields.draft a (some value)) <$> fields.readSecond) := by
        rw [hname, fields.member_second, Record.once_eq_ok_iff]
        exact ⟨hb, rfl⟩
      exact ⟨_, hmember, h.map _⟩
    | other hfirst hsecond =>
      exact ⟨_, fields.member_other a b hfirst hsecond, means_ignored hvalue⟩

/-- The second member leads on in the same way with a value that is read as the same thing. -/
theorem admits_second_replace {state next : σ} {key value value' name : List Char}
    (hkey : Spells key fields.second.toList) (hvalue : IsValue value) (hvalue' : IsValue value')
    (h : ∀ result, Means fields.readSecond value result → Means fields.readSecond value' result)
    (hadmits : record.Admits state (key, value) name next) :
    record.Admits state (key, value') name next := by
  obtain ⟨a, b, rfl⟩ := fields.exists_draft state
  obtain ⟨hname, hleads⟩ := (admits_iff hvalue).mp hadmits
  obtain rfl := hname.unique hkey
  refine (admits_iff hvalue').mpr ⟨hkey, ?_⟩
  rw [String.ofList_toList] at hleads ⊢
  cases hleads with
  | first heq => exact absurd heq fields.names_ne.symm
  | second _ hb hresult => exact .second rfl hb (h _ hresult)
  | other _ hne => exact absurd rfl hne

/-- Two members in a row lead to the same state the other way round. -/
theorem exists_admits_swap {a : Option β} {b : Option γ} {entry other : List Char × List Char}
    {name otherName : List Char} {next final : σ} (hvalue : IsValue entry.2)
    (hother : IsValue other.2) (h : record.Admits (fields.draft a b) entry name next)
    (h' : record.Admits next other otherName final) :
    ∃ middle, record.Admits (fields.draft a b) other otherName middle
      ∧ record.Admits middle entry name final := by
  obtain ⟨hkey, hleads⟩ := (admits_iff hvalue).mp h
  -- two known members are different ones, since neither may be read again
  cases hleads with
  | first hname ha hresult =>
    obtain ⟨hkey', hleads'⟩ := (admits_iff hother).mp h'
    cases hleads' with
    | first _ hnone _ => cases hnone
    | second hname' hb hresult' =>
      exact ⟨_, (admits_iff hother).mpr ⟨hkey', .second hname' hb hresult'⟩,
        (admits_iff hvalue).mpr ⟨hkey, .first hname ha hresult⟩⟩
    | other hfirst hsecond =>
      exact ⟨_, (admits_iff hother).mpr ⟨hkey', .other hfirst hsecond⟩, h⟩
  | second hname hb hresult =>
    obtain ⟨hkey', hleads'⟩ := (admits_iff hother).mp h'
    cases hleads' with
    | first hname' ha hresult' =>
      exact ⟨_, (admits_iff hother).mpr ⟨hkey', .first hname' ha hresult'⟩,
        (admits_iff hvalue).mpr ⟨hkey, .second hname hb hresult⟩⟩
    | second _ hnone _ => cases hnone
    | other hfirst hsecond =>
      exact ⟨_, (admits_iff hother).mpr ⟨hkey', .other hfirst hsecond⟩, h⟩
  | other hfirst hsecond =>
    obtain ⟨c, d, rfl⟩ := fields.exists_draft final
    exact ⟨_, h', (admits_iff hvalue).mpr ⟨hkey, .other hfirst hsecond⟩⟩

/-- Members lead to the same state in any order. -/
theorem gathers_perm (fields : TwoFields record β γ)
    {entries others : List (List Char × List Char)} (hvalues : ∀ entry ∈ entries, IsValue entry.2)
    (hperm : entries.Perm others) {state final : σ} (h : record.Gathers state entries final) :
    record.Gathers state others final := by
  -- along the exchanges of neighbours that the order is made of
  induction hperm generalizing state with
  | nil => exact h
  | cons entry _ ih =>
    obtain _ | ⟨hentry, hmore⟩ := h
    exact .cons hentry (ih (List.forall_mem_cons.mp hvalues).2 hmore)
  | swap entry other entries =>
    obtain ⟨hother, hvalues⟩ := List.forall_mem_cons.mp hvalues
    obtain ⟨hentry, -⟩ := List.forall_mem_cons.mp hvalues
    obtain ⟨a, b, rfl⟩ := fields.exists_draft state
    obtain _ | ⟨hadmits, _ | ⟨hadmits', hmore⟩⟩ := h
    obtain ⟨middle, hfirst, hsecond⟩ := exists_admits_swap hother hentry hadmits hadmits'
    exact .cons hfirst (.cons hsecond hmore)
  | trans hperm _ ih ih' =>
    exact ih' (fun entry hentry => hvalues entry (hperm.mem_iff.mpr hentry)) (ih hvalues h)

/-- Members of other names do not fill the place of the second one. -/
theorem second_eq_none {entries : List (List Char × List Char)}
    (hvalues : ∀ entry ∈ entries, IsValue entry.2)
    (hnames : ∀ entry ∈ entries, ∀ name, Spells entry.1 name → String.ofList name ≠ fields.second)
    {a : Option β} {final : σ} (h : record.Gathers (fields.draft a none) entries final) :
    ∃ c, final = fields.draft c none := by
  induction entries generalizing a with
  | nil =>
    cases h
    exact ⟨a, rfl⟩
  | cons entry entries ih =>
    obtain ⟨hvalue, hvalues⟩ := List.forall_mem_cons.mp hvalues
    obtain ⟨hname, hnames⟩ := List.forall_mem_cons.mp hnames
    obtain _ | ⟨hentry, hmore⟩ := h
    obtain ⟨hkey, hleads⟩ := (admits_iff hvalue).mp hentry
    cases hleads with
    | first => exact ih hvalues hnames hmore
    | second heq => exact absurd heq (hname _ hkey)
    | other => exact ih hvalues hnames hmore

end TwoFields

/-! ## Values in a list -/

section Positions

variable {reader : Reader β} {items : List Item} {result : Option β}
variable {space text middle rest left : List Char}

/-- A place where there has to be a value. -/
theorem Record.reads_place_iff {expected : String} {count : Nat} {value : β} :
    Reads (Record.place expected count reader) text value left
      ↔ Reads (Reader.positional (count == 0) reader) text (some value) left := by
  unfold Record.place
  rw [Reads.bind_iff]
  constructor
  · rintro ⟨found, middle, hread, hvalue⟩
    cases found with
    | none => exact absurd hvalue Reads.not_failWithin
    | some other =>
      obtain ⟨rfl, rfl⟩ := Reads.pure_iff.mp hvalue
      exact hread
  · intro hread
    exact ⟨some value, left, hread, Reads.pure value left⟩

/-- A first place where there has to be a value, and a second one where there may be one. -/
theorem Record.reads_places_iff {expected : String} {second : Reader γ} {make : β → Option γ → α}
    {value : α} :
    Reads (do
        let a ← Record.place expected 0 reader
        let b ← Reader.positional false second
        pure (make a b)) text value left
      ↔ ∃ a b middle, Reads (Reader.positional true reader) text (some a) middle
        ∧ Reads (Reader.positional false second) middle b left ∧ some (make a b) = some value := by
  simp only [Reads.bind_iff, Record.reads_place_iff, Reads.pure_iff]
  constructor
  · rintro ⟨a, middle, hfirst, b, _, hsecond, rfl, rfl⟩
    exact ⟨a, b, middle, hfirst, hsecond, rfl⟩
  · rintro ⟨a, b, middle, hfirst, hsecond, hvalue⟩
    exact ⟨a, middle, hfirst, b, left, hsecond, (Option.some.inj hvalue).symm, rfl⟩

theorem reads_positional_next_iff {isFirst : Bool}
    (hitem : ∃ h, Reader.listItem isFirst text = .ok (.next middle h)) :
    Reads (Reader.positional isFirst reader) text result left
      ↔ ∃ value, Reads reader middle value left ∧ some value = result := by
  obtain ⟨hlt, hitem⟩ := hitem
  have hfirst := isFirst.toNat_le
  constructor
  · rintro ⟨hle, hread⟩
    rw [Reader.positional, hitem] at hread
    cases hvalue : reader middle with
    | error fault =>
      simp only [hvalue] at hread
      cases hread
    | ok read =>
      simp only [hvalue] at hread
      cases hread
      exact ⟨read.value, ⟨read.length_le, hvalue⟩, rfl⟩
  · rintro ⟨value, ⟨hleft, hvalue⟩, rfl⟩
    refine ⟨by omega, ?_⟩
    rw [Reader.positional, hitem]
    simp only [hvalue]
    rfl

theorem reads_positional_closer {isFirst : Bool} (htext : afterSpace text = ']' :: rest) :
    Reads (Reader.positional isFirst reader) text none (']' :: rest) := by
  obtain ⟨hle, hitem⟩ : ∃ h, Reader.listItem isFirst text = .ok (.closer (']' :: rest) h) :=
    listItem_closer htext
  refine ⟨hle, ?_⟩
  rw [Reader.positional, hitem]

/-- What is read at a place of a list: the value of the item that stands there, or nothing where the
list ends. The next place is behind the item. -/
inductive AtPlace (reader : Reader β) (rest : List Char) :
    List Item → Option β → List Char → Prop
  /-- The list ends. -/
  | none : AtPlace reader rest [] none (']' :: rest)
  /-- An item stands there. -/
  | some {item : Item} {items : List Item} {value : β} (h : Means reader item.value value) :
      AtPlace reader rest (item :: items) (some value)
        (item.trail ++ (following ']' (items.map Item.text) ++ rest))

theorem reads_positional_iff_of_next (hexact : Exact reader) {item : Item} (hitem : item.Formed)
    {isFirst : Bool}
    (hnext : ∃ h, Reader.listItem isFirst text = .ok (.next (item.value
      ++ (item.trail ++ (following ']' (items.map Item.text) ++ rest))) h)) :
    Reads (Reader.positional isFirst reader) text result left
      ↔ AtPlace reader rest (item :: items) result left := by
  have hdelimits := delimits_append hitem.1.trail
    (delimits_following .list (items.map Item.text) rest)
  rw [reads_positional_next_iff hnext]
  constructor
  · rintro ⟨value, hread, rfl⟩
    obtain ⟨rfl, hmeans⟩ := hexact hitem.2 isSpace_nil hdelimits hread
    exact .some hmeans
  · rintro (_ | hmeans)
    exact ⟨_, hmeans isSpace_nil hdelimits, rfl⟩

/-- What is read at the first place of a list. -/
theorem reads_positional_first_iff (hexact : Exact reader) (hspace : IsSpace space)
    (hitems : ∀ item ∈ items, item.Formed) :
    Reads (Reader.positional true reader)
        (space ++ ([','].intercalate (items.map Item.text) ++ [']']) ++ rest) result left
      ↔ AtPlace reader rest items result left := by
  cases items with
  | nil =>
    have hclose : Reads (Reader.positional true reader) (space ++ [']'] ++ rest) none
        (']' :: rest) :=
      reads_positional_closer (by simpa using afterSpace_append hspace (c := ']') rfl rest)
    constructor
    · intro h
      obtain ⟨rfl, rfl⟩ := h.unique hclose
      exact .none
    · rintro ⟨⟩
      exact hclose
  | cons item items =>
    obtain ⟨hitem, -⟩ := List.forall_mem_cons.mp hitems
    obtain ⟨c, more, hstart, hcloser, hvalue⟩ := hitem.afterSpace_eq hspace
      (following ']' (items.map Item.text) ++ rest)
    rw [List.map_cons, intercalate_append_closer, List.append_assoc, List.append_assoc]
    exact reads_positional_iff_of_next hexact hitem (hvalue ▸ listItem_first hstart hcloser)

/-- What is read at a later place of a list. -/
theorem reads_positional_later_iff (hexact : Exact reader) (hspace : IsSpace space)
    (hitems : ∀ item ∈ items, item.Formed) :
    Reads (Reader.positional false reader)
        (space ++ (following ']' (items.map Item.text) ++ rest)) result left
      ↔ AtPlace reader rest items result left := by
  cases items with
  | nil =>
    have hclose : Reads (Reader.positional false reader) (space ++ ([']'] ++ rest)) none
        (']' :: rest) := reads_positional_closer (afterSpace_append hspace rfl rest)
    constructor
    · intro h
      obtain ⟨rfl, rfl⟩ := h.unique hclose
      exact .none
    · rintro ⟨⟩
      exact hclose
  | cons item items =>
    obtain ⟨hitem, -⟩ := List.forall_mem_cons.mp hitems
    obtain ⟨c, more, hstart, hcloser, hvalue⟩ := hitem.afterSpace_eq isSpace_nil
      (following ']' (items.map Item.text) ++ rest)
    have hcomma : afterSpace (space ++ (following ']' ((item :: items).map Item.text) ++ rest))
        = ',' :: ([] ++ (item.text ++ (following ']' (items.map Item.text) ++ rest))) := by
      simpa [following] using afterSpace_append hspace (c := ',') rfl
        (item.text ++ (following ']' (items.map Item.text) ++ rest))
    exact reads_positional_iff_of_next hexact hitem (hvalue ▸ listItem_later hcomma hstart hcloser)

/-- A list ends where no item is left. -/
theorem reads_listEnd_iff (items : List Item) (hspace : IsSpace space) :
    Reads Reader.listEnd (space ++ (following ']' (items.map Item.text) ++ rest)) () left
      ↔ items = [] ∧ left = rest := by
  unfold Reader.listEnd
  rw [Reads.space_bind_iff]
  cases items with
  | nil =>
    have htext : afterSpace (space ++ (following ']' ([].map Item.text) ++ rest)) = ']' :: rest :=
      afterSpace_append hspace rfl rest
    rw [htext, Reads.peek_bind_iff]
    constructor
    · intro h
      exact ⟨rfl, (h.unique (Reads.skip ']' rest)).2⟩
    · rintro ⟨-, rfl⟩
      exact Reads.skip ']' left
  | cons item items =>
    have htext : afterSpace (space ++ (following ']' ((item :: items).map Item.text) ++ rest))
        = ',' :: (item.text ++ following ']' (items.map Item.text) ++ rest) :=
      afterSpace_append hspace rfl _
    rw [htext, Reads.peek_bind_iff]
    constructor
    · -- whatever stands behind the comma is a fault
      intro h
      exact absurd h (Reads.not_bind fun _ _ => Reads.not_bind fun _ _ => Reads.not_bind fun _ _ =>
        Reads.not_failWithin)
    · rintro ⟨hitems, -⟩
      cases hitems

end Positions

namespace TwoFields

variable {record : Record σ α} {items : List Item} {value : α}
variable {space lead rest left : List Char}

/-- A list stands for an object: it holds the first value, and perhaps the second one. -/
inductive Stands (fields : TwoFields record β γ) : List Item → α → Prop
  /-- The second value is missing. -/
  | one {item : Item} {a : β} {value : α} (h : Means fields.readFirst item.value a)
      (hvalue : fields.ofValues? a none = some value) : fields.Stands [item] value
  /-- Both values are there. -/
  | two {item other : Item} {a : β} {b : γ} {value : α} (h : Means fields.readFirst item.value a)
      (hother : Means fields.readSecond other.value b)
      (hvalue : fields.ofValues? a (some b) = some value) : fields.Stands [item, other] value

/-- What is read of a list that stands for an object. -/
theorem reads_positions_iff (fields : TwoFields record β γ) (hspace : IsSpace space)
    (hitems : ∀ item ∈ items, item.Formed) (hlead : IsSpace lead) :
    Reads record.read (lead ++ (listText space items ++ rest)) value left
      ↔ fields.Stands items value ∧ left = rest := by
  have htext : afterSpace (lead ++ (listText space items ++ rest))
      = '[' :: (space ++ ([','].intercalate (items.map Item.text) ++ [']']) ++ rest) :=
    afterSpace_append hlead rfl _
  have hread : Reads record.read (lead ++ (listText space items ++ rest)) value left
      ↔ ∃ a b middle behind, AtPlace fields.readFirst rest items (some a) middle
        ∧ Reads (Reader.positional false fields.readSecond) middle b behind
        ∧ fields.ofValues? a b = some value ∧ Reads Reader.listEnd behind () left := by
    rw [Record.read, Reads.dispatch_eq_iff htext rfl, Reads.skip_bind_iff]
    constructor
    · intro hread
      obtain ⟨result, behind, hlist, hread⟩ := Reads.bind_iff.mp hread
      obtain ⟨_, _, hend, hpure⟩ := Reads.bind_iff.mp hread
      obtain ⟨rfl, rfl⟩ := Reads.pure_iff.mp hpure
      obtain ⟨a, b, middle, hfirst, hsecond, hvalue⟩ := fields.reads_ofList_iff.mp hlist
      exact ⟨a, b, middle, behind,
        (reads_positional_first_iff fields.exact_first hspace hitems).mp hfirst, hsecond, hvalue,
        hend⟩
    · rintro ⟨a, b, middle, behind, hfirst, hsecond, hvalue, hend⟩
      have hlist := fields.reads_ofList_iff.mpr ⟨a, b, middle,
        (reads_positional_first_iff fields.exact_first hspace hitems).mpr hfirst, hsecond, hvalue⟩
      exact hlist.bind (hend.bind (Reads.pure value left))
  rw [hread]
  constructor
  · -- the second place is behind the first item, and the end is behind the second one
    rintro ⟨a, b, middle, behind, hfirst, hsecond, hvalue, hend⟩
    cases hfirst with
    | @some item items _ hmeans =>
      obtain ⟨hitem, hmore⟩ := List.forall_mem_cons.mp hitems
      rw [reads_positional_later_iff fields.exact_second hitem.1.trail hmore] at hsecond
      cases hsecond with
      | none =>
        obtain ⟨-, rfl⟩ := (reads_listEnd_iff [] isSpace_nil).mp hend
        exact ⟨.one hmeans hvalue, rfl⟩
      | @some other items _ hmeans' =>
        obtain ⟨hother, -⟩ := List.forall_mem_cons.mp hmore
        obtain ⟨rfl, rfl⟩ := (reads_listEnd_iff _ hother.1.trail).mp hend
        exact ⟨.two hmeans hmeans' hvalue, rfl⟩
  · rintro ⟨hstands, rfl⟩
    cases hstands with
    | @one item a _ hmeans hvalue =>
      obtain ⟨hitem, -⟩ := List.forall_mem_cons.mp hitems
      exact ⟨a, none, _, _, .some hmeans,
        (reads_positional_later_iff fields.exact_second hitem.1.trail (List.forall_mem_nil _)).mpr
          .none,
        hvalue, (reads_listEnd_iff [] isSpace_nil).mpr ⟨rfl, rfl⟩⟩
    | @two item other a b _ hmeans hmeans' hvalue =>
      obtain ⟨hitem, hmore⟩ := List.forall_mem_cons.mp hitems
      obtain ⟨hother, -⟩ := List.forall_mem_cons.mp hmore
      exact ⟨a, some b, _, _, .some hmeans,
        (reads_positional_later_iff fields.exact_second hitem.1.trail hmore).mpr (.some hmeans'),
        hvalue, (reads_listEnd_iff [] hother.1.trail).mpr ⟨rfl, rfl⟩⟩

/-- A list that stands for an object is read as the object. -/
theorem means_positions_iff (fields : TwoFields record β γ) (hspace : IsSpace space)
    (hitems : ∀ item ∈ items, item.Formed) :
    Means record.read (listText space items) value ↔ fields.Stands items value :=
  means_iff_of_reads_iff fun _ _ _ hlead => fields.reads_positions_iff hspace hitems hlead

/-- The reader of the objects is exact. -/
theorem exact (fields : TwoFields record β γ) : Exact record.read := by
  intro text hvalue lead rest left value hlead hrest hread
  -- only an object and a list start with a bracket that the reader looks for
  obtain ⟨c, more, rfl, hc, -⟩ := hvalue.exists_cons
  obtain ⟨_, hreader, -⟩ := (Reads.dispatch_iff (afterSpace_append hlead hc _)).mp hread
  split_ifs at hreader with hobject hlist
  · subst hobject
    obtain ⟨space, members, hspace, hmembers, htext⟩ := hvalue.exists_members
    rw [htext] at hread ⊢
    obtain ⟨hfinal, rfl⟩ := (reads_object_iff fields.exactMembers hspace hmembers hlead).mp hread
    exact ⟨rfl, (means_object_iff fields.exactMembers hspace hmembers).mpr hfinal⟩
  · subst hlist
    obtain ⟨space, items, hspace, hitems, htext⟩ := hvalue.exists_items
    rw [htext] at hread ⊢
    obtain ⟨hstands, rfl⟩ := (fields.reads_positions_iff hspace hitems hlead).mp hread
    exact ⟨rfl, (fields.means_positions_iff hspace hitems).mpr hstands⟩

end TwoFields

end Directive.Json
