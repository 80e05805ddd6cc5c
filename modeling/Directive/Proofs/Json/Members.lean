import Directive.Proofs.Json.Values

/-!
# Members of an object

The members of an object lead a record from one state to the next, each by its key and its value
alone, wherever they stand. Main facts:

* `reads_object_iff`: an object is read as what its members lead to.
* `Record.Gathers.append_iff`: members in a row lead on from where those in front of them led to.
-/

namespace Directive.Json

open Reader (isSpace afterSpace)

variable {α σ : Type}

/-- The key and the value of a member. -/
def Member.entry (member : Member) : List Char × List Char :=
  (member.key, member.value)

namespace Record

variable (record : Record σ α)

/-- A member leads a record from one state to the next: the record admits the name that the key
spells, and the value is read wherever it stands. -/
structure Admits (state : σ) (entry : List Char × List Char) (name : List Char) (next : σ) :
    Prop where
  /-- The key spells the name. -/
  key : Spells entry.1 name
  /-- The value is read as the next state. -/
  value : ∃ reader, record.member state (String.ofList name) = .ok reader
    ∧ Means reader entry.2 next

/-- Members lead a record from one state to another, one after the other. -/
inductive Gathers : σ → List (List Char × List Char) → σ → Prop
  /-- No members leave the state as it is. -/
  | nil (state : σ) : Gathers state [] state
  /-- A member leads to the state from which the other ones go on. -/
  | cons {state next final : σ} {entry : List Char × List Char}
      {entries : List (List Char × List Char)} {name : List Char}
      (hentry : record.Admits state entry name next) (hmore : Gathers next entries final) :
      Gathers state (entry :: entries) final

/-- All values of members are read by readers that are exact. -/
def ExactMembers : Prop :=
  ∀ ⦃state : σ⦄ ⦃name : String⦄ ⦃reader : Reader σ⦄, record.member state name = .ok reader →
    Exact reader

variable {record}

/-- Members in a row lead on from where those in front of them led to. -/
theorem Gathers.append_iff {state final : σ} {entries others : List (List Char × List Char)} :
    record.Gathers state (entries ++ others) final
      ↔ ∃ middle, record.Gathers state entries middle ∧ record.Gathers middle others final := by
  induction entries generalizing state with
  | nil =>
    constructor
    · exact fun h => ⟨state, .nil state, h⟩
    · rintro ⟨_, ⟨⟩, h⟩
      exact h
  | cons entry entries ih =>
    constructor
    · rintro (_ | ⟨hentry, hmore⟩)
      obtain ⟨middle, hentries, hothers⟩ := ih.mp hmore
      exact ⟨middle, .cons hentry hentries, hothers⟩
    · rintro ⟨middle, _ | ⟨hentry, hentries⟩, hothers⟩
      exact .cons hentry (ih.mpr ⟨middle, hentries, hothers⟩)

end Record

section Object

variable {record : Record σ α} {state final : σ} {members : List Member}
variable {space lead text middle rest left : List Char}

/-- A member is read as its key, the colon and the value that the record asks for, and then come the
other members. -/
theorem reads_membersFrom_next_iff {isFirst : Bool}
    (hitem : ∃ h, Reader.objectItem isFirst text = .ok (.next ('\x22' :: middle) h)) :
    Reads (record.membersFrom isFirst state) text final left
      ↔ ∃ key afterKey reader next behind, Reads Reader.string middle key afterKey
        ∧ record.member state key = .ok reader
        ∧ Reads (do Reader.colon; reader) afterKey next behind
        ∧ Reads (record.membersFrom false next) behind final left := by
  obtain ⟨hlt, hitem⟩ := hitem
  have hfirst := isFirst.toNat_le
  constructor
  · -- a reading goes through all stages: the key, its reader, the value, and the other members
    rintro ⟨hle, hread⟩
    rw [Record.membersFrom, hitem] at hread
    simp only [List.tail_cons] at hread
    cases hstring : Reader.string middle with
    | error fault => simp [hstring] at hread
    | ok read =>
      obtain ⟨key, afterKey, hkey⟩ := read
      simp only [hstring] at hread
      cases hmember : record.member state key with
      | error cause => simp [hmember] at hread
      | ok reader =>
        simp only [hmember] at hread
        cases hvalue : (do Reader.colon; reader : Reader σ) afterKey with
        | error fault => simp [hvalue] at hread
        | ok read =>
          obtain ⟨next, behind, hbehind⟩ := read
          simp only [hvalue] at hread
          cases hmore : record.membersFrom false next behind with
          | error fault =>
            rw [hmore] at hread
            cases hread
          | ok read =>
            rw [hmore] at hread
            cases hread
            exact ⟨key, afterKey, reader, next, behind, ⟨hkey, hstring⟩, hmember, ⟨hbehind, hvalue⟩,
              ⟨read.length_le, hmore⟩⟩
  · rintro ⟨key, afterKey, reader, next, behind, ⟨hkey, hstring⟩, hmember, ⟨hbehind, hvalue⟩,
      ⟨hleft, hmore⟩⟩
    simp only [List.length_cons] at hlt
    refine ⟨by omega, ?_⟩
    rw [Record.membersFrom, hitem]
    simp only [List.tail_cons, hstring, hmember, hvalue, hmore]
    rfl

/-- What is read of a member at its key, when the text between the members around it is `rest`. -/
theorem reads_member_iff (hexact : record.ExactMembers) {member : Member} (hmember : member.Formed)
    (hrest : Delimits rest) {isFirst : Bool}
    (hitem : ∃ h, Reader.objectItem isFirst text = .ok (.next ('\x22' :: (member.key
      ++ '\x22' :: (member.gap ++ ':' :: (member.toItem.text ++ rest)))) h)) :
    Reads (record.membersFrom isFirst state) text final left
      ↔ ∃ name next, record.Admits state member.entry name next
        ∧ Reads (record.membersFrom false next) (member.trail ++ rest) final left := by
  obtain ⟨hspaced, hvalue⟩ := hmember
  have hdelimits := delimits_append hspaced.trail hrest
  have hcolon : afterSpace (member.gap ++ ':' :: (member.toItem.text ++ rest))
      = ':' :: (member.lead ++ (member.value ++ (member.trail ++ rest))) := by
    rw [afterSpace_append hspaced.gap rfl, Item.text, List.append_assoc, List.append_assoc]
  rw [reads_membersFrom_next_iff hitem]
  constructor
  · rintro ⟨key, afterKey, reader, next, behind, hkey, hreader, hread, hmore⟩
    obtain ⟨name, hname, rfl, rfl⟩ := hspaced.key.reads_string_iff.mp hkey
    rw [(Reads.colon hcolon).bind_eq_iff] at hread
    obtain ⟨rfl, hmeans⟩ := hexact hreader hvalue hspaced.lead hdelimits hread
    exact ⟨name, next, ⟨hname, reader, hreader, hmeans⟩, hmore⟩
  · rintro ⟨name, next, ⟨hname, reader, hreader, hmeans⟩, hmore⟩
    refine ⟨String.ofList name, _, reader, next, _,
      hspaced.key.reads_string_iff.mpr ⟨name, hname, rfl, rfl⟩, hreader, ?_, hmore⟩
    rw [(Reads.colon hcolon).bind_eq_iff]
    exact hmeans hspaced.lead hdelimits

/-- What is read of the members of an object after the first one. -/
theorem reads_membersFrom_following_iff (hexact : record.ExactMembers)
    (hmembers : ∀ member ∈ members, member.Formed) {trail : List Char} (htrail : IsSpace trail) :
    Reads (record.membersFrom false state)
        (trail ++ (following '\x7d' (members.map Member.text) ++ rest)) final left
      ↔ record.Gathers state (members.map Member.entry) final ∧ left = '\x7d' :: rest := by
  induction members generalizing state trail with
  | nil =>
    have hclose : Reads (record.membersFrom false state) (trail ++ (['\x7d'] ++ rest)) state
        ('\x7d' :: rest) := reads_membersFrom_closer (afterSpace_append htrail rfl rest)
    constructor
    · intro h
      obtain ⟨rfl, rfl⟩ := h.unique hclose
      exact ⟨.nil _, rfl⟩
    · rintro ⟨⟨⟩, rfl⟩
      exact hclose
  | cons member members ih =>
    obtain ⟨hmember, hmore⟩ := List.forall_mem_cons.mp hmembers
    have hcomma : afterSpace (trail
          ++ (following '\x7d' ((member :: members).map Member.text) ++ rest))
        = ',' :: (member.text ++ (following '\x7d' (members.map Member.text) ++ rest)) := by
      simpa [following] using afterSpace_append htrail (c := ',') rfl
        (member.text ++ (following '\x7d' (members.map Member.text) ++ rest))
    have hkey := afterSpace_append hmember.1.start (c := '\x22') rfl (member.key
      ++ '\x22' :: (member.gap ++ ':' :: (member.toItem.text
        ++ (following '\x7d' (members.map Member.text) ++ rest))))
    have hdelimits : Delimits (following '\x7d' (members.map Member.text) ++ rest) :=
      delimits_following .object _ rest
    rw [reads_member_iff hexact hmember hdelimits
      (objectItem_later hcomma (by simpa [Member.text] using hkey))]
    constructor
    · rintro ⟨name, next, hadmits, hread⟩
      obtain ⟨hgathers, rfl⟩ := (ih hmore hmember.1.trail).mp hread
      exact ⟨.cons hadmits hgathers, rfl⟩
    · rintro ⟨_ | ⟨hadmits, hgathers⟩, rfl⟩
      exact ⟨_, _, hadmits, (ih hmore hmember.1.trail).mpr ⟨hgathers, rfl⟩⟩

/-- What is read of the members of an object. -/
theorem reads_membersFrom_iff (hexact : record.ExactMembers) (hspace : IsSpace space)
    (hmembers : ∀ member ∈ members, member.Formed) :
    Reads (record.membersFrom true state)
        (space ++ ([','].intercalate (members.map Member.text) ++ ['\x7d']) ++ rest) final left
      ↔ record.Gathers state (members.map Member.entry) final ∧ left = '\x7d' :: rest := by
  cases members with
  | nil =>
    have hclose : Reads (record.membersFrom true state) (space ++ ['\x7d'] ++ rest) state
        ('\x7d' :: rest) :=
      reads_membersFrom_closer (by simpa using afterSpace_append hspace (c := '\x7d') rfl rest)
    constructor
    · intro h
      obtain ⟨rfl, rfl⟩ := h.unique hclose
      exact ⟨.nil _, rfl⟩
    · rintro ⟨⟨⟩, rfl⟩
      exact hclose
  | cons member members =>
    obtain ⟨hmember, hmore⟩ := List.forall_mem_cons.mp hmembers
    -- the space behind the bracket and in front of the key is skipped at once
    have hboth : IsSpace (space ++ member.start) :=
      List.forall_mem_append.mpr ⟨hspace, hmember.1.start⟩
    have hkey := afterSpace_append hboth (c := '\x22') rfl (member.key
      ++ '\x22' :: (member.gap ++ ':' :: (member.toItem.text
        ++ (following '\x7d' (members.map Member.text) ++ rest))))
    have hdelimits : Delimits (following '\x7d' (members.map Member.text) ++ rest) :=
      delimits_following .object _ rest
    rw [List.map_cons, intercalate_append_closer,
      reads_member_iff hexact hmember hdelimits
        (objectItem_first (by simpa [Member.text] using hkey))]
    constructor
    · rintro ⟨name, next, hadmits, hread⟩
      obtain ⟨hgathers, rfl⟩ :=
        (reads_membersFrom_following_iff hexact hmore hmember.1.trail).mp hread
      exact ⟨.cons hadmits hgathers, rfl⟩
    · rintro ⟨_ | ⟨hadmits, hgathers⟩, rfl⟩
      exact ⟨_, _, hadmits,
        (reads_membersFrom_following_iff hexact hmore hmember.1.trail).mpr ⟨hgathers, rfl⟩⟩

/-- An object is closed if what has been read of it is all that it needs. -/
theorem reads_close_iff {value : α} :
    Reads (record.close state) ('\x7d' :: rest) value left
      ↔ record.finish state = .ok value ∧ left = rest := by
  unfold Record.close
  cases hfinish : record.finish state with
  | error cause => simp [Reads.not_failWithin]
  | ok result =>
    simp only [Reads.skip_bind_iff, Reads.pure_iff, Except.ok.injEq]
    exact and_congr_left fun _ => eq_comm

/-- What is read of an object is what its members lead to. -/
theorem reads_object_iff (hexact : record.ExactMembers) (hspace : IsSpace space)
    (hmembers : ∀ member ∈ members, member.Formed) (hlead : IsSpace lead) {value : α} :
    Reads record.read (lead ++ (objectText space members ++ rest)) value left
      ↔ (∃ final, record.Gathers record.start (members.map Member.entry) final
        ∧ record.finish final = .ok value) ∧ left = rest := by
  have htext : afterSpace (lead ++ (objectText space members ++ rest))
      = '{' :: (space ++ ([','].intercalate (members.map Member.text) ++ ['\x7d']) ++ rest) :=
    afterSpace_append hlead rfl _
  rw [Record.read, Reads.dispatch_eq_iff htext rfl, Reads.skip_bind_iff]
  refine Reads.bind_iff.trans ?_
  constructor
  · rintro ⟨final, middle, hfinal, hclose⟩
    obtain ⟨hgathers, rfl⟩ := (reads_membersFrom_iff hexact hspace hmembers).mp hfinal
    obtain ⟨hfinish, rfl⟩ := reads_close_iff.mp hclose
    exact ⟨⟨final, hgathers, hfinish⟩, rfl⟩
  · rintro ⟨⟨final, hgathers, hfinish⟩, rfl⟩
    exact ⟨final, '\x7d' :: left,
      (reads_membersFrom_iff hexact hspace hmembers).mpr ⟨hgathers, rfl⟩,
      reads_close_iff.mpr ⟨hfinish, rfl⟩⟩

/-- An object is read as what its members lead to. -/
theorem means_object_iff (hexact : record.ExactMembers) (hspace : IsSpace space)
    (hmembers : ∀ member ∈ members, member.Formed) {value : α} :
    Means record.read (objectText space members) value
      ↔ ∃ final, record.Gathers record.start (members.map Member.entry) final
        ∧ record.finish final = .ok value :=
  means_iff_of_reads_iff fun _ _ _ hlead => reads_object_iff hexact hspace hmembers hlead

end Object

end Directive.Json
