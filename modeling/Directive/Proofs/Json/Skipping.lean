import Directive.Proofs.Json.Strings

/-!
# Values that are skipped

A value is skipped exactly to its end, however deep its lists and objects nest. A number ends where
what follows goes on no number, every other value ends by itself. Main facts:

* `IsNumber.reads_skipNumber`: a number is skipped.
* `IsValue.reads_skipFrom`: a value is skipped while brackets are open, and then what follows it.
* `IsValue.reads_skipValue`: a value is skipped by itself.
-/

namespace Directive.Json

open Reader (isSpace afterSpace skipFrom skipKey skipNumber skipScalar skipValue startsExponent)
open Token (isDigit)

/-! ## Numbers -/

section Number

variable {text rest : List Char}

/-- Digits are taken up to a character that is none. -/
theorem reads_digits (h : ∀ c ∈ text, isDigit c = true)
    (hrest : ∀ c ∈ rest.head?, isDigit c = false) :
    Reads Reader.digits (text ++ rest) text rest := by
  have hread : Reads Reader.digits (text ++ rest) ((text ++ rest).takeWhile isDigit)
      ((text ++ rest).dropWhile isDigit) := ⟨_, rfl⟩
  have htake : rest.takeWhile isDigit = [] := by
    cases rest with
    | nil => rfl
    | cons c rest => simp [hrest c rfl]
  have hdrop : rest.dropWhile isDigit = rest := by
    cases rest with
    | nil => rfl
    | cons c rest => simp [hrest c rfl]
  rwa [List.takeWhile_append_of_pos h, List.dropWhile_append_of_pos h, htake, hdrop,
    List.append_nil] at hread

theorem IsDigits.exists_cons (h : IsDigits text) :
    ∃ c more, text = c :: more ∧ isDigit c = true := by
  obtain ⟨hne, hdigits⟩ := h
  obtain ⟨c, more, rfl⟩ := List.exists_cons_of_ne_nil hne
  exact ⟨c, more, rfl, hdigits c List.mem_cons_self⟩

theorem ne_sign_of_isDigit {c : Char} (h : isDigit c = true) : c ≠ '+' ∧ c ≠ '-' := by
  constructor <;> (rintro rfl; exact absurd h (by decide))

theorem reads_exponentSign {sign digits : List Char}
    (hsign : sign = [] ∨ sign = ['+'] ∨ sign = ['-']) (hdigits : IsDigits digits)
    (rest : List Char) :
    ∃ isReciprocal, Reads Reader.exponentSign (sign ++ (digits ++ rest)) isReciprocal
      (digits ++ rest) := by
  unfold Reader.exponentSign
  simp only [Reads.peek_bind_iff]
  rcases hsign with rfl | rfl | rfl
  · obtain ⟨c, more, rfl, hc⟩ := hdigits.exists_cons
    obtain ⟨hplus, hminus⟩ := ne_sign_of_isDigit hc
    refine ⟨false, ?_⟩
    simp only [List.nil_append, List.cons_append, List.head?_cons]
    split
    case h_1 heq => exact absurd (Option.some.inj heq) hplus
    case h_2 heq => exact absurd (Option.some.inj heq) hminus
    case h_3 => exact Reads.pure false _
  · exact ⟨false, Reads.skip_bind_iff.mpr (Reads.pure false _)⟩
  · exact ⟨true, Reads.skip_bind_iff.mpr (Reads.pure true _)⟩

theorem IsExponent.reads_skip {exponent : List Char} (h : IsExponent exponent)
    (hrest : Delimits rest) : Reads Reader.skipPerhapsExponent (exponent ++ rest) () rest := by
  unfold Reader.skipPerhapsExponent
  rw [Reads.peek_bind_iff]
  -- without an exponent what follows the number must not look like one
  rcases h with rfl | ⟨mark, sign, digits, hmark, hsign, hdigits, rfl⟩
  · have hnone : rest.head?.any startsExponent = false := by
      cases rest with
      | nil => rfl
      | cons c rest => exact (hrest c rfl).2.2
    rw [List.nil_append, hnone]
    exact Reads.pure () rest
  · obtain ⟨isReciprocal, hread⟩ := reads_exponentSign hsign hdigits rest
    simp only [List.cons_append, List.append_assoc, List.head?_cons, Option.any_some, hmark,
      ↓reduceIte]
    rw [Reads.skip_bind_iff]
    unfold Reader.skipExponent
    refine hread.bind ?_
    have hnext : (digits ++ rest).head?.any isDigit = true := by
      obtain ⟨c, more, rfl, hc⟩ := hdigits.exists_cons
      exact hc
    rw [Reads.peek_bind_iff, hnext]
    exact (reads_digits hdigits.2 fun c hc => (hrest c hc).1).bind (Reads.pure () rest)

/-- The exponent of a number, or what follows the number, starts with no digit. -/
theorem IsExponent.head_append {exponent : List Char} (h : IsExponent exponent)
    (hrest : Delimits rest) : ∀ c ∈ (exponent ++ rest).head?, isDigit c = false ∧ c ≠ '.' := by
  rcases h with rfl | ⟨mark, sign, digits, hmark, -, -, rfl⟩
  · exact fun c hc => ⟨(hrest c hc).1, (hrest c hc).2.1⟩
  · intro c hc
    obtain rfl : mark = c := by simpa using hc
    simp only [startsExponent, Bool.or_eq_true, decide_eq_true_eq] at hmark
    rcases hmark with rfl | rfl <;> decide

theorem reads_skipFraction {places exponent : List Char} (hplaces : IsPlaces places)
    (hexponent : IsExponent exponent) (hrest : Delimits rest) :
    Reads Reader.skipFraction (places ++ (exponent ++ rest)) () rest := by
  have hbehind := hexponent.head_append hrest
  unfold Reader.skipFraction
  rw [Reads.peek_bind_iff]
  rcases hplaces with rfl | ⟨digits, hdigits, rfl⟩
  · have hpoint : (exponent ++ rest).head? ≠ some '.' := fun h => (hbehind '.' h).2 rfl
    rw [List.nil_append, if_neg hpoint]
    exact hexponent.reads_skip hrest
  · obtain ⟨hne, hall⟩ := hdigits
    simp only [List.cons_append, List.head?_cons, ↓reduceIte]
    rw [Reads.skip_bind_iff]
    refine (reads_digits hall fun c hc => (hbehind c hc).1).bind ?_
    rw [if_neg (by simpa using hne)]
    exact hexponent.reads_skip hrest

/-- The places and the exponent of a number, or what follows the number, start with no digit. -/
theorem IsPlaces.head_append {places exponent : List Char} (hplaces : IsPlaces places)
    (hexponent : IsExponent exponent) (hrest : Delimits rest) :
    ∀ c ∈ (places ++ (exponent ++ rest)).head?, isDigit c = false := by
  rcases hplaces with rfl | ⟨digits, -, rfl⟩
  · exact fun c hc => (hexponent.head_append hrest c hc).1
  · intro c hc
    obtain rfl : '.' = c := by simpa using hc
    decide

theorem reads_skipUnsigned {whole places exponent : List Char} (hwhole : IsWhole whole)
    (hplaces : IsPlaces places) (hexponent : IsExponent exponent) (hrest : Delimits rest) :
    Reads Reader.skipUnsigned (whole ++ (places ++ (exponent ++ rest))) () rest := by
  have hbehind := hplaces.head_append hexponent hrest
  have hfraction := reads_skipFraction hplaces hexponent hrest
  unfold Reader.skipUnsigned
  rw [Reads.peek_bind_iff]
  -- behind a zero no digit may follow; other digits are taken as far as they go
  rcases hwhole with rfl | ⟨⟨hne, hall⟩, hzero⟩
  · have hnone : (places ++ (exponent ++ rest)).head?.any isDigit = false := by
      cases hhead : (places ++ (exponent ++ rest)).head? with
      | none => rfl
      | some c => exact hbehind c hhead
    change Reads (Reader.skip >>= _) ('0' :: (places ++ (exponent ++ rest))) () rest
    rw [Reads.skip_bind_iff, Reads.peek_bind_iff, hnone]
    exact hfraction
  · obtain ⟨c, more, rfl⟩ := List.exists_cons_of_ne_nil hne
    have hc : isDigit c = true := hall c List.mem_cons_self
    simp only [List.cons_append, List.head?_cons]
    split
    case h_1 heq => exact absurd heq hzero
    case h_2 =>
      simp only [Option.any_some, hc, ↓reduceIte]
      exact (reads_digits hall hbehind).bind hfraction

/-- A number is skipped. -/
theorem IsNumber.reads_skipNumber (h : IsNumber text) (hrest : Delimits rest) :
    Reads skipNumber (text ++ rest) () rest := by
  cases h with
  | @mk sign whole places exponent hsign hwhole hplaces hexponent =>
    have hunsigned := reads_skipUnsigned hwhole hplaces hexponent hrest
    unfold skipNumber
    simp only [List.append_assoc]
    rw [Reads.peek_bind_iff]
    rcases hsign with rfl | rfl
    · have hnone : (whole ++ (places ++ (exponent ++ rest))).head? ≠ some '-' := by
        rcases hwhole with rfl | ⟨hdigits, -⟩
        · simp
        · obtain ⟨c, more, rfl, hc⟩ := hdigits.exists_cons
          simpa using (ne_sign_of_isDigit hc).2
      rw [List.nil_append, if_neg hnone]
      exact hunsigned
    · exact (Reads.skip '-' _).bind hunsigned

end Number

/-! ## Stages -/

section Stages

variable {frame : Frame} {frames : List Frame} {text middle rest left : List Char} {c : Char}

theorem reads_skipFrom_done (text : List Char) : Reads (skipFrom .closed []) text () text := by
  refine ⟨Nat.le_refl _, ?_⟩
  rw [skipFrom]

theorem reads_skipFrom_comma (htext : afterSpace text = ',' :: middle)
    (hkey : Reads (skipKey frame) middle () rest)
    (h : Reads (skipFrom .value (frame :: frames)) rest () left) :
    Reads (skipFrom .closed (frame :: frames)) text () left := by
  have hlt := Reader.length_lt_of_afterSpace htext
  obtain ⟨hrest, hkey⟩ := hkey
  obtain ⟨hleft, hread⟩ := h
  refine ⟨by omega, ?_⟩
  rw [skipFrom]
  split
  case h_1 hnil => cases htext.symm.trans hnil
  case h_2 hcons =>
    obtain ⟨rfl, rfl⟩ := List.cons.inj (htext.symm.trans hcons)
    simp only [↓reduceIte, hkey, hread]
    rfl

theorem reads_skipFrom_closer (htext : afterSpace text = frame.closer :: rest)
    (h : Reads (skipFrom .closed frames) rest () left) :
    Reads (skipFrom .closed (frame :: frames)) text () left := by
  have hlt := Reader.length_lt_of_afterSpace htext
  have hcomma : frame.closer ≠ ',' := by cases frame <;> decide
  obtain ⟨hleft, hread⟩ := h
  refine ⟨by omega, ?_⟩
  rw [skipFrom]
  split
  case h_1 hnil => cases htext.symm.trans hnil
  case h_2 hcons =>
    obtain ⟨rfl, rfl⟩ := List.cons.inj (htext.symm.trans hcons)
    simp only [hcomma, ↓reduceIte, hread]
    rfl

theorem reads_skipFrom_scalar (htext : afterSpace text = c :: middle)
    (hopener : Frame.ofOpener? c = none) (hscalar : Reads (skipScalar c) (c :: middle) () rest)
    (h : Reads (skipFrom .closed frames) rest () left) :
    Reads (skipFrom .value frames) text () left := by
  have hlt := Reader.length_lt_of_afterSpace htext
  obtain ⟨hrest, hscalar⟩ := hscalar
  obtain ⟨hleft, hread⟩ := h
  simp only [List.length_cons] at hrest
  refine ⟨by omega, ?_⟩
  rw [skipFrom]
  split
  case h_1 hnil => cases htext.symm.trans hnil
  case h_2 hcons =>
    obtain ⟨rfl, rfl⟩ := List.cons.inj (htext.symm.trans hcons)
    simp only [hopener, hscalar, hread]
    rfl

theorem reads_skipFrom_opener (htext : afterSpace text = c :: rest)
    (hopener : Frame.ofOpener? c = some frame)
    (h : Reads (skipFrom (.opened frame) frames) rest () left) :
    Reads (skipFrom .value frames) text () left := by
  have hlt := Reader.length_lt_of_afterSpace htext
  obtain ⟨hleft, hread⟩ := h
  refine ⟨by omega, ?_⟩
  rw [skipFrom]
  split
  case h_1 hnil => cases htext.symm.trans hnil
  case h_2 hcons =>
    obtain ⟨rfl, rfl⟩ := List.cons.inj (htext.symm.trans hcons)
    simp only [hopener, hread]
    rfl

theorem reads_skipFrom_empty (htext : afterSpace text = frame.closer :: rest)
    (h : Reads (skipFrom .closed frames) rest () left) :
    Reads (skipFrom (.opened frame) frames) text () left := by
  have hlt := Reader.length_lt_of_afterSpace htext
  obtain ⟨hleft, hread⟩ := h
  refine ⟨by omega, ?_⟩
  rw [skipFrom]
  split
  case h_1 hnil => cases htext.symm.trans hnil
  case h_2 hcons =>
    obtain ⟨rfl, rfl⟩ := List.cons.inj (htext.symm.trans hcons)
    simp only [↓reduceIte, hread]
    rfl

theorem reads_skipFrom_first (htext : afterSpace text = c :: middle) (hc : c ≠ frame.closer)
    (hkey : Reads (skipKey frame) (c :: middle) () rest)
    (h : Reads (skipFrom .value (frame :: frames)) rest () left) :
    Reads (skipFrom (.opened frame) frames) text () left := by
  have hlt := Reader.length_lt_of_afterSpace htext
  obtain ⟨hrest, hkey⟩ := hkey
  obtain ⟨hleft, hread⟩ := h
  simp only [List.length_cons] at hrest
  refine ⟨by omega, ?_⟩
  rw [skipFrom]
  split
  case h_1 hnil => cases htext.symm.trans hnil
  case h_2 hcons =>
    obtain ⟨rfl, rfl⟩ := List.cons.inj (htext.symm.trans hcons)
    simp only [hc, ↓reduceIte, hkey, hread]
    rfl

end Stages

/-! ## Lists and objects -/

/-- A text is skipped as an item of a frame, from behind space: when it has been skipped, what
follows it is skipped from where the frame is still open. -/
structure SkippedIn (frame : Frame) (text : List Char) : Prop where
  /-- It starts with a character that is no space and does not close the frame. -/
  starts : ∃ c more, text = c :: more ∧ isSpace c = false ∧ c ≠ frame.closer
  /-- It is skipped, with its key if it has one. -/
  skips : ∀ {frames : List Frame} {rest left lead : List Char}, IsSpace lead → Delimits rest →
    (∀ trail, IsSpace trail → Reads (skipFrom .closed (frame :: frames)) (trail ++ rest) () left) →
    ∃ value, Reads (skipKey frame) (lead ++ (text ++ rest)) () value
      ∧ Reads (skipFrom .value (frame :: frames)) value () left

/-- A text is skipped as an item, with the space in front of it. -/
def SkippedItem (frame : Frame) (text : List Char) : Prop :=
  ∃ lead core, text = lead ++ core ∧ IsSpace lead ∧ SkippedIn frame core

section Brackets

variable {frame : Frame} {frames : List Frame} {texts : List (List Char)} {rest left : List Char}

/-- What follows the first item is skipped up to the closing bracket. -/
theorem reads_following (htexts : ∀ text ∈ texts, SkippedItem frame text)
    (h : Reads (skipFrom .closed frames) rest () left) {trail : List Char}
    (htrail : IsSpace trail) :
    Reads (skipFrom .closed (frame :: frames)) (trail ++ (following frame.closer texts ++ rest)) ()
      left := by
  induction texts generalizing trail with
  | nil =>
    have hcloser : isSpace frame.closer = false := by cases frame <;> rfl
    exact reads_skipFrom_closer (afterSpace_append htrail hcloser rest) h
  | cons text texts ih =>
    obtain ⟨⟨lead, core, rfl, hlead, hcore⟩, hmore⟩ := List.forall_mem_cons.mp htexts
    obtain ⟨value, hkey, hvalue⟩ := hcore.skips hlead
      (delimits_following frame texts rest) fun _ => ih hmore
    have htext : following frame.closer ((lead ++ core) :: texts) ++ rest
        = ',' :: (lead ++ (core ++ (following frame.closer texts ++ rest))) := by simp [following]
    rw [htext]
    exact reads_skipFrom_comma (afterSpace_append htrail rfl _) hkey hvalue

/-- What follows an opening bracket is skipped up to the closing one. -/
theorem reads_opened (frame : Frame) {opener : Char} {space : List Char} (hspace : IsSpace space)
    (htexts : ∀ text ∈ texts, SkippedItem frame text)
    (h : Reads (skipFrom .closed frames) rest () left)
    (hopener : Frame.ofOpener? opener = some frame) {lead : List Char} (hlead : IsSpace lead) :
    Reads (skipFrom .value frames) (lead ++ (enclosed opener frame.closer space texts ++ rest)) ()
      left := by
  have hnospace : isSpace opener = false := by
    cases hc : isSpace opener with
    | false => rfl
    | true =>
      simp only [isSpace, Bool.or_eq_true, decide_eq_true_eq] at hc
      rcases hc with ((rfl | rfl) | rfl) | rfl <;> cases hopener
  cases texts with
  | nil =>
    have hcloser : isSpace frame.closer = false := by cases frame <;> rfl
    rw [enclosed_nil, List.cons_append, List.append_assoc, List.singleton_append]
    exact reads_skipFrom_opener (afterSpace_append hlead hnospace _) hopener
      (reads_skipFrom_empty (afterSpace_append hspace hcloser rest) h)
  | cons text texts =>
    obtain ⟨⟨inner, core, rfl, hinner, hcore⟩, hmore⟩ := List.forall_mem_cons.mp htexts
    obtain ⟨value, hkey, hvalue⟩ := hcore.skips isSpace_nil
      (delimits_following frame texts rest) fun _ => reads_following hmore h
    obtain ⟨c, more, rfl, hc, hcloser⟩ := hcore.starts
    -- the space behind the bracket and in front of the item is skipped at once
    have hboth : IsSpace (space ++ inner) := List.forall_mem_append.mpr ⟨hspace, hinner⟩
    have htext : enclosed opener frame.closer space ((inner ++ c :: more) :: texts) ++ rest
        = opener :: (space ++ inner ++ c :: (more ++ (following frame.closer texts ++ rest))) := by
      simp [enclosed_cons]
    rw [htext]
    exact reads_skipFrom_opener (afterSpace_append hlead hnospace _) hopener
      (reads_skipFrom_first (afterSpace_append hboth hc _) hcloser hkey hvalue)

end Brackets

/-! ## Values -/

/-- A value is skipped wherever it stands, and then what follows it. -/
def Skipped (value : List Char) : Prop :=
  ∀ ⦃frames : List Frame⦄ ⦃lead rest left : List Char⦄, IsSpace lead → Delimits rest →
    Reads (skipFrom .closed frames) rest () left →
    Reads (skipFrom .value frames) (lead ++ (value ++ rest)) () left

theorem Item.skippedItem {item : Item} (hspaced : item.Spaced) (hvalue : IsValue item.value)
    (h : Skipped item.value) : SkippedItem .list item.text := by
  refine ⟨item.lead, item.value ++ item.trail, rfl, hspaced.lead, ?starts, ?skips⟩
  case starts =>
    obtain ⟨c, more, htext, hc, hcloser⟩ := hvalue.exists_cons
    exact ⟨c, more ++ item.trail, by rw [htext]; rfl, hc, hcloser⟩
  case skips =>
    intro frames rest left lead hlead hrest hclosed
    refine ⟨_, Reads.pure () _, ?_⟩
    rw [List.append_assoc]
    exact h hlead (delimits_append hspaced.trail hrest) (hclosed _ hspaced.trail)

theorem Member.skippedItem {member : Member} (hspaced : member.Spaced)
    (h : Skipped member.value) : SkippedItem .object member.text := by
  refine ⟨member.start, _, rfl, hspaced.start, ⟨'\x22', _, rfl, rfl, by decide⟩, ?_⟩
  intro frames rest left lead hlead hrest hclosed
  refine ⟨member.toItem.text ++ rest, ?key, ?value⟩
  case key =>
    unfold skipKey
    rw [Reads.space_bind_iff, List.cons_append, afterSpace_append hlead rfl, Reads.peek_bind_iff]
    simp only [List.head?_cons, ↓reduceIte, List.append_assoc, List.cons_append]
    rw [Reads.skip_bind_iff]
    exact (hspaced.key.reads_skipString _).bind (Reads.colon (afterSpace_append hspaced.gap rfl _))
  case value =>
    rw [Item.text, List.append_assoc, List.append_assoc]
    exact h hspaced.lead (delimits_append hspaced.trail hrest) (hclosed _ hspaced.trail)

/-- A scalar is skipped by the reader that its first character asks for. -/
theorem skipped_of_scalar {c : Char} {more : List Char} (hspace : isSpace c = false)
    (hopener : Frame.ofOpener? c = none)
    (h : ∀ rest, Delimits rest → Reads (skipScalar c) (c :: (more ++ rest)) () rest) :
    Skipped (c :: more) := by
  intro frames lead rest left hlead hrest hclosed
  exact reads_skipFrom_scalar (afterSpace_append hlead hspace _) hopener (h rest hrest) hclosed

theorem IsNumber.skipped {value : List Char} (h : IsNumber value) : Skipped value := by
  obtain ⟨c, more, rfl, hc⟩ := h.exists_cons
  -- no other scalar and no bracket starts with a sign or a digit
  have hne {d : Char} (hsign : d ≠ '-') (hdigit : isDigit d = false) : c ≠ d := by
    rintro rfl
    exact IsValue.not_isNumber hsign hdigit h
  have hscalar : skipScalar c = skipNumber := by
    have hstart : (c = '-' || isDigit c) = true := by simpa using hc
    unfold skipScalar
    rw [if_neg (hne (by decide) (by decide)), if_neg (hne (by decide) (by decide)),
      if_neg (hne (by decide) (by decide)), if_neg (hne (by decide) (by decide)), if_pos hstart]
  have hopener : Frame.ofOpener? c = none := by
    unfold Frame.ofOpener?
    split
    case h_1 => exact absurd rfl (hne (by decide) (by decide))
    case h_2 => exact absurd rfl (hne (by decide) (by decide))
    case h_3 => rfl
  obtain ⟨d, others, htext, hspace, -⟩ := (IsValue.number h).exists_cons
  obtain ⟨rfl, rfl⟩ := List.cons.inj htext
  have hread (rest : List Char) (hrest : Delimits rest) :
      Reads (skipScalar c) (c :: (more ++ rest)) () rest := by
    rw [hscalar]
    exact h.reads_skipNumber hrest
  exact skipped_of_scalar hspace hopener hread

/-- A value is skipped. -/
theorem IsValue.skipped {value : List Char} (h : IsValue value) : Skipped value := by
  -- on the value: what is open around it does not matter, so that it may be an item of another one
  induction h with
  | nullWord => exact skipped_of_scalar rfl rfl fun rest _ => Reads.word ['n', 'u', 'l', 'l'] rest
  | trueWord => exact skipped_of_scalar rfl rfl fun rest _ => Reads.word ['t', 'r', 'u', 'e'] rest
  | falseWord =>
    exact skipped_of_scalar rfl rfl fun rest _ => Reads.word ['f', 'a', 'l', 's', 'e'] rest
  | number h => exact h.skipped
  | string hbody =>
    refine skipped_of_scalar rfl rfl fun rest _ => ?_
    rw [List.append_assoc]
    exact (Reads.skip '\x22' _).bind (hbody.reads_skipString rest)
  | list hspace hitems h ih =>
    intro frames lead rest left hlead _ hclosed
    refine reads_opened .list hspace (fun text htext => ?_) hclosed rfl hlead
    obtain ⟨item, hitem, rfl⟩ := List.mem_map.mp htext
    exact item.skippedItem (hitems item hitem) (h item hitem) (ih item hitem)
  | object hspace hmembers _ ih =>
    intro frames lead rest left hlead _ hclosed
    refine reads_opened .object hspace (fun text htext => ?_) hclosed rfl hlead
    obtain ⟨member, hmember, rfl⟩ := List.mem_map.mp htext
    exact member.skippedItem (hmembers member hmember) (ih member hmember)

/-- A value is skipped by itself, from behind space and exactly to its end. -/
theorem IsValue.reads_skipValue {value : List Char} (h : IsValue value) {lead rest : List Char}
    (hlead : IsSpace lead) (hrest : Delimits rest) :
    Reads skipValue (lead ++ (value ++ rest)) () rest :=
  h.skipped hlead hrest (reads_skipFrom_done rest)

end Directive.Json
