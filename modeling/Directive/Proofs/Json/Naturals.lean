import Directive.Proofs.Json.Values

/-!
# Natural numbers that are read

A count is read from digits alone, without a sign, a point or an exponent, and it is the number that
the digits stand for: digits that stand for `2 ^ 64` or more are not read as any count. Main facts:

* `gather_eq_iff`: digits are gathered to their end if they stand for a number within the limit.
* `IsNumber.reads_natural_iff`: the numbers that are read as integers from zero on.
* `exact_count`, `means_count_toDigits_iff`: what is read as a count.
-/

namespace Directive.Json

open Reader (startsExponent)
open Number (digitValue gather maxMantissa)
open Token (isDigit)

/-! ## Digits -/

section Digits

variable {limit value result : Nat} {digits : List Char}

/-- Digits behind a number make it no smaller. -/
theorem le_ofDigitChars (value : Nat) (digits : List Char) :
    value ≤ Nat.ofDigitChars 10 digits value := by
  induction digits generalizing value with
  | nil => exact Nat.le_refl value
  | cons c digits ih =>
    rw [Nat.ofDigitChars_cons]
    exact Nat.le_trans (by omega) (ih _)

/-- Digits are gathered to their end if they stand for a number within the limit. -/
theorem gather_eq_iff (hvalue : value ≤ limit) :
    gather limit value digits = (result, [])
      ↔ Nat.ofDigitChars 10 digits value = result ∧ result ≤ limit := by
  induction digits generalizing value with
  | nil =>
    simp only [gather, Nat.ofDigitChars_nil, Prod.mk.injEq, and_true]
    exact ⟨fun h => ⟨h, h ▸ hvalue⟩, fun h => h.1⟩
  | cons c digits ih =>
    have hnext : 10 * value + (c.toNat - '0'.toNat) = value * 10 + digitValue c := by
      rw [Nat.mul_comm, digitValue]
    rw [Nat.ofDigitChars_cons, hnext, gather]
    split_ifs with hfits
    · exact ih hfits
    · -- the digits that are left would take the number further beyond the limit
      have hle := le_ofDigitChars (value * 10 + digitValue c) digits
      refine iff_of_false (by simp) ?_
      rintro ⟨rfl, hresult⟩
      exact hfits (Nat.le_trans hle hresult)

theorem isDigit_of_isWhole {text : List Char} (h : IsWhole text) :
    ∀ c ∈ text, isDigit c = true := by
  rcases h with rfl | ⟨⟨-, hdigits⟩, -⟩
  · intro c hc
    obtain rfl := List.mem_singleton.mp hc
    rfl
  · exact hdigits

/-- Digits stand in front of no point and no mark of an exponent. -/
theorem isWhole_append_iff {whole places exponent : List Char} (hwhole : IsWhole whole)
    (hplaces : IsPlaces places) (hexponent : IsExponent exponent) :
    IsWhole (whole ++ (places ++ exponent)) ↔ places = [] ∧ exponent = [] := by
  constructor
  · intro h
    have hdigits := isDigit_of_isWhole h
    constructor
    · rcases hplaces with hnil | ⟨digits, -, rfl⟩
      · exact hnil
      · exact absurd (hdigits '.' (by simp)) (by decide)
    · rcases hexponent with hnil | ⟨mark, sign, digits, hmark, -, -, rfl⟩
      · exact hnil
      · have hdigit := hdigits mark (by simp)
        simp only [startsExponent, Bool.or_eq_true, decide_eq_true_eq] at hmark
        rcases hmark with rfl | rfl <;> exact absurd hdigit (by decide)
  · rintro ⟨rfl, rfl⟩
    simpa using hwhole

theorem isDigit_of_mem_toDigits {n : Nat} {c : Char} (hc : c ∈ Nat.toDigits 10 n) :
    isDigit c = true := by
  have hdigit := Nat.isDigit_of_mem_toDigits (by decide) (by decide) hc
  simpa [isDigit, Char.isDigit, Char.le_def] using hdigit

/-- No zero stands in front of the digits of a number, unless it is zero. -/
theorem head?_toDigits_ne {n : Nat} (hn : n ≠ 0) : (Nat.toDigits 10 n).head? ≠ some '0' := by
  induction n using Nat.strongRecOn with
  | ind n ih =>
    rcases Nat.lt_or_ge n 10 with hlt | hge
    · rw [Nat.toDigits_of_lt_base hlt]
      simpa using hn
    · -- the first digit is that of the number without its last digit
      rw [Nat.toDigits_of_base_le (by decide) hge,
        List.head?_append_of_ne_nil _ Nat.toDigits_ne_nil]
      exact ih (n / 10) (by omega) (by omega)

/-- The digits of a number have the form of one. -/
theorem isWhole_toDigits (n : Nat) : IsWhole (Nat.toDigits 10 n) := by
  by_cases hzero : n = 0
  · subst hzero
    exact Or.inl (by decide)
  · exact Or.inr ⟨⟨Nat.toDigits_ne_nil, fun c hc => isDigit_of_mem_toDigits hc⟩,
      head?_toDigits_ne hzero⟩

end Digits

/-! ## Floating point numbers -/

/-- A reader of numbers that reads no integer from zero on: one that goes on behind a point or the
mark of an exponent, or after a digit that does not fit. -/
def NeverNatural (reader : Reader Number) : Prop :=
  ∀ ⦃text rest : List Char⦄ ⦃value : UInt64⦄, ¬ Reads reader text (.natural value) rest

namespace NeverNatural

theorem floating (value : Float) : NeverNatural (pure (.floating value)) := by
  intro text rest natural h
  cases (Reads.pure_iff.mp h).1

theorem failBefore (cause : Cause) : NeverNatural (Reader.failBefore cause) :=
  fun _ _ _ => Reads.not_failBefore

theorem failWithin (cause : Cause) : NeverNatural (Reader.failWithin cause) :=
  fun _ _ _ => Reads.not_failWithin

theorem bind {α : Type} {reader : Reader α} {next : α → Reader Number}
    (h : ∀ value, NeverNatural (next value)) : NeverNatural (reader >>= next) :=
  fun _ _ _ => Reads.not_bind fun value _ => @h value _ _ _

theorem ite {p : Prop} [Decidable p] {reader other : Reader Number} (h : NeverNatural reader)
    (h' : NeverNatural other) : NeverNatural (if p then reader else other) := by
  split
  · exact h
  · exact h'

variable (isNegative : Bool) (mantissa : Nat) (exponent : Int)

theorem scaled : NeverNatural (Reader.scaled isNegative mantissa exponent) := by
  unfold Reader.scaled
  split
  · exact floating _
  · exact failBefore _

theorem withExponent : NeverNatural (Reader.withExponent isNegative mantissa exponent) := by
  refine bind fun isReciprocal => bind fun digits => ?_
  split
  · exact scaled _ _ _
  · refine ite ?_ (floating _)
    rintro text rest value ⟨_, hread⟩
    cases hread

theorem perhapsExponent : NeverNatural (Reader.perhapsExponent isNegative mantissa exponent) :=
  bind fun _ => ite (bind fun _ => withExponent _ _ _) (scaled _ _ _)

theorem withPlaces : NeverNatural (Reader.withPlaces isNegative mantissa exponent) := by
  refine bind fun places => ?_
  split
  · refine bind fun next => ?_
    split
    · exact failBefore _
    · exact failWithin _
  · exact perhapsExponent _ _ _

end NeverNatural

/-! ## Integers -/

section Integer

variable {isNegative : Bool} {mantissa more : Nat} {text rest left : List Char} {value : UInt64}

/-- An integer from zero on has no sign and as many digits as fit, and no point and no mark of an
exponent behind them. -/
theorem reads_afterInteger_iff :
    Reads (Reader.afterInteger isNegative mantissa more) text (.natural value) left
      ↔ (isNegative = false ∧ more = 0 ∧ mantissa.toUInt64 = value
        ∧ ∀ c ∈ text.head?, c ≠ '.' ∧ startsExponent c = false) ∧ left = text := by
  unfold Reader.afterInteger
  rw [Reads.peek_bind_iff]
  -- a point or a mark, or a digit that is left, makes it a floating point number
  by_cases hpoint : text.head? = some '.'
  · rw [if_pos hpoint]
    refine iff_of_false (Reads.not_bind fun _ _ => @NeverNatural.withPlaces _ _ _ _ _ _) ?_
    rintro ⟨⟨-, -, -, hhead⟩, -⟩
    exact (hhead '.' hpoint).1 rfl
  · rw [if_neg hpoint]
    by_cases hmark : (text.head?.any startsExponent || decide (more ≠ 0)) = true
    · rw [if_pos hmark]
      refine iff_of_false (@NeverNatural.perhapsExponent _ _ _ _ _ _) ?_
      rintro ⟨⟨-, rfl, -, hhead⟩, -⟩
      obtain ⟨c, hc, hexponent⟩ : ∃ c, text.head? = some c ∧ startsExponent c = true := by
        simpa [Option.any_eq_true] using hmark
      rw [(hhead c hc).2] at hexponent
      cases hexponent
    · rw [if_neg hmark]
      simp only [Bool.or_eq_true, decide_eq_true_eq, not_or, not_not] at hmark
      obtain ⟨hnone, rfl⟩ := hmark
      have hhead : ∀ c ∈ text.head?, c ≠ '.' ∧ startsExponent c = false := by
        intro c hc
        rw [Option.mem_def.mp hc] at hpoint hnone
        exact ⟨by simpa using hpoint, by simpa using hnone⟩
      cases isNegative with
      | false =>
        simp only [Bool.not_false, ↓reduceIte, Reads.pure_iff, Number.natural.injEq, true_and]
        exact and_congr_left fun _ => ⟨fun h => ⟨h.symm, hhead⟩, fun h => h.1.symm⟩
      | true =>
        refine iff_of_false (fun h => ?_) (by simp)
        simp only [Bool.not_true, Bool.false_eq_true, ↓reduceIte] at h
        split at h <;> cases (Reads.pure_iff.mp h).1

variable {whole places exponent : List Char}

/-- What is read of a number without its sign, from its digits on. -/
theorem reads_unsigned_iff (hwhole : IsWhole whole)
    (hrest : ∀ c ∈ rest.head?, isDigit c = false) {number : Number} :
    Reads (Reader.unsigned isNegative) (whole ++ rest) number left
      ↔ Reads (Reader.afterInteger isNegative (gather maxMantissa 0 whole).1
        (gather maxMantissa 0 whole).2.length) rest number left := by
  unfold Reader.unsigned
  rw [Reads.peek_bind_iff]
  -- a zero in front is the whole integer part; other digits are gathered as far as they go
  rcases hwhole with rfl | ⟨⟨hne, hall⟩, hzero⟩
  · have hnone : rest.head?.any isDigit = false := by
      cases hhead : rest.head? with
      | none => rfl
      | some c => exact hrest c hhead
    change Reads (Reader.skip >>= _) ('0' :: rest) number left ↔ _
    rw [Reads.skip_bind_iff, Reads.peek_bind_iff, hnone]
    exact Iff.rfl
  · obtain ⟨c, digits, rfl⟩ := List.exists_cons_of_ne_nil hne
    have hc : isDigit c = true := hall c List.mem_cons_self
    simp only [List.cons_append, List.head?_cons]
    split
    case h_1 heq => cases heq
    case h_2 heq => exact absurd heq hzero
    case h_3 d _ heq =>
      obtain rfl := Option.some.inj heq
      rw [if_pos hc]
      exact (reads_digits hall hrest).bind_eq_iff

/-- All digits are taken and fit exactly if they stand for a number that has 64 bits. -/
theorem gather_maxMantissa_iff :
    (gather maxMantissa 0 whole).2.length = 0 ∧ (gather maxMantissa 0 whole).1.toUInt64 = value
      ↔ Nat.ofDigitChars 10 whole 0 = value.toNat := by
  have hmax : maxMantissa = 2 ^ 64 - 1 := rfl
  constructor
  · rintro ⟨hlength, hvalue⟩
    obtain ⟨hdigits, hfits⟩ := (gather_eq_iff (Nat.zero_le maxMantissa)).mp
      (Prod.ext rfl (List.eq_nil_of_length_eq_zero hlength))
    rw [hdigits, ← hvalue, Nat.toUInt64, UInt64.toNat_ofNat']
    exact (Nat.mod_eq_of_lt (by omega)).symm
  · intro hdigits
    have hlt := value.toNat_lt
    have hgather := (gather_eq_iff (Nat.zero_le maxMantissa)).mpr ⟨hdigits, by omega⟩
    rw [hgather]
    exact ⟨rfl, UInt64.ofNat_toNat⟩

/-- No point and no mark of an exponent stands behind the integer part of a number exactly if the
number has no places and no exponent. -/
theorem head_not_mark_iff (hplaces : IsPlaces places) (hexponent : IsExponent exponent)
    (hrest : Delimits rest) :
    (∀ c ∈ (places ++ (exponent ++ rest)).head?, c ≠ '.' ∧ startsExponent c = false)
      ↔ places = [] ∧ exponent = [] := by
  constructor
  · intro h
    obtain rfl : places = [] := by
      rcases hplaces with hnil | ⟨digits, -, rfl⟩
      · exact hnil
      · exact absurd rfl (h '.' rfl).1
    rcases hexponent with hnil | ⟨mark, sign, digits, hmark, -, -, rfl⟩
    · exact ⟨rfl, hnil⟩
    · have hnot := (h mark rfl).2
      rw [hmark] at hnot
      cases hnot
  · rintro ⟨rfl, rfl⟩ c hc
    exact (hrest c hc).2

theorem not_isWhole_sign (more : List Char) : ¬ IsWhole ('-' :: more) := fun h =>
  absurd (isDigit_of_isWhole h '-' List.mem_cons_self) (by decide)

/-- The numbers that are read as integers from zero on: digits without a sign, a point and an
exponent. The integer is the number that the digits stand for. -/
theorem IsNumber.reads_natural_iff (h : IsNumber text) (hrest : Delimits rest) :
    Reads Reader.number (text ++ rest) (.natural value) left
      ↔ (IsWhole text ∧ Nat.ofDigitChars 10 text 0 = value.toNat) ∧ left = rest := by
  cases h with
  | @mk sign whole places exponent hsign hwhole hplaces hexponent =>
    have hbehind := hplaces.head_append hexponent hrest
    unfold Reader.number
    rw [List.append_assoc, List.append_assoc, List.append_assoc, Reads.peek_bind_iff]
    rcases hsign with rfl | rfl
    · have hnone : (whole ++ (places ++ (exponent ++ rest))).head? ≠ some '-' := by
        rcases hwhole with rfl | ⟨hdigits, -⟩
        · simp
        · obtain ⟨c, more, rfl, hc⟩ := hdigits.exists_cons
          simpa using (ne_sign_of_isDigit hc).2
      rw [List.nil_append, List.nil_append, if_neg hnone, reads_unsigned_iff hwhole hbehind,
        reads_afterInteger_iff, head_not_mark_iff hplaces hexponent hrest,
        isWhole_append_iff hwhole hplaces hexponent, ← gather_maxMantissa_iff]
      -- without places and exponent the number is its integer part
      constructor
      · rintro ⟨⟨-, hlength, hvalue, rfl, rfl⟩, rfl⟩
        rw [List.append_nil, List.append_nil]
        exact ⟨⟨⟨rfl, rfl⟩, hlength, hvalue⟩, rfl⟩
      · rintro ⟨⟨⟨rfl, rfl⟩, hlength, hvalue⟩, rfl⟩
        rw [List.append_nil, List.append_nil] at hlength hvalue
        exact ⟨⟨rfl, hlength, hvalue, rfl, rfl⟩, rfl⟩
    · refine iff_of_false (fun hread => ?_) fun h => not_isWhole_sign _ h.1.1
      have hunsigned : Reads (Reader.unsigned true) (whole ++ (places ++ (exponent ++ rest)))
          (.natural value) left := Reads.skip_bind_iff.mp hread
      rw [reads_unsigned_iff hwhole hbehind, reads_afterInteger_iff] at hunsigned
      cases hunsigned.1.1

end Integer

/-! ## Counts -/

section Count

variable {text lead rest left : List Char} {value : UInt64}

/-- A value that starts with a sign or a digit is a number. -/
theorem IsValue.isNumber {c : Char} {more : List Char} (h : IsValue (c :: more))
    (hc : c = '-' ∨ isDigit c = true) : IsNumber (c :: more) := by
  have hne {d : Char} (hsign : d ≠ '-') (hdigit : isDigit d = false) : c ≠ d := by
    rintro rfl
    rcases hc with hc | hc
    · exact hsign hc
    · rw [hdigit] at hc
      cases hc
  generalize htext : c :: more = text at h
  cases h with
  | number h => exact h
  | _ => exact absurd (List.cons.inj htext).1 (hne (by decide) (by decide))

/-- What is read of a number as a count, wherever it stands. -/
theorem IsNumber.reads_count_iff (h : IsNumber text) (hlead : IsSpace lead)
    (hrest : Delimits rest) :
    Reads Reader.count (lead ++ (text ++ rest)) value left
      ↔ (IsWhole text ∧ Nat.ofDigitChars 10 text 0 = value.toNat) ∧ left = rest := by
  obtain ⟨c, more, rfl, hc⟩ := h.exists_cons
  obtain ⟨d, others, htext, hspace, -⟩ := (IsValue.number h).exists_cons
  obtain ⟨rfl, rfl⟩ := List.cons.inj htext
  have hstart : (c = '-' || isDigit c) = true := by simpa using hc
  rw [← h.reads_natural_iff hrest, List.cons_append, Reader.count,
    Reads.dispatch_eq_iff (afterSpace_append hlead hspace _) (if_pos hstart), Reads.bind_iff]
  constructor
  · rintro ⟨number, middle, hnumber, hread⟩
    split at hread
    · obtain ⟨rfl, rfl⟩ := Reads.pure_iff.mp hread
      exact hnumber
    · exact absurd hread Reads.not_failBefore
    · exact absurd hread Reads.not_failBefore
  · intro hnumber
    exact ⟨_, _, hnumber, Reads.pure value left⟩

/-- What a number is read as, if it is read as a count. -/
theorem IsNumber.means_count_iff (h : IsNumber text) :
    Means Reader.count text value ↔ IsWhole text ∧ Nat.ofDigitChars 10 text 0 = value.toNat := by
  constructor
  · intro hmeans
    exact ((h.reads_count_iff isSpace_nil delimits_nil).mp (hmeans isSpace_nil delimits_nil)).1
  · intro hdigits lead rest hlead hrest
    exact (h.reads_count_iff hlead hrest).mpr ⟨hdigits, rfl⟩

/-- A count is read as the same count everywhere. -/
theorem exact_count : Exact Reader.count := by
  intro text htext lead rest left value hlead hrest hread
  -- only a number starts with a sign or a digit
  have hnumber : IsNumber text := by
    obtain ⟨c, more, rfl, hspace, -⟩ := htext.exists_cons
    obtain ⟨_, hreader, -⟩ := (Reads.dispatch_iff (afterSpace_append hlead hspace _)).mp hread
    split_ifs at hreader with hc
    exact htext.isNumber (by simpa using hc)
  obtain ⟨hdigits, rfl⟩ := (hnumber.reads_count_iff hlead hrest).mp hread
  exact ⟨rfl, hnumber.means_count_iff.mpr hdigits⟩

theorem isNumber_toDigits (n : Nat) : IsNumber (Nat.toDigits 10 n) := by
  have hnumber := IsNumber.mk (Or.inl rfl) (isWhole_toDigits n) (Or.inl rfl) (Or.inl rfl)
  simpa using hnumber

/-- The digits of a number are read as this number, or as no count if it is too large. -/
theorem means_count_toDigits_iff {n : Nat} :
    Means Reader.count (Nat.toDigits 10 n) value ↔ value.toNat = n := by
  rw [(isNumber_toDigits n).means_count_iff, Nat.ofDigitChars_ten_toDigits]
  constructor
  · rintro ⟨-, rfl⟩
    rfl
  · rintro rfl
    exact ⟨isWhole_toDigits _, rfl⟩

end Count

end Directive.Json
