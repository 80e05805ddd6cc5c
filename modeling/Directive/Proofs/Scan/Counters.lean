import Directive.Proofs.Scan.Depth
import Directive.Scan
import Mathlib.Algebra.Ring.Int.Defs

/-!
# Depths that never wrap around

A scan keeps the depth in each kind of bracket in 32 bits. A depth may fall below zero, and nothing
keeps it within its range; one that wrapped around would make separators of pipes between brackets.
But no byte changes a depth by more than one, so that in a directive of fewer than `2 ^ 31` bytes
every depth is the number of brackets that it stands for. Main facts:

* `Scan.run_after`: a run goes through the scans after each number of bytes.
* `Scan.context_after`: the context of such a scan is read off the bytes before it.
* `Scan.depth_after_exact`: its depths are exact, and the next byte cannot make them overflow.
-/

namespace Directive

open Text (byteLength utf8)

/-- The first `n` bytes of a text, each taken for the character with its number. -/
def bytesRead (text : List Char) (n : Nat) : List Char :=
  ((utf8 text).take n).map Char.ofUInt8

theorem length_bytesRead_le (text : List Char) (n : Nat) : (bytesRead text n).length ≤ n := by
  rw [bytesRead, List.length_map]
  exact List.length_take_le n _

theorem length_bytesRead_le_byteLength (text : List Char) (n : Nat) :
    (bytesRead text n).length ≤ byteLength text := by
  rw [bytesRead, List.length_map]
  exact List.length_take_le' n _

/-- A sum that stays in the range does not overflow. -/
theorem toInt_add_of_bounds {a b : Int32}
    (hlower : -2 ^ 31 ≤ a.toInt + b.toInt) (hupper : a.toInt + b.toInt < 2 ^ 31) :
    (a + b).toInt = a.toInt + b.toInt := by
  rw [Int32.toInt_add]
  apply Int.bmod_eq_of_le <;> omega

/-! ## The scans that a run goes through -/

namespace Scan

/-- The scan after the first `n` of the bytes that it reads. -/
def after (scan : Scan) : List (Option Symbol) → Nat → Scan
  | here :: rest, n + 1 => (scan.step here rest.head?.join).after rest n
  | [], _ + 1 => scan
  | _, 0 => scan

@[simp] theorem after_zero (scan : Scan) (read : List (Option Symbol)) :
    scan.after read 0 = scan := by
  cases read <;> rfl

/-- A run goes through the scan after any number of bytes. -/
theorem run_after (scan : Scan) (read : List (Option Symbol)) (n : Nat) :
    (scan.after read n).run (read.drop n) = scan.run read := by
  induction read generalizing scan n with
  | nil => cases n <;> simp [after]
  | cons here rest ih =>
    cases n with
    | zero => simp
    | succ n => exact ih (scan.step here rest.head?.join) n

/-- A byte changes the context as its symbol does, also if it is a separator. -/
theorem context_step (scan : Scan) (here after : Option Symbol) :
    (scan.step here after).context = here.elim scan.context scan.context.step := by
  unfold step
  split <;> rfl

/-- The context after some bytes is that after the characters that they are taken for. -/
theorem context_after_bytes (scan : Scan) (bytes : List UInt8) (n : Nat) :
    (scan.after (bytes.map Symbol.ofByte?) n).context
      = scan.context.read ((bytes.take n).map Char.ofUInt8) := by
  induction bytes generalizing scan n with
  | nil => cases n <;> simp [after]
  | cons byte bytes ih =>
    cases n with
    | zero => simp
    | succ n =>
      rw [List.map_cons, after, ih, context_step, List.take_succ_cons, List.map_cons,
        Context.read_cons]
      rfl

theorem context_after (text : List Char) (n : Nat) :
    (init.after (symbols text) n).context = Context.start.read (bytesRead text n) :=
  context_after_bytes init (utf8 text) n

/-- The depth in a kind of bracket after the first `n` bytes of a directive. -/
def depthAfter (text : List Char) (n : Nat) (bracket : Bracket) : Int32 :=
  (init.after (symbols text) n).context.nesting.depth bracket

variable {text : List Char}

/-- In a short directive a depth is the number of openers less the number of closers. -/
theorem toInt_depthAfter (hsize : byteLength text < 2 ^ 31) (n : Nat) (bracket : Bracket) :
    (depthAfter text n bracket).toInt = bracket.balance (unquoted (bytesRead text n)) := by
  rw [depthAfter, context_after]
  apply Context.toInt_depth_read_start
  exact Nat.lt_of_le_of_lt (length_bytesRead_le_byteLength text n) hsize

/-- It is no further from zero than bytes have been read. -/
theorem toInt_depthAfter_bounds (hsize : byteLength text < 2 ^ 31) (n : Nat) (bracket : Bracket) :
    -(n : Int) ≤ (depthAfter text n bracket).toInt
      ∧ (depthAfter text n bracket).toInt ≤ n := by
  have hbalance := bracket.balance_bounds (unquoted (bytesRead text n))
  have hunquoted : (unquoted (bytesRead text n)).length ≤ (bytesRead text n).length :=
    length_unquotedAfter_le none _
  have hread := length_bytesRead_le text n
  rw [toInt_depthAfter hsize]
  omega

/-- In a directive of fewer than `2 ^ 31` bytes the depths are exact at every step of the scan:
after the first `n` bytes, from where the run goes on, a depth is the number of openers outside
quotes that have been read less the number of closers, so that it is zero exactly if these are
equally many. If there is another byte to read, neither raising nor lowering the depth by one
overflows. -/
theorem depth_after_exact (hsize : byteLength text < 2 ^ 31) (n : Nat) (bracket : Bracket) :
    (init.after (symbols text) n).run ((symbols text).drop n) = init.run (symbols text)
      ∧ (depthAfter text n bracket).toInt
        = (unquoted (bytesRead text n)).count bracket.opener
          - (unquoted (bytesRead text n)).count bracket.closer
      ∧ (depthAfter text n bracket = 0
        ↔ (unquoted (bytesRead text n)).count bracket.opener
          = (unquoted (bytesRead text n)).count bracket.closer)
      ∧ (n < byteLength text →
        (depthAfter text n bracket + 1).toInt = (depthAfter text n bracket).toInt + 1
          ∧ (depthAfter text n bracket + -1).toInt = (depthAfter text n bracket).toInt - 1) := by
  have hexact := toInt_depthAfter hsize n bracket
  refine ⟨run_after init (symbols text) n, hexact, ?_, fun hn => ?_⟩
  · rw [← Int32.toInt_inj, hexact, Int32.toInt_zero]
    exact Bracket.balance_eq_zero_iff
  · -- one byte fewer than there are has been read, so that there is room for one bracket more
    obtain ⟨hlower, hupper⟩ := toInt_depthAfter_bounds hsize n bracket
    have hone : (1 : Int32).toInt = 1 := rfl
    have hminus : (-1 : Int32).toInt = -1 := rfl
    constructor
    · rw [toInt_add_of_bounds (by omega) (by omega), hone]
    · rw [toInt_add_of_bounds (by omega) (by omega), hminus]
      rfl

/-- Two stray closers, a character of two bytes, and an opener that a quote follows: in the quote
another opener does not count. -/
theorem depth_after_exact_stray :
    byteLength "]]é('(|".toList < 2 ^ 31
      ∧ (depthAfter "]]é('(|".toList 7 .square).toInt = -2
      ∧ (depthAfter "]]é('(|".toList 7 .square + -1).toInt = -3
      ∧ (depthAfter "]]é('(|".toList 7 .paren).toInt = 1
      ∧ depthAfter "]]é('(|".toList 7 .curly = 0 := by
  have hsize : byteLength "]]é('(|".toList < 2 ^ 31 := by decide
  have hread : bytesRead "]]é('(|".toList 7
      = [']', ']', Char.ofNat 0xC3, Char.ofNat 0xA9, '(', '\x27', '('] := by decide
  obtain ⟨-, hsquare, -, hroom⟩ := depth_after_exact hsize 7 .square
  obtain ⟨-, hparen, -, -⟩ := depth_after_exact hsize 7 .paren
  obtain ⟨-, -, hcurly, -⟩ := depth_after_exact hsize 7 .curly
  rw [hread] at hsquare hparen hcurly
  refine ⟨hsize, hsquare, ?_, hparen, hcurly.mpr (by decide)⟩
  rw [(hroom (by decide)).2, hsquare]
  rfl

end Scan

end Directive
