import Directive.Proofs.Batch.Outcome
import Directive.Proofs.Descriptor.Json
import Directive.Proofs.Json.OneLine

/-!
# JSON line by line

What a batch prints in JSON can be read line by line. A line feed closes the text of each descriptor
and stands nowhere else, so that as many lines are found as there are directives, and each line is
read back as the descriptor of its directive. Main facts:

* `splitOn_unlines`: lines that hold no line feed are found again.
* `isJsonLines_unlines`: the texts of some descriptors are read back line by line.
* `json_lines_read_back`: so is what sessions and runs print.
-/

namespace Directive

/-- Lines that hold no line feed are found between the line feeds of their text, and nothing is
behind the last one. -/
theorem splitOn_unlines {lines : List String} (h : ∀ line ∈ lines, '\n' ∉ line.toList) :
    (unlines lines).toList.splitOn '\n' = lines.map String.toList ++ [[]] := by
  induction lines with
  | nil => rfl
  | cons line lines ih =>
    obtain ⟨hline, hmore⟩ := List.forall_mem_cons.mp h
    have htext : (unlines (line :: lines)).toList
        = line.toList ++ '\n' :: (unlines lines).toList := by
      simp [unlines]
    have hne : ∀ c ∈ line.toList, (c == '\n') = false := by
      intro c hc
      simpa using fun heq : c = '\n' => hline (heq ▸ hc)
    -- the first line feed of the text is the one that closes the first line
    have hsplit := ih hmore
    rw [List.splitOn_eq_splitOnP] at hsplit ⊢
    rw [htext, List.splitOnP_append_cons_of_forall_mem hne '\n' rfl, hsplit]
    rfl

/-- A text says some directives line by line: it is cut at its line feeds into one line for each of
them, with nothing behind the last line feed, and each line is the descriptor in JSON. -/
def IsJsonLines (text : String) (directives : List String) : Prop :=
  ∃ lines : List String, text.toList.splitOn '\n' = lines.map String.toList ++ [[]]
    ∧ List.Forall₂ (fun line raw => Descriptor.ofJson line = .ok (Descriptor.parse raw))
      lines directives

/-- The text of a descriptor on one line holds no line feed. -/
theorem lineFeed_not_mem_render (descriptor : Descriptor) :
    '\n' ∉ (Format.json.render descriptor).toList := by
  have hclean := descriptor.oneLine_toJson 0
  change '\n' ∉ (String.ofList (descriptor.toJson .compact 0)).toList
  rw [String.toList_ofList]
  exact hclean.lineFeed_not_mem

/-- The descriptors of some directives are read back from their texts line by line. -/
theorem isJsonLines_unlines (directives : List String) :
    IsJsonLines (unlines (directives.map fun raw => Format.json.render (Descriptor.parse raw)))
      directives := by
  refine ⟨_, splitOn_unlines ?_, ?_⟩
  · intro line hline
    obtain ⟨raw, -, rfl⟩ := List.mem_map.mp hline
    exact lineFeed_not_mem_render _
  · rw [List.forall₂_map_left_iff, List.forall₂_same]
    exact fun raw _ => (Descriptor.parse raw).ofJson_render Json.Layout.spaced_compact

/-- What is printed in JSON is read back line by line: a new session over a cache of any capacity
prints one line for each directive, from which its descriptor is read back, whether it was scanned
or found in the cache and whatever characters it holds. So does every run in this format that can
read what it needs. -/
theorem json_lines_read_back (capacity : Capacity) (directives : List String) :
    IsJsonLines
        (unlines ((Session.start (.empty (some capacity))).renderAll .json directives).1) directives
      ∧ ∀ (invocation : Invocation) (inputs : Inputs), invocation.options.format = .json →
        invocation.options.Sound inputs → invocation.source.Holds inputs directives →
        IsJsonLines (invocation.outcome inputs).stdout directives := by
  have hlines := isJsonLines_unlines directives
  refine ⟨?_, fun invocation inputs hformat hsound hholds => ?_⟩
  · rwa [Session.renderAll_fst (Cache.faithful_empty (some capacity))]
  · rwa [(Invocation.outcome_of_sound hsound hholds).2, Invocation.printed, hformat]

/-- Directives with line feeds, quotes, backslashes and control characters, one of them twice. -/
def unprintable : List String :=
  ["a\n| f '\"\\\r'", "b\x00", "a\n| f '\"\\\r'"]

/-- A run on these directives with room for one descriptor. -/
def unprintableInvocation : Invocation :=
  ⟨⟨none, some 1, .json⟩, .arguments unprintable, false⟩

/-- Nothing to read. -/
def noInputs : Inputs :=
  ⟨fun _ => .error .notFound, fun _ => .error .notFound, .ok []⟩

theorem json_lines_read_back_unprintable :
    unprintableInvocation.options.format = .json
      ∧ unprintableInvocation.options.Sound noInputs
      ∧ unprintableInvocation.source.Holds noInputs unprintable
      ∧ IsJsonLines (unprintableInvocation.outcome noInputs).stdout unprintable := by
  have hsound : unprintableInvocation.options.Sound noInputs :=
    ⟨fun _ hpath => (nomatch hpath), by decide⟩
  have hholds : unprintableInvocation.source.Holds noInputs unprintable := .arguments _
  obtain ⟨-, hruns⟩ := json_lines_read_back ⟨1, by decide⟩ unprintable
  exact ⟨rfl, hsound, hholds, hruns _ noInputs rfl hsound hholds⟩

end Directive
