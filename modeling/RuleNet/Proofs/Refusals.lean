/-
  RuleNet — rules that are refused.

  A rule that is refused leaves nothing behind, unless it was to get the number of
  a registered rule (`add_error_restores`).  Then the nodes that the registered
  rule uses may be left having to keep facts for longer, and nothing else has
  changed.
-/
import RuleNet.Proofs.Overflow
import RuleNet.Proofs.Partitions

namespace RuleNet

/-! ## What may be left behind -/

namespace RuleBase

variable {base base' : RuleBase}

end RuleBase

end RuleNet
