/-
  RuleNet — finding a node that already does the work of a new one.

  Such a node hangs below the first source of the new one.  It makes the same
  test on the same inputs; of a join, whether it was noted as a cross product
  does not matter, and its guards can be left out of account.
-/
import RuleNet.Network

namespace RuleNet

/-- Whether a node of one kind does the work of a node of another. -/
def NodeKind.serves (guardsOut : Bool) : (present wanted : NodeKind) → Bool
  | .join i, .join j =>
    i.kind == j.kind && i.left == j.left && i.right == j.right &&
      i.tupleMemory == j.tupleMemory && JoinTest.agree guardsOut i.tests j.tests
  | present, wanted => present == wanted

/-- The first node below the first source of a wanted node that does its
    work. -/
def Network.findServing (net : Network) (guardsOut : Bool) (wanted : NodeKind) : Option NodeId := do
  let source ← wanted.sources.head?
  let n ← (net.sinksOf source).find? fun n => n.kind.serves guardsOut wanted
  return n.id

end RuleNet
