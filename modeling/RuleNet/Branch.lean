/-
  RuleNet — the branches of a body.

  A body is split at its disjunctions into branches, each of them free of
  disjunctions; it matches when one of them does.  A conjunction has a branch
  for every choice of one branch of each member, the choice for the first
  member varying slowest.  A negation stays one branch: it becomes the
  conjunction of the negations of the branches below it.  An existence claim
  has a branch for each branch below it.  Groups without a disjunction inside
  are left as they are.
-/
import RuleNet.Condition
import RuleNet.Fault

namespace RuleNet

/-- Elements that must all match. -/
abbrev Conjunction := List Element

namespace Element

mutual

/-- The branches of an element. -/
def branches : Element → Except Fault (List Conjunction)
  | group .and members => choices members
  | group .or members =>
    if members.isEmpty then .error (.unexpectedElement .emptyOr) else alternatives members
  | group .not members =>
    if hasOrList members then do
      let below ← choices members
      return [below.map (group .not)]
    else return [[group .not members]]
  | group .exists members =>
    if hasOrList members then do
      let below ← choices members
      return below.map fun conjunction => [group .exists conjunction]
    else return [[group .exists members]]
  | pattern p => return [[pattern p]]
  | every base rest => return [[every base rest]]
  | call q => return [[call q]]

/-- One conjunction for every choice of a branch of each element. -/
def choices : List Element → Except Fault (List Conjunction)
  | [] => return [[]]
  | e :: es => do
    let first ← e.branches
    let others ← choices es
    return first.flatMap fun conjunction => others.map (conjunction ++ ·)

/-- The branches of each element, one element after the other. -/
def alternatives : List Element → Except Fault (List Conjunction)
  | [] => return []
  | e :: es => do
    let first ← e.branches
    let others ← alternatives es
    return first ++ others

end

end Element

/-- One branch of a rule. -/
structure Branch where
  /-- Its place among the branches of the rule. -/
  index : Nat
  /-- Its body. -/
  body : Body
  deriving DecidableEq

/-- The branches of a body.  A body without a disjunction is its own only
    branch. -/
def Body.branches (b : Body) : Except Fault (List Branch) :=
  if b.hasOr then do
    let conjunctions ← b.toElement.branches
    return conjunctions.mapIdx fun index conjunction => ⟨index, ⟨.and, conjunction⟩⟩
  else return [⟨0, b⟩]

end RuleNet
