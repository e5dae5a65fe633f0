/-
  RuleNet — adding rules to a rule base and removing them.

  Removing a rule removes the nodes that no other rule uses, roots excepted,
  in the reverse order of their attachment.  The nodes that stay give up what
  they kept for the rule: how long facts are kept, and the partition, are
  worked out anew from the rules that still use them.
-/
import RuleNet.Session.Compile

namespace RuleNet

/-- What came of an addition: its result, the rule base afterwards, and the
    cross products reported meanwhile. -/
structure Outcome (α : Type) where
  /-- The result. -/
  result : Except Failure α
  /-- The rule base afterwards. -/
  base : RuleBase
  /-- The cross products reported, oldest first. -/
  reports : List CrossProduct

/-- What came of a step in a session. -/
def Outcome.of {α : Type} : EStateM.Result Failure Session α → Outcome α
  | .ok a s => ⟨.ok a, s.base, s.reports.toList⟩
  | .error failure s => ⟨.error failure, s.base, s.reports.toList⟩

/-- What was removed with a rule. -/
structure Removal where
  /-- The nodes that are gone. -/
  removed : List NodeId
  /-- The nodes that stay, but in another partition. -/
  repartitioned : List NodeId
  deriving DecidableEq

namespace RuleBase

/-! ## Adding -/

/-- A rule is added. -/
def add (base : RuleBase) (rule : Rule) : Outcome Session.Built :=
  .of (Session.compile rule (Session.start base))

/-- Rules are added in one session, up to the first failure. -/
def addAll (base : RuleBase) (rules : List Rule) : Outcome (List Session.Built) :=
  .of (rules.mapM Session.compile (Session.start base))

/-! ## Removing -/

/-- A change of a rule base that may fail; a failed one leaves the rule base as
    it was at the point of failure. -/
abbrev Edit (α : Type) := EStateM Fault RuleBase α

/-- A step that may fail; if it does not, it gives a value and changes the rule
    base. -/
def take {α : Type} (f : RuleBase → Except Fault (α × RuleBase)) : Edit α := do
  match f (← get) with
  | .ok (a, base) =>
    set base
    return a
  | .error fault => throw fault

/-- A step that may fail, and changes the network if it does not. -/
def takeNetwork {α : Type} (f : Network → Except Fault (α × Network)) : Edit α :=
  take fun base => do
    let (a, network) ← f base.network
    return (a, { base with network })

/-- What becomes of a node when a rule no longer uses it. -/
inductive Fate where
  /-- It is removed. -/
  | removed (id : NodeId)
  /-- It stays. -/
  | stays (id : NodeId)
  deriving DecidableEq

/-- A node that was removed. -/
def Fate.removed? : Fate → Option NodeId
  | removed id => some id
  | stays _ => none

/-- A node that stays. -/
def Fate.stays? : Fate → Option NodeId
  | removed _ => none
  | stays id => some id

/-- A rule gives up a node.  If no other rule uses the node and it is no root,
    it is removed and its number returned. -/
def giveUp (rule : RuleId) (id : NodeId) : Edit Fate := do
  let n ← takeNetwork fun net => do
    let n ← net.require id
    let n := (n.disown rule).release rule
    return (n, net.modify id fun _ => n)
  if n.rules.isEmpty && !n.kind.isRoot then
    let _ ← takeNetwork (·.remove id)
    take fun base => return ((), ← base.releaseId id)
    return .removed id
  else return .stays id

/-- A node gets the partition that the rules still using it give it; it is
    returned if that is another one. -/
def repartition (id : NodeId) : Edit (Option NodeId) := do
  let partitions := (← get).rulePartitions
  takeNetwork fun net => do
    let before := (← net.require id).partition?
    let (after, net) ← net.repartition id partitions
    return (if after = before then none else some id, net)

/-- A rule is removed, and the working memories are told. -/
def removeRule (rule : RuleId) : Edit Removal := do
  let entry ← take (·.unregisterRule rule)
  let fates ← entry.nodes.reverse.mapM (giveUp rule)
  let removed := fates.filterMap Fate.removed?
  let repartitioned ← (fates.filterMap Fate.stays?).filterMapM repartition
  modify fun base => base.notify base.memories .detached rule removed
  return { removed, repartitioned }

/-- The rule with a name is removed. -/
def removeNamed (name : String) : Edit Removal := do
  match (← get).ruleNamed? name with
  | some entry => removeRule entry.id
  | none => throw (.breach (.noRuleNamed name))

end RuleBase

end RuleNet
