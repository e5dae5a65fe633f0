/-
  RuleNet — compiling a rule.

  The body of a rule is split into branches; each branch is attached to the
  network and ends in a terminal of its own.  Where facts may be events, the
  distances between the events of a branch are worked out first.  If anything
  fails, what has been attached is undone, the newest node first, and the
  failure tells the place; otherwise the rule is registered and the working
  memories are told.
-/
import RuleNet.Session.Attach

namespace RuleNet

/-! ## Undoing -/

namespace RuleBase

/-- The attachment of a node to a rule is undone: a node made for the rule is
    removed and its number returned; any other gets back its partition and
    how long it had to keep facts.  A node that does not allow this stays. -/
def undo (base : RuleBase) (rule : RuleId) (a : Attached) : RuleBase :=
  if a.created then
    match base.network.remove a.id with
    | .error _ => base
    | .ok (_, network) =>
      let base := { base with network }
      match base.releaseId a.id with
      | .error _ => base
      | .ok base => base
  else
    { base with
      network := base.network.modify a.id fun n =>
        { n.disown rule with
          partition? := a.previousPartition?
          retention := n.retention.restore rule a.previousTotal? } }

/-- Attachments to a rule are undone, the newest first. -/
def rollback (base : RuleBase) (rule : RuleId) (attached : List Attached) : RuleBase :=
  attached.foldr (fun a base => base.undo rule a) base

end RuleBase

/-! ## Branches -/

namespace Session

/-- The distances between the events of a branch, where facts may be events. -/
def branchDistances (b : Branch) : Compile (Option Distances) := do
  if (← get).base.config.isStream then some <$> orFail (Distances.ofPatterns b.body.patterns)
  else return none

/-- A branch is attached; its terminal is returned.  A branch that matches no
    fact starts from the initial fact. -/
def attachBranch (name : String) (b : Branch) : Compile NodeId := do
  modify resetBranch
  orFail (← get).checkBalanced
  let distances? ← branchDistances b
  modify ({ · with distances?, branch? := some b })
  let terminal ← insideOrigin (.rule name) do
    insideElement b.body.toElement (attachElements b.body.members)
    ensureTuple
    attachTerminal
  orFail (← get).checkBalanced
  return terminal

/-- The branches of a rule are attached; their terminals are returned. -/
def attachRule (rule : Rule) : Compile (List NodeId) := do
  let branches ← orFail rule.body.branches
  branches.mapM (attachBranch rule.name)

/-! ## Rules -/

/-- What became of a rule. -/
structure Built where
  /-- The number that it is registered under. -/
  rule : RuleId
  /-- The partition that it was compiled into. -/
  partition : PartitionId
  /-- The terminal of each branch. -/
  terminals : List NodeId
  /-- The nodes made for it. -/
  created : List NodeId
  /-- The nodes that it shares with rules added before. -/
  shared : List NodeId
  deriving DecidableEq

/-- A step of a session that may fail at some place. -/
abbrev Building (α : Type) := EStateM Failure Session α

/-- A step whose failure has no place. -/
def placeless {α : Type} (step : Compile α) : Building α :=
  EStateM.adaptExcept (fun fault => ⟨fault, none⟩) step

/-- A step whose failure is placed, and after which nothing that was attached
    to the rule remains. -/
def orUndone {α : Type} (rule : RuleId) (step : Compile α) : Building α := fun s =>
  match step s with
  | .ok a t => .ok a t
  | .error fault t =>
    let (attached, u) := t.takeAttached
    .error ⟨fault, some t.place⟩
      { u.discardStacks with base := u.base.rollback rule attached }

/-- The rule at hand begins: its name must be free. -/
def beginRule (rule : Rule) : Compile (RuleId × PartitionId) := do
  change resetRule
  let id ← take fun s => do
    let (id, base) ← s.base.reserveRule rule.name
    return (id, { s with base })
  let partition ← modifyGet fun s =>
    let (partition, base) := s.base.assignPartition
    (partition, { s with base })
  modify fun s => { s.setRule rule id with partition? := some partition }
  return (id, partition)

/-- A rule is registered with the nodes attached to it; if that fails, they are
    undone. -/
def registerRule (entry : RuleEntry) (attached : List Attached) : Compile Unit := do
  let s ← get
  match s.base.registerRule entry with
  | .ok base => set { s with base }
  | .error fault =>
    set { s with base := s.base.rollback entry.id attached }
    throw fault

/-- The working memories are told of a new rule. -/
def announce (rule : RuleId) (nodes : List NodeId) : Compile Unit :=
  modify fun s =>
    let (memories, s) := s.readMemories
    { s with base := s.base.notify memories .attached rule nodes }

/-- A rule is compiled. -/
def compile (rule : Rule) : Building Built := do
  let (id, partition) ← placeless (beginRule rule)
  let terminals ← orUndone id (attachRule rule)
  let attached ← placeless (take finish)
  let nodes := attached.map (·.id)
  placeless (registerRule ⟨id, rule.name, rule.isQuery, partition, nodes⟩ attached)
  placeless (announce id nodes)
  return {
    rule := id, partition, terminals
    created := (attached.filter (·.created)).map (·.id)
    shared := (attached.filter (!·.created)).map (·.id) }

end Session

end RuleNet
