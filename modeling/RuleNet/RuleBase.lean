/-
  RuleNet — the rule base: the network and everything that outlives the
  compilation of one rule.

  Rules are registered under their number and indexed by their name; a rule is
  refused if either is taken.  Working memories are attached by number; a
  number may be attached several times.  The journal holds what they have been
  told, oldest first.
-/
import RuleNet.IdPool
import RuleNet.Network
import RuleNet.SymbolTable

namespace RuleNet

/-! ## Configuration -/

/-- How facts are read. -/
inductive EventMode where
  /-- Facts are timeless. -/
  | cloud
  /-- Facts may be events, and facts that can take part in no further match
      are dropped. -/
  | stream
  deriving DecidableEq

/-- The word for a mode. -/
def EventMode.text : EventMode → String
  | cloud => "Cloud"
  | stream => "Stream"

/-- How the nodes that the compiler asks for are made. -/
structure NodeMaker where
  /-- The name shown in diagnostics. -/
  name : String
  /-- The node made where a plain one is asked for. -/
  make : NodeKind → NodeKind

/-- Nodes are made plain. -/
def NodeMaker.plain : NodeMaker := ⟨"ReteComponentFactory", id⟩

/-- The configuration of a rule base. -/
structure Config where
  /-- Whether alpha nodes are shared between rules. -/
  alphaSharing : Bool := true
  /-- Whether adapters, joins and query elements are shared between rules. -/
  betaSharing : Bool := true
  /-- Whether each rule gets a partition of its own. -/
  partitioning : Bool := false
  /-- How facts are read. -/
  eventMode : EventMode := .cloud
  /-- Whether the roots of types keep facts. -/
  objectTypeMemory : Bool := true
  /-- How nodes are made. -/
  maker : NodeMaker := .plain

namespace Config

/-- Facts may be events. -/
def stream : Config := { eventMode := .stream }

/-- Each rule gets a partition of its own. -/
def partitioned : Config := { partitioning := true }

/-- Whether facts may be events. -/
def isStream (c : Config) : Bool := c.eventMode == .stream

end Config

/-! ## Rules and working memories -/

/-- What is kept of a compiled rule. -/
structure RuleEntry where
  /-- Its number. -/
  id : RuleId
  /-- Its name. -/
  name : String
  /-- Whether it is a query. -/
  query : Bool
  /-- The partition that it was compiled into. -/
  partition : PartitionId
  /-- The nodes that it uses, in the order of attachment. -/
  nodes : List NodeId
  deriving DecidableEq

/-- The number of a working memory. -/
abbrev MemoryId := Nat

/-- What a working memory is told of. -/
inductive Change where
  /-- A rule was added, using these nodes. -/
  | attached
  /-- A rule was removed, and these nodes with it. -/
  | detached
  deriving DecidableEq

/-- A message to a working memory. -/
structure Notice where
  /-- Who is told. -/
  memory : MemoryId
  /-- What happened. -/
  change : Change
  /-- The rule. -/
  rule : RuleId
  /-- The nodes. -/
  nodes : List NodeId
  deriving DecidableEq

/-! ## The rule base -/

/-- A rule base. -/
structure RuleBase where
  /-- Its configuration. -/
  config : Config
  /-- Its network. -/
  network : Network
  /-- The numbers of its nodes. -/
  ids : IdPool
  /-- Its names. -/
  symbols : SymbolTable
  /-- Its rules by number. -/
  rules : Std.ExtTreeMap RuleId RuleEntry
  /-- The numbers of its rules by name. -/
  names : Std.ExtTreeMap String RuleId
  /-- The number of the next rule. -/
  nextRule : RuleId
  /-- The partition of the next rule that gets one of its own. -/
  nextPartition : PartitionId
  /-- The attached working memories, in the order of attachment. -/
  memories : List MemoryId
  /-- What working memories have been told, oldest first. -/
  journal : List Notice

namespace RuleBase

/-- The rule base without rules. -/
def empty (config : Config) : RuleBase where
  config
  network := .empty
  ids := .initial
  symbols := .initial
  rules := ∅
  names := ∅
  nextRule := 0
  nextPartition := PartitionId.shared + 1
  memories := []
  journal := []

/-! ## Registered rules -/

/-- The registered rules by ascending number. -/
def entries (base : RuleBase) : List RuleEntry := base.rules.toList.map (·.2)

/-- The rule registered under a number. -/
def rule? (base : RuleBase) (id : RuleId) : Option RuleEntry := base.rules[id]?

/-- The rule registered under a name. -/
def ruleNamed? (base : RuleBase) (name : String) : Option RuleEntry :=
  base.names[name]?.bind base.rule?

/-- The partitions of the registered rules. -/
def rulePartitions (base : RuleBase) : Std.ExtTreeMap RuleId PartitionId :=
  base.rules.map fun _ entry => entry.partition

/-- A number for a rule that is about to be compiled, unless its name is
    taken. -/
def reserveRule (base : RuleBase) (name : String) : Except Fault (RuleId × RuleBase) :=
  if base.names.contains name then .error (.duplicateRule name)
  else .ok (base.nextRule, { base with nextRule := tick base.nextRule })

/-- A rule is registered, unless its name or number is taken. -/
def registerRule (base : RuleBase) (entry : RuleEntry) : Except Fault RuleBase :=
  if base.names.contains entry.name || base.rules.contains entry.id then
    .error (.duplicateRule entry.name)
  else .ok { base with
    names := base.names.insert entry.name entry.id
    rules := base.rules.insert entry.id entry }

/-- A rule is no longer registered. -/
def unregisterRule (base : RuleBase) (id : RuleId) : Except Fault (RuleEntry × RuleBase) :=
  match base.rules[id]? with
  | some entry => .ok (entry, { base with
    rules := base.rules.erase id
    names := base.names.erase entry.name })
  | none => .error (.ruleNotFound id)

/-! ## Numbers -/

/-- A new node number. -/
def issueId (base : RuleBase) : NodeId × RuleBase :=
  let (id, ids) := base.ids.issue
  (id, { base with ids })

/-- A node number is returned. -/
def releaseId (base : RuleBase) (id : NodeId) : Except Fault RuleBase := do
  let ids ← base.ids.release id
  return { base with ids }

/-- The partition of a rule that gets one of its own. -/
def issuePartition (base : RuleBase) : PartitionId × RuleBase :=
  (base.nextPartition, { base with nextPartition := tick base.nextPartition })

/-- The partition of a new rule: one of its own where rules are partitioned,
    else the shared one. -/
def assignPartition (base : RuleBase) : PartitionId × RuleBase :=
  if base.config.partitioning then base.issuePartition else (.shared, base)

/-! ## Names and working memories -/

/-- The number of a name. -/
def intern (base : RuleBase) (name : String) : Symbol × RuleBase :=
  let (s, symbols) := base.symbols.intern name
  (s, { base with symbols })

/-- A working memory is attached. -/
def attachMemory (base : RuleBase) (id : MemoryId) : RuleBase :=
  { base with memories := base.memories ++ [id] }

/-- Every attachment of a working memory ends. -/
def detachMemory (base : RuleBase) (id : MemoryId) : RuleBase :=
  { base with memories := base.memories.filter (· ≠ id) }

/-- Some working memories are told of a change, one after the other. -/
def notify (base : RuleBase) (memories : List MemoryId) (change : Change) (rule : RuleId)
    (nodes : List NodeId) : RuleBase :=
  { base with journal := base.journal ++ memories.map fun memory => ⟨memory, change, rule, nodes⟩ }

/-! ## Diagnostics -/

/-- A truth value in diagnostics. -/
def flagText (b : Bool) : String := if b then "true" else "false"

/-- The configuration and the size of a rule base in one line. -/
def debugText (base : RuleBase) : String :=
  let c := base.config
  let config := ", ".intercalate
    [ "alpha_sharing: " ++ flagText c.alphaSharing,
      "beta_sharing: " ++ flagText c.betaSharing,
      "partitioning: " ++ flagText c.partitioning,
      "event_mode: " ++ c.eventMode.text,
      "object_type_memory: " ++ flagText c.objectTypeMemory,
      "component_factory: " ++ c.maker.name ]
  "KnowledgeBase \x7b config: KnowledgeBaseConfig \x7b " ++ config ++ " \x7d, " ++
    s!"nodes: {base.network.size}, rules: {base.rules.size}, " ++
    s!"working_memories: {base.memories.length}, .. \x7d"

end RuleBase

end RuleNet
