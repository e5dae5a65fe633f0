/-
  RuleNet — the nodes of the network.

  Roots receive the facts of one entry point, or of one type at an entry
  point.  Below them, alpha nodes pass on single facts that stand a field
  test; a left-input adapter turns facts into tuples; a join extends tuples by
  facts, or passes them on as long as no fact (or some fact) goes with them; a
  right-input adapter turns the tuples of a subnetwork back into facts; a
  query element extends tuples by the answers of a query; a terminal stands at
  the end of each branch of a rule.

  A node knows the nodes below it (its sinks), the rules that use it, its
  partition, and how long it must keep facts.
-/
import RuleNet.Condition
import RuleNet.Retention

namespace RuleNet

/-! ## Origins -/

/-- The construct of a rule that a node is traced back to. -/
inductive Origin where
  /-- A whole rule. -/
  | rule (name : String)
  /-- A pattern. -/
  | pattern (offset : Offset) (type : Symbol)
  /-- A field test of a pattern. -/
  | fieldTest (t : FieldTest)
  /-- A join test of a pattern. -/
  | joinTest (t : JoinTest)
  /-- A negation. -/
  | not
  /-- An existence claim. -/
  | exists
  /-- A universal statement. -/
  | every
  /-- A call of a query. -/
  | call (query : Symbol)
  deriving DecidableEq

/-- A construct in words. -/
def Origin.text : Origin → String
  | rule name => "rule " ++ name
  | pattern offset type => s!"pattern {offset} (" ++ type.text ++ ")"
  | fieldTest t => "constraint " ++ t.text
  | joinTest t => "constraint " ++ t.text
  | not => "not"
  | .exists => "exists"
  | every => "forall"
  | call query => "query " ++ query.text

/-- The origin of the nodes of a pattern. -/
def Pattern.origin (p : Pattern) : Origin := .pattern p.offset p.type

/-! ## Kinds of nodes -/

/-- What a join does with a tuple on its left. -/
inductive JoinKind where
  /-- It extends the tuple by each fact on its right that goes with it. -/
  | join
  /-- It passes the tuple on as long as no fact goes with it. -/
  | not
  /-- It passes the tuple on once some fact goes with it. -/
  | exists
  deriving DecidableEq

/-- The word for a kind of join. -/
def JoinKind.text : JoinKind → String
  | join => "join"
  | not => "not"
  | .exists => "exists"

/-- A node with tuples on its left and facts on its right. -/
structure Join where
  /-- What it does with a tuple. -/
  kind : JoinKind
  /-- Where tuples come from. -/
  left : NodeId
  /-- Where facts come from. -/
  right : NodeId
  /-- When a fact goes with a tuple. -/
  tests : List JoinTest
  /-- Whether it keeps tuples. -/
  tupleMemory : Bool := true
  /-- Whether no test relates its inputs. -/
  crossProduct : Bool := false
  deriving DecidableEq

/-- What a node does. -/
inductive NodeKind where
  /-- The root of the facts of an entry point. -/
  | entryPoint (entry : EntryPoint)
  /-- The root of the facts of one type at an entry point. -/
  | objectType (entry : EntryPoint) (type : Symbol) (memory : Bool)
  /-- A filter on single facts. -/
  | alpha (source : NodeId) (test : FieldTest)
  /-- It makes a tuple of each fact. -/
  | leftInput (source : NodeId)
  /-- It joins tuples and facts. -/
  | join (j : Join)
  /-- It makes a fact of each tuple. -/
  | rightInput (source : NodeId)
  /-- It asks a query. -/
  | queryElement (left : NodeId) (query : Symbol) (arguments : List Argument)
  /-- The end of a branch. -/
  | terminal (source : NodeId) (rule : RuleId) (branch : Nat) (query : Bool)
  deriving DecidableEq

namespace NodeKind

/-- The nodes that a node takes its input from. -/
def sources : NodeKind → List NodeId
  | entryPoint _ | objectType .. => []
  | alpha source _ | leftInput source | rightInput source => [source]
  | join j => [j.left, j.right]
  | queryElement left _ _ => [left]
  | terminal source .. => [source]

/-- The address of a root. -/
def rootKey? : NodeKind → Option RootKey
  | entryPoint entry => some ⟨entry, none⟩
  | objectType entry type _ => some ⟨entry, some type⟩
  | _ => none

/-- Whether a node is a root; roots stay when no rule uses them. -/
def isRoot (k : NodeKind) : Bool := k.rootKey?.isSome

/-- The node that a node hangs below besides those it names as its sources:
    the root of a type hangs below the root of its entry point. -/
def parentKey? : NodeKind → Option RootKey
  | objectType entry _ _ => some ⟨entry, none⟩
  | _ => none

/-- Whether a node passes on facts. -/
def isObjectSource : NodeKind → Bool
  | entryPoint _ | objectType .. | alpha .. | rightInput _ => true
  | leftInput _ | join _ | queryElement .. | terminal .. => false

/-- Whether a node passes on tuples. -/
def isTupleSource : NodeKind → Bool
  | leftInput _ | join _ | queryElement .. => true
  | entryPoint _ | objectType .. | alpha .. | rightInput _ | terminal .. => false

/-- The word for a kind of node. -/
def name : NodeKind → String
  | entryPoint _ => "entry-point"
  | objectType .. => "object-type"
  | alpha .. => "alpha"
  | leftInput _ => "left-input-adapter"
  | join j => j.kind.text
  | rightInput _ => "right-input-adapter"
  | queryElement .. => "query-element"
  | terminal _ _ _ query => if query then "query-terminal" else "rule-terminal"

/-- The join that a node is, if it is one. -/
def join? : NodeKind → Option Join
  | join j => some j
  | _ => none

end NodeKind

/-! ## Nodes -/

/-- What became of a node's partition when a rule took it into use. -/
inductive Stamp where
  /-- The node had none and took the rule's. -/
  | claimed
  /-- It stayed as it was. -/
  | unchanged
  /-- The node became shared between partitions. -/
  | promoted
  deriving DecidableEq

/-- A node of the network. -/
structure Node where
  /-- Its number. -/
  id : NodeId
  /-- What it does. -/
  kind : NodeKind
  /-- The partition that evaluates it, once there is one. -/
  partition? : Option PartitionId := none
  /-- How long it must keep facts. -/
  retention : Retention := .none
  /-- The rules that use it. -/
  rules : Std.ExtTreeSet RuleId := ∅
  /-- The construct that it was first made for. -/
  origin? : Option Origin := none
  /-- The nodes below it, in the order in which they were attached. -/
  sinks : List NodeId := []
  deriving DecidableEq

namespace Node

/-- A node as named in messages. -/
def text (n : Node) : String := n.kind.name ++ n.id.text

/-- Whether several rules use the node. -/
def isShared (n : Node) : Bool := n.rules.size > 1

/-- A node is hung below this one. -/
def addSink (n : Node) (sink : NodeId) : Node := { n with sinks := n.sinks ++ [sink] }

/-- A node no longer hangs below this one. -/
def dropSink (n : Node) (sink : NodeId) : Node := { n with sinks := n.sinks.filter (· ≠ sink) }

/-- A rule uses the node. -/
def own (n : Node) (rule : RuleId) : Node := { n with rules := n.rules.insert rule }

/-- A rule no longer uses the node. -/
def disown (n : Node) (rule : RuleId) : Node := { n with rules := n.rules.erase rule }

/-- A rule demands that facts are kept. -/
def require (n : Node) (rule : RuleId) (e : Expiration) : Node :=
  { n with retention := n.retention.require rule e }

/-- The demands of a rule end. -/
def release (n : Node) (rule : RuleId) : Node := { n with retention := n.retention.release rule }

/-- What becomes of the partition when a rule of `partition` takes the node
    into use. -/
def stampOf (n : Node) (partition : PartitionId) : Stamp :=
  match n.partition? with
  | none => .claimed
  | some current => if current = partition ∨ current.isShared then .unchanged else .promoted

/-- A rule of `partition` takes the node into use.  The first such rule gives
    the node its partition; one of another partition makes it shared. -/
def stamp (n : Node) (partition : PartitionId) : Node :=
  match n.stampOf partition with
  | .claimed => { n with partition? := some partition }
  | .unchanged => n
  | .promoted => { n with partition? := some .shared }

/-- The one partition that all of some partitions are, or the shared one if
    they differ; none if there are none. -/
def commonPartition? : List PartitionId → Option PartitionId
  | [] => none
  | p :: ps => if ps.all (· = p) then some p else some .shared

/-- The partition that the rules still using the node give it.  A node that no
    known rule uses keeps its partition. -/
def partitionFrom (n : Node) (partitions : Std.ExtTreeMap RuleId PartitionId) :
    Option PartitionId :=
  (commonPartition? (n.rules.toList.filterMap fun rule => partitions[rule]?)).or n.partition?

end Node

end RuleNet
