/-
  RuleNet — the network.

  Nodes are kept under their numbers, and roots can be found by their address.
  A node can be added once all its sources are there, and removed once nothing
  hangs below it.  The root of a type hangs below the root of its entry point
  as well, whichever is found under that address at the time.  How many nodes
  there are is counted along.
-/
import RuleNet.Fault
import RuleNet.Node

namespace RuleNet

/-- The nodes of a network. -/
structure Network where
  /-- The nodes by number. -/
  nodes : Std.ExtTreeMap NodeId Node
  /-- The roots by address. -/
  roots : Std.ExtTreeMap RootKey NodeId
  /-- How many nodes there are. -/
  size : Nat
  deriving DecidableEq

namespace Network

/-- The network without nodes. -/
def empty : Network := ⟨∅, ∅, 0⟩

/-! ## Looking up -/

/-- Whether a number is that of a node. -/
def contains (net : Network) (id : NodeId) : Bool := net.nodes.contains id

/-- The node with a number, which must be there. -/
def require (net : Network) (id : NodeId) : Except Fault Node :=
  match net.nodes[id]? with
  | some n => .ok n
  | none => .error (.nodeNotFound id)

/-- The nodes that hang below a node, in the order of attachment. -/
def sinksOf (net : Network) (id : NodeId) : List Node :=
  match net.nodes[id]? with
  | some n => n.sinks.filterMap (net.nodes[·]?)
  | none => []

/-- The root of an entry point. -/
def entryPointNode (net : Network) (entry : EntryPoint) : Option NodeId :=
  net.roots[(⟨entry, none⟩ : RootKey)]?

/-- The root of a type at an entry point. -/
def objectTypeNode (net : Network) (entry : EntryPoint) (type : Symbol) : Option NodeId :=
  net.roots[(⟨entry, some type⟩ : RootKey)]?

/-- The entry points that have a root, in order, with their roots. -/
def entryPoints (net : Network) : List (EntryPoint × NodeId) :=
  net.roots.toList.filterMap fun (key, id) =>
    if key.type?.isNone then some (key.entry, id) else none

/-- All nodes, by ascending number. -/
def toList (net : Network) : List Node := net.nodes.toList.map (·.2)

/-- Whether there are no nodes. -/
def isEmpty (net : Network) : Bool := net.size == 0

/-! ## Changing nodes -/

/-- One node is changed, if it is there. -/
def modify (net : Network) (id : NodeId) (f : Node → Node) : Network :=
  { net with nodes := net.nodes.modify id f }

/-- One node is changed, which must be there. -/
def update (net : Network) (id : NodeId) (f : Node → Node) : Except Fault Network := do
  let _ ← net.require id
  return net.modify id f

/-- The nodes that a node of this kind hangs below: its sources, and the root
    found under the address of its parent. -/
def parentsOf (net : Network) (kind : NodeKind) : List NodeId :=
  kind.sources ++ (kind.parentKey?.bind (net.roots[·]?)).toList

/-! ## Adding and removing -/

/-- A node is hung below its parents and put in its place. -/
def link (net : Network) (n : Node) : Network where
  nodes := ((net.parentsOf n.kind).foldl (fun nodes parent => nodes.modify parent (·.addSink n.id))
    net.nodes).insert n.id n
  roots := match n.kind.rootKey? with
    | some key => net.roots.insert key n.id
    | none => net.roots
  size := net.size + 1

/-- A node is added, unless its number is taken or one of its sources is
    missing. -/
def insert (net : Network) (n : Node) : Except Fault Network :=
  if net.contains n.id then .error (.breach (.slotTaken n.id))
  else match n.kind.sources.find? fun source => !net.contains source with
    | some source => .error (.nodeNotFound source)
    | none => .ok (net.link n)

/-- A node is taken from its place and from below its parents. -/
def unlink (net : Network) (n : Node) : Network where
  nodes := (net.parentsOf n.kind).foldl (fun nodes parent => nodes.modify parent (·.dropSink n.id))
    (net.nodes.erase n.id)
  roots := match n.kind.rootKey? with
    | some key => net.roots.erase key
    | none => net.roots
  size := net.size - 1

/-- A node is removed, unless something hangs below it. -/
def remove (net : Network) (id : NodeId) : Except Fault (Node × Network) := do
  let n ← net.require id
  if n.sinks.isEmpty then return (n, net.unlink n)
  else throw (.breach (.sinksLeft id n.sinks.length))

/-! ## Partitions -/

/-- A node gets the partition that the rules still using it give it. -/
def repartition (net : Network) (id : NodeId) (partitions : Std.ExtTreeMap RuleId PartitionId) :
    Except Fault (Option PartitionId × Network) := do
  let n ← net.require id
  let partition? := n.partitionFrom partitions
  return (partition?, net.modify id ({ · with partition? }))

end Network

end RuleNet
