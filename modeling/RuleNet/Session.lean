/-
  RuleNet — a session of compiling rules into a rule base.

  A session holds the rule base and everything that a compilation keeps track
  of: the rule and the branch at hand, the nodes from which the next one takes
  its input, the patterns in scope, the enclosing elements, and the nodes that
  the rule has taken into use, with what they were like before.

  Compilations are functions from sessions to sessions that may fail; a failed
  one leaves the session as it was at the point of failure.
-/
import RuleNet.Branch
import RuleNet.RuleBase
import RuleNet.Scope
import RuleNet.Stack
import RuleNet.Time.Distances

namespace RuleNet

/-! ## Sessions -/

/-- A node that the rule at hand has taken into use. -/
structure Attached where
  /-- The node. -/
  id : NodeId
  /-- Whether it was made for the rule. -/
  created : Bool
  /-- Its partition before. -/
  previousPartition? : Option PartitionId
  /-- How long it had to keep facts before. -/
  previousTotal? : Option Expiration
  deriving DecidableEq

/-- A report of two patterns that no test relates. -/
structure CrossProduct where
  /-- Whether the rule's author should be warned. -/
  warning : Bool
  /-- The name of the rule. -/
  rule : String
  /-- The pattern attached last. -/
  latest : Pattern
  /-- The pattern attached before it. -/
  previous : Pattern
  deriving DecidableEq

/-- The state of a session. -/
structure Session where
  /-- The rule base that rules are compiled into. -/
  base : RuleBase
  /-- How nodes are made. -/
  maker : NodeMaker
  /-- The working memories to be told, once they have been read. -/
  memories? : Option (List MemoryId)
  /-- Where the next node takes its tuples from. -/
  tupleSource? : Option NodeId
  /-- Where the next node takes its facts from. -/
  objectSource? : Option NodeId
  /-- The root of the type of the pattern attached last. -/
  objectRoot? : Option NodeId
  /-- How many facts the tuple at hand has. -/
  offset : Nat
  /-- The patterns of those facts. -/
  scope : Scope
  /-- The enclosing elements, once there were any. -/
  elements? : Option (Stack Element)
  /-- The enclosing constructs, once there were any. -/
  trail? : Option (Stack Origin)
  /-- The patterns attached last. -/
  recent : Recent
  /-- The field tests of the pattern attached last. -/
  fieldTests : List FieldTest
  /-- The tests of the join attached last. -/
  joinTests : List JoinTest
  /-- Where the facts of the pattern attached last enter. -/
  entry : EntryPoint
  /-- Whether joins made now keep tuples. -/
  tupleMemory : Bool
  /-- Whether roots made now keep facts. -/
  objectTypeMemory : Bool
  /-- Whether guards are left out when tests are weighed. -/
  guardsOut : Bool
  /-- The rule at hand. -/
  rule? : Option Rule
  /-- Its number. -/
  ruleId? : Option RuleId
  /-- Whether it is a query. -/
  query : Bool
  /-- The branch at hand. -/
  branch? : Option Branch
  /-- The nodes taken into use, in the order of attachment. -/
  attached : List Attached
  /-- The partition of the rule at hand. -/
  partition? : Option PartitionId
  /-- The distances between the events of the branch at hand. -/
  distances? : Option Distances
  /-- The cross products reported so far, oldest first. -/
  reports : Array CrossProduct

/-- A step of a compilation. -/
abbrev Compile (α : Type) := EStateM Fault Session α

namespace Session

/-- A new session on a rule base. -/
def start (base : RuleBase) : Session where
  base
  maker := base.config.maker
  memories? := none
  tupleSource? := none
  objectSource? := none
  objectRoot? := none
  offset := 0
  scope := []
  elements? := none
  trail? := none
  recent := .none
  fieldTests := []
  joinTests := []
  entry := .default
  tupleMemory := true
  objectTypeMemory := base.config.objectTypeMemory
  guardsOut := false
  rule? := none
  ruleId? := none
  query := false
  branch? := none
  attached := []
  partition? := none
  distances? := none
  reports := #[]

/-! ## Scope -/

/-- The scope is cut down to the facts of the tuple. -/
def syncScope (s : Session) : Session := { s with scope := s.scope.take s.offset }

/-- The tuple is cut or widened to a number of facts. -/
def setOffset (s : Session) (offset : Nat) : Session := syncScope { s with offset }

/-- The tuple is widened by a fact. -/
def widen (s : Session) : Session := { s with offset := s.offset + 1 }

/-- The tuple is cut by a fact. -/
def narrow (s : Session) : Except Fault Session :=
  if s.offset = 0 then .error (.breach .offsetBelowZero) else .ok (s.setOffset (s.offset - 1))

/-- The tuple is widened by the fact of a pattern. -/
def bindPattern (s : Session) (p : Pattern) : Session :=
  { s.widen with scope := s.scope ++ [p] }

/-- The scope is replaced by one that is not longer than the tuple. -/
def setScope (s : Session) (scope : Scope) : Except Fault Session :=
  if scope.length > s.offset then .error (.breach (.scopeTooLong scope.length s.offset))
  else .ok { s with scope }

/-- A pattern has been attached. -/
def recordPattern (s : Session) (p : Pattern) : Session := { s with recent := s.recent.record p }

/-! ## Stacks -/

/-- The enclosing elements, innermost first. -/
def elements (s : Session) : Stack Element := s.elements?.getD []

/-- The enclosing constructs, innermost first. -/
def trail (s : Session) : Stack Origin := s.trail?.getD []

/-- An element is entered. -/
def pushElement (s : Session) (e : Element) : Session :=
  { s with elements? := some (e :: s.elements) }

/-- The innermost element is left. -/
def popElement (s : Session) : Except Fault (Element × Session) := do
  let (e, below) ← Stack.pop .elements s.elements
  return (e, { s with elements? := some below })

/-- The innermost element. -/
def peekElement (s : Session) : Except Fault Element := Stack.peek .elements s.elements

/-- A construct is entered. -/
def pushOrigin (s : Session) (o : Origin) : Session := { s with trail? := some (o :: s.trail) }

/-- The innermost construct is left. -/
def popOrigin (s : Session) : Except Fault (Origin × Session) := do
  let (o, below) ← Stack.pop .trail s.trail
  return (o, { s with trail? := some below })

/-- The innermost construct. -/
def origin? (s : Session) : Option Origin := s.trail.head?

/-- Every element and every construct must have been left. -/
def checkBalanced (s : Session) : Except Fault Unit := do
  Stack.checkEmpty .elements s.elements
  Stack.checkEmpty .trail s.trail

/-- Both stacks are dropped. -/
def discardStacks (s : Session) : Session := { s with elements? := none, trail? := none }

/-! ## The rule at hand -/

/-- A rule is at hand, under a number. -/
def setRule (s : Session) (rule : Rule) (id : RuleId) : Session :=
  { s with rule? := some rule, ruleId? := some id, query := rule.isQuery }

/-- A node has been taken into use. -/
def attach (s : Session) (a : Attached) : Session := { s with attached := s.attached ++ [a] }

/-- How long the fact of a pattern must be kept, where facts may be events. -/
def expirationOf (s : Session) (p : Pattern) : Option Expiration :=
  if p.event && !p.isSynthetic then s.distances?.map (·.expiration p.offset) else none

/-- The working memories to be told; they are read once. -/
def readMemories (s : Session) : List MemoryId × Session :=
  let memories := s.memories?.getD s.base.memories
  (memories, { s with memories? := some memories })

/-- The place at which a compilation is. -/
def place (s : Session) : Place where
  rule? := s.rule?.map (·.name)
  offset? := (Stack.innermostOffset? s.elements).filter (· ≠ Offset.synthetic)
  frames := s.elements.reverse.map Element.text

/-! ## Beginning and ending -/

/-- All that belongs to one branch is forgotten. -/
def resetBranch (s : Session) : Session :=
  { s with
    tupleSource? := none, objectSource? := none, objectRoot? := none
    offset := 0, scope := [], recent := .none
    fieldTests := [], joinTests := [], entry := .default
    tupleMemory := true, guardsOut := false, branch? := none }

/-- All that belongs to one rule is forgotten, but for its partition.  The
    stacks must be empty. -/
def resetRule (s : Session) : Except Fault Session := do
  s.checkBalanced
  return { s.resetBranch.discardStacks with
    objectTypeMemory := s.base.config.objectTypeMemory
    rule? := none, ruleId? := none, query := false
    attached := [], distances? := none, memories? := none }

/-- The nodes taken into use are handed over. -/
def takeAttached (s : Session) : List Attached × Session := (s.attached, { s with attached := [] })

/-- The nodes taken into use are handed over, at the end of a rule. -/
def finish (s : Session) : Except Fault (List Attached × Session) := do
  s.checkBalanced
  return s.takeAttached

/-! ## Steps -/

/-- A step that may fail, and changes nothing. -/
def orFail {α : Type} : Except Fault α → Compile α
  | .ok a => pure a
  | .error fault => throw fault

/-- A step that may fail, and changes the session if it does not. -/
def change (f : Session → Except Fault Session) : Compile Unit := do
  set (← orFail (f (← get)))

/-- A step that may fail; if it does not, it gives a value and changes the
    session. -/
def take {α : Type} (f : Session → Except Fault (α × Session)) : Compile α := do
  let (a, s) ← orFail (f (← get))
  set s
  return a

/-- A new node number. -/
def issueId : Compile NodeId :=
  modifyGet fun s => let (id, base) := s.base.issueId; (id, { s with base })

/-- A node number is returned. -/
def releaseId (id : NodeId) : Compile Unit :=
  change fun s => return { s with base := ← s.base.releaseId id }

/-- The number of the rule at hand; there must be one. -/
def requireRule : Compile RuleId := do
  match (← get).ruleId? with
  | some rule => return rule
  | none => throw (.breach .noRule)

/-- The rule at hand takes a node into use, and may demand that its facts are
    kept. -/
def claim (id : NodeId) (expiration? : Option Expiration) : Compile Unit := do
  let rule ← requireRule
  change fun s => do
    let network ← s.base.network.update id fun n =>
      let n := (n.own rule).stamp (s.partition?.getD .shared)
      expiration?.elim n (n.require rule)
    return { s with base := { s.base with network } }

/-- A node is made for the rule at hand.  If the network refuses it, its number
    is returned. -/
def createNode (kind : NodeKind) (expiration? : Option Expiration) : Compile NodeId := do
  let _ ← requireRule
  let id ← issueId
  let s ← get
  match s.base.network.insert { id, kind, origin? := s.origin? } with
  | .error fault =>
    releaseId id
    throw fault
  | .ok network =>
    set (({ s with base := { s.base with network } } : Session).attach ⟨id, true, none, none⟩)
    claim id expiration?
    return id

/-- A node that is there is taken into use for the rule at hand. -/
def shareNode (id : NodeId) (expiration? : Option Expiration) : Compile NodeId := do
  let rule ← requireRule
  let s ← get
  let n ← orFail (s.base.network.require id)
  unless n.rules.contains rule do
    set (s.attach ⟨id, false, n.partition?, n.retention.total⟩)
  claim id expiration?
  return id

end Session

end RuleNet
