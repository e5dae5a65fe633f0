/-
  RuleNet — attaching the elements of a branch to the network.

  A pattern is attached by its object side (the root of its entry point, the
  root of its type, an alpha node for each field test) and then joined to the
  tuple at hand; the first pattern of a branch starts the tuple.  A negation
  or existence claim of a single pattern joins that pattern's object side; of
  anything else it is built as a subnetwork on the tuple at hand, whose
  patterns go out of scope at its end.  A universal statement is attached as
  the negation that it is.  Where the configuration allows, a node that
  already does the work is shared.
-/
import RuleNet.Network.Reuse
import RuleNet.Session

namespace RuleNet

namespace Session

/-! ## Frames and flags -/

/-- A step inside an element. -/
def insideElement {α : Type} (e : Element) (step : Compile α) : Compile α := do
  modify (·.pushElement e)
  let a ← step
  let _ ← take popElement
  return a

/-- A step inside a construct. -/
def insideOrigin {α : Type} (o : Origin) (step : Compile α) : Compile α := do
  modify (·.pushOrigin o)
  let a ← step
  let _ ← take popOrigin
  return a

/-- A step inside an element that is a construct. -/
def inside {α : Type} (e : Element) (o : Origin) (step : Compile α) : Compile α :=
  insideElement e (insideOrigin o step)

/-- A step during which joins keep tuples only as told. -/
def withTupleMemory {α : Type} (on : Bool) (step : Compile α) : Compile α := fun s =>
  match step { s with tupleMemory := on } with
  | .ok a t => .ok a { t with tupleMemory := s.tupleMemory }
  | .error fault t => .error fault { t with tupleMemory := s.tupleMemory }

/-- A step during which guards are left out, or not, when tests are weighed. -/
def withGuardsOut {α : Type} (on : Bool) (step : Compile α) : Compile α := fun s =>
  match step { s with guardsOut := on } with
  | .ok a t => .ok a { t with guardsOut := s.guardsOut }
  | .error fault t => .error fault { t with guardsOut := s.guardsOut }

/-! ## Single nodes -/

/-- A root is taken into use, and made if it is not there. -/
def attachRoot (key : RootKey) (kind : NodeKind) (expiration? : Option Expiration) :
    Compile NodeId := do
  let s ← get
  match s.base.network.roots[key]? with
  | some id => shareNode id expiration?
  | none => createNode (s.maker.make kind) expiration?

/-- A node that does the work of the wanted one is taken into use; where there
    is none, or nodes are not shared, it is made. -/
def attachNode (sharing : Bool) (wanted : NodeKind) (expiration? : Option Expiration) :
    Compile NodeId := do
  let s ← get
  match if sharing then s.base.network.findServing s.guardsOut wanted else none with
  | some id => shareNode id expiration?
  | none => createNode (s.maker.make wanted) expiration?

/-- An alpha node is attached. -/
def attachAlpha (source : NodeId) (t : FieldTest) (expiration? : Option Expiration) :
    Compile NodeId := do
  attachNode (← get).base.config.alphaSharing (.alpha source t) expiration?

/-- A node other than a root or an alpha node is attached. -/
def attachBeta (wanted : NodeKind) (expiration? : Option Expiration) : Compile NodeId := do
  attachNode (← get).base.config.betaSharing wanted expiration?

/-- A join is attached. -/
def attachJoin (kind : JoinKind) (left right : NodeId) (tests : List JoinTest)
    (expiration? : Option Expiration) : Compile NodeId := do
  modify ({ · with joinTests := tests })
  let s ← get
  let join : Join :=
    { kind, left, right, tests
      tupleMemory := s.tupleMemory
      crossProduct := JoinTest.noneCounts s.guardsOut tests }
  attachBeta (.join join) expiration?

/-! ## Patterns -/

/-- The object side of a pattern is attached; its last node is returned. -/
def attachObjectSide (p : Pattern) : Compile NodeId := do
  let expiration? := (← get).expirationOf p
  modify ({ · with entry := p.entry })
  let _ ← attachRoot ⟨p.entry, none⟩ (.entryPoint p.entry) none
  let memory := (← get).objectTypeMemory
  let root ← attachRoot ⟨p.entry, some p.type⟩ (.objectType p.entry p.type memory) expiration?
  modify ({ · with objectRoot? := some root, fieldTests := p.fieldTests })
  let last ← p.fieldTests.foldlM (fun source t =>
    insideOrigin (.fieldTest t) (attachAlpha source t expiration?)) root
  modify ({ · with objectSource? := some last })
  return last

/-- The latest two patterns are reported as a cross product.  The author is
    warned unless the earlier one is in no rule, or the later one only serves
    a negation or existence claim. -/
def reportCrossProduct (s : Session) : Session :=
  match s.recent.latest?, s.recent.previous? with
  | some latest, some previous =>
    let warning := !(previous.isSynthetic || Stack.encloses .not s.elements ||
      Stack.encloses .exists s.elements)
    { s with reports := s.reports.push ⟨warning, (s.rule?.map (·.name)).getD "", latest, previous⟩ }
  | _, _ => s

/-- The fact of a pattern becomes part of the tuple: its object side is joined
    to the tuple at hand, or starts the tuple. -/
def joinPattern (p : Pattern) (object : NodeId) (tests : List JoinTest) : Compile NodeId := do
  match (← get).tupleSource? with
  | none => attachBeta (.leftInput object) none
  | some left =>
    modify fun s => if s.scope.isCrossProduct p s.guardsOut then s.reportCrossProduct else s
    attachJoin .join left object tests ((← get).expirationOf p)

/-- A pattern is attached. -/
def attachPattern (p : Pattern) : Compile Unit :=
  inside (.pattern p) p.origin do
    let tests ← orFail ((← get).scope.resolve p.joinTests)
    let object ← attachObjectSide p
    modify (·.recordPattern p)
    let tuple ← joinPattern p object tests
    modify fun s => { s with tupleSource? := some tuple }.bindPattern p

/-- The pattern of the initial fact is attached; it must be the first one. -/
def attachInitialFact : Compile Unit := do
  if (← get).tupleSource?.isSome then throw (.breach .lateInitialFact)
  attachPattern .initialFact

/-- There is a tuple: if none has been started, the initial fact starts it. -/
def ensureTuple : Compile Unit := do
  if (← get).tupleSource?.isNone then attachInitialFact

/-- The node from which tuples are taken; there must be one. -/
def requireTuple (breach : Breach) : Compile NodeId := do
  match (← get).tupleSource? with
  | some source => return source
  | none => throw (.breach breach)

/-! ## Negations and existence claims -/

/-- The two kinds of groups that test a tuple without extending it. -/
inductive Quantifier where
  /-- The members do not all match. -/
  | none
  /-- The members all match in some way. -/
  | some

namespace Quantifier

/-- The connective of such a group. -/
def connective : Quantifier → Connective
  | none => .not
  | some => .exists

/-- The join that such a group becomes. -/
def joinKind : Quantifier → JoinKind
  | none => .not
  | some => .exists

/-- The origin of the nodes of such a group. -/
def origin : Quantifier → Origin
  | none => .not
  | some => .exists

/-- Such a group without members. -/
def emptyGroup : Quantifier → Misplaced
  | none => .emptyNot
  | some => .emptyExists

end Quantifier

/-- What a join has on its right: the node, the tests, and how long its facts
    must be kept. -/
structure RightInput where
  /-- Where facts come from. -/
  source : NodeId
  /-- When a fact goes with a tuple. -/
  tests : List JoinTest
  /-- How long the node must keep facts. -/
  expiration? : Option Expiration

/-- A single pattern as the right input of a negation or existence claim. -/
def attachSingle (p : Pattern) : Compile RightInput :=
  inside (.pattern p) p.origin do
    let tests ← orFail ((← get).scope.resolve p.joinTests)
    let source ← attachObjectSide p
    modify (·.recordPattern p)
    return ⟨source, tests, (← get).expirationOf p⟩

/-- A subnetwork on the tuple of `left` as the right input of a negation or
    existence claim.  The tuple is the one of `left` again afterwards. -/
def attachSubnetwork (left : NodeId) (members : Compile Unit) : Compile RightInput := do
  let offset := (← get).offset
  members
  let last ← requireTuple .subnetworkWithoutOutput
  let source ← attachBeta (.rightInput last) none
  modify fun s => { s.setOffset offset with tupleSource? := some left }
  return ⟨source, [], none⟩

/-- A negation or existence claim is attached; `attachMembers` attaches its
    members one after the other.  Tuples are not kept if the pattern attached
    last was about the initial fact. -/
def attachQuantified (q : Quantifier) (members : List Element) (attachMembers : Compile Unit) :
    Compile Unit := do
  if members.isEmpty then throw (.unexpectedElement q.emptyGroup)
  inside (.group q.connective members) q.origin do
    ensureTuple
    let left ← requireTuple .negationWithoutInput
    let single := (← get).recent.latest?.any (·.isInitialFact)
    let right ← match Element.single? members with
      | some p => attachSingle p
      | none => attachSubnetwork left attachMembers
    let memory := (← get).tupleMemory
    let node ← withTupleMemory (memory && !single)
      (attachJoin q.joinKind left right.source right.tests right.expiration?)
    modify ({ · with tupleSource? := some node })

/-! ## Universal statements, query calls and terminals -/

/-- A universal statement is attached.  If only guards relate its patterns to
    earlier ones, guards are left out meanwhile. -/
def attachUniversal (base : Pattern) (rest : List Pattern) : Compile Unit :=
  inside (.every base rest) .every do
    let u := Universal.of base rest
    withGuardsOut u.guardsOnly (attachQuantified .none u.outer do
      attachPattern u.base
      attachQuantified .none u.inner (u.rest.forM attachPattern))

/-- A call of a query is attached; its result becomes part of the tuple. -/
def attachCall (q : QueryCall) : Compile Unit :=
  inside (.call q) (.call q.query) do
    ensureTuple
    let left ← requireTuple .callWithoutInput
    let arguments ← orFail ((← get).scope.resolveArguments q.arguments)
    let node ← attachBeta (.queryElement left q.query arguments) none
    modify fun s =>
      let s := { s with tupleSource? := some node }
      (s.recordPattern q.result).bindPattern q.result

/-- The end of a branch is attached.  It is never shared. -/
def attachTerminal : Compile NodeId := do
  let source ← requireTuple .branchWithoutOutput
  let rule ← requireRule
  let s ← get
  createNode (s.maker.make (.terminal source rule ((s.branch?.map (·.index)).getD 0) s.query)) none

/-! ## Elements -/

mutual

/-- An element is attached. -/
def attachElement : Element → Compile Unit
  | .pattern p => attachPattern p
  | .group .and members => insideElement (.group .and members) (attachElements members)
  | .group .or _ => throw (.unexpectedElement .orInBranch)
  | .group .not members => attachQuantified .none members (attachElements members)
  | .group .exists members => attachQuantified .some members (attachElements members)
  | .every base rest => attachUniversal base rest
  | .call q => attachCall q

/-- Elements are attached one after the other. -/
def attachElements : List Element → Compile Unit
  | [] => pure ()
  | e :: es => do
    attachElement e
    attachElements es

end

end Session

end RuleNet
