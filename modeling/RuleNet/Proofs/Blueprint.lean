/-
  RuleNet — blueprints: what compiling a rule asks of the network.

  Compiling a rule is a series of requests for nodes.  Which nodes are asked
  for depends on the rule alone and not on the network: a request names its
  sources by the steps that asked for them, and the rule has number 0.  A
  blueprint is that series, drawn by following the rule's branches without a
  network.

  In an orderly series every request takes its inputs from earlier steps of the
  right kind, and a root of a type follows the root of its entry point.
-/
import Mathlib
import RuleNet.Session.Compile

namespace RuleNet

/-! ## Renaming the nodes around a node -/

namespace NodeKind

/-- The same kind, with its sources and its rule renamed. -/
def map (f : NodeId → NodeId) (g : RuleId → RuleId) : NodeKind → NodeKind
  | entryPoint entry => entryPoint entry
  | objectType entry type memory => objectType entry type memory
  | alpha source test => alpha (f source) test
  | leftInput source => leftInput (f source)
  | join j => join { j with left := f j.left, right := f j.right }
  | rightInput source => rightInput (f source)
  | queryElement left query arguments => queryElement (f left) query arguments
  | terminal source rule branch query => terminal (f source) (g rule) branch query

variable {f f' : NodeId → NodeId} {g : RuleId → RuleId} {k : NodeKind}

@[simp] theorem sources_map : (k.map f g).sources = k.sources.map f := by
  cases k <;> rfl

@[simp] theorem rootKey?_map : (k.map f g).rootKey? = k.rootKey? := by
  cases k <;> rfl

@[simp] theorem parentKey?_map : (k.map f g).parentKey? = k.parentKey? := by
  cases k <;> rfl

/-- Only the names of the sources count. -/
theorem map_congr (h : ∀ s ∈ k.sources, f s = f' s) : k.map f g = k.map f' g := by
  cases k <;> simp_all [map, sources]

/-! ## What nodes take from their sources -/

/-- What a node takes from one of its sources. -/
inductive Supply where
  /-- Facts of one type. -/
  | facts
  /-- Facts of one type, or tuples as facts. -/
  | objects
  /-- Tuples. -/
  | tuples
  deriving DecidableEq

/-- The sources of a node, with what it takes from them. -/
def inputs : NodeKind → List (NodeId × Supply)
  | entryPoint _ | objectType .. => []
  | alpha source _ | leftInput source => [(source, .facts)]
  | join j => [(j.left, .tuples), (j.right, .objects)]
  | rightInput source => [(source, .tuples)]
  | queryElement left _ _ => [(left, .tuples)]
  | terminal source .. => [(source, .tuples)]

/-- Whether a node gives what is taken from it. -/
def supplies : NodeKind → Supply → Bool
  | objectType .., .facts | alpha .., .facts => true
  | objectType .., .objects | alpha .., .objects | rightInput _, .objects => true
  | leftInput _, .tuples | join _, .tuples | queryElement .., .tuples => true
  | _, _ => false

theorem sources_eq_inputs (k : NodeKind) : k.sources = k.inputs.map (·.1) := by
  cases k <;> rfl

@[simp] theorem inputs_map : (k.map f g).inputs = k.inputs.map fun i => (f i.1, i.2) := by
  cases k <;> rfl

@[simp] theorem supplies_map (s : Supply) : (k.map f g).supplies s = k.supplies s := by
  cases k <;> cases s <;> rfl

theorem supplies_objects_of_facts (h : k.supplies .facts) : k.supplies .objects := by
  cases k <;> simp_all [supplies]

/-- No node gives both objects and tuples. -/
theorem not_supplies_tuples (h : k.supplies .objects) : ¬ k.supplies .tuples := by
  cases k <;> simp_all [supplies]

end NodeKind

/-! ## Requests -/

/-- A request for a node. -/
structure Request where
  /-- What the node is to do, its sources given by the steps that asked for
      them. -/
  kind : NodeKind
  /-- Whether guards are left out when tests are weighed. -/
  guardsOut : Bool
  /-- How long the rule wants facts kept. -/
  expiration? : Option Expiration
  deriving DecidableEq

/-- Whether a request may stand after some others.  Roots keep facts as told by
    `memory`. -/
structure Request.Follows (memory : Bool) (earlier : List Request) (q : Request) : Prop where
  /-- The sources are earlier steps that give what is taken from them. -/
  input : ∀ i ∈ q.kind.inputs, ∃ p, earlier[i.1]? = some p ∧ p.kind.supplies i.2
  /-- The root of a type follows the root of its entry point. -/
  parent : ∀ key, q.kind.parentKey? = some key → ∃ p ∈ earlier, p.kind.rootKey? = some key
  memory : ∀ entry type m, q.kind = .objectType entry type m → m = memory
  /-- A join is noted as a cross product if none of its tests counts. -/
  cross : ∀ j, q.kind = .join j → j.crossProduct = JoinTest.noneCounts q.guardsOut j.tests

/-- Every request takes its inputs from earlier ones. -/
def Orderly (memory : Bool) (steps : List Request) : Prop :=
  ∀ (i : Nat) (q : Request), steps[i]? = some q → q.Follows memory (steps.take i)

section Orderly
variable {memory : Bool} {steps : List Request} {q : Request}

theorem orderly_nil : Orderly memory [] := by
  intro i q h
  simp at h

theorem Orderly.snoc (h : Orderly memory steps) (hq : q.Follows memory steps) :
    Orderly memory (steps ++ [q]) := by
  intro i p hp
  rcases Nat.lt_trichotomy i steps.length with hi | rfl | hi
  · rw [List.getElem?_append_left hi] at hp
    rw [List.take_append_of_le_length hi.le]
    exact h i p hp
  · rw [List.getElem?_concat_length] at hp
    cases hp
    rwa [List.take_left]
  · rw [List.getElem?_eq_none (by simp; omega)] at hp
    cases hp

theorem Orderly.source_lt (h : Orderly memory steps) {i : Nat} (hq : steps[i]? = some q) {s : NodeId}
    (hs : s ∈ q.kind.sources) : s < i := by
  rw [NodeKind.sources_eq_inputs, List.mem_map] at hs
  obtain ⟨⟨s, w⟩, hin, rfl⟩ := hs
  obtain ⟨p, hp, -⟩ := (h i q hq).input _ hin
  have := (List.getElem?_eq_some_iff.1 hp).1
  rw [List.length_take] at this
  exact lt_of_lt_of_le this (min_le_left _ _)

end Orderly

/-! ## Drawing -/

/-- What stays the same while a group is drawn. -/
structure Setting where
  memory : Bool
  /-- The distances between the events of the branch, where facts may be
      events. -/
  distances? : Option Distances
  guardsOut : Bool

/-- How long the fact of a pattern must be kept, where facts may be events. -/
def Setting.expirationOf (c : Setting) (p : Pattern) : Option Expiration :=
  if p.event && !p.isSynthetic then c.distances?.map (·.expiration p.offset) else none

/-- A blueprint while it is drawn. -/
structure Draft where
  steps : List Request
  scope : Scope
  recent : Recent
  /-- The step that the next one takes its tuples from. -/
  tuple? : Option Nat

/-- A step of drawing a blueprint. -/
abbrev Draw (α : Type) := EStateM Fault Draft α

namespace Draft

/-- A draft without requests. -/
def empty : Draft := ⟨[], [], .none, none⟩

/-- The draft at the beginning of a branch. -/
def nextBranch (d : Draft) : Draft := { empty with steps := d.steps }

/-- A pattern has been drawn. -/
def record (d : Draft) (p : Pattern) : Draft := { d with recent := d.recent.record p }

/-- The fact of a pattern became part of the tuple, at a step. -/
def extend (d : Draft) (tuple : Nat) (p : Pattern) : Draft :=
  { d with tuple? := some tuple, scope := d.scope ++ [p] }

end Draft

namespace Draw

/-- A node is requested; the number of the step is returned. -/
def request (c : Setting) (kind : NodeKind) (expiration? : Option Expiration) : Draw Nat :=
  modifyGet fun d =>
    (d.steps.length, { d with steps := d.steps ++ [⟨kind, c.guardsOut, expiration?⟩] })

/-- A join is requested. -/
def join (c : Setting) (kind : JoinKind) (left right : Nat) (tests : List JoinTest)
    (tupleMemory : Bool) (expiration? : Option Expiration) : Draw Nat :=
  request c (.join { kind, left, right, tests, tupleMemory
                     crossProduct := JoinTest.noneCounts c.guardsOut tests }) expiration?

/-- The object side of a pattern is requested; its last step is returned. -/
def objectSide (c : Setting) (p : Pattern) : Draw Nat := do
  let _ ← request c (.entryPoint p.entry) none
  let root ← request c (.objectType p.entry p.type c.memory) (c.expirationOf p)
  p.fieldTests.foldlM (fun source t => request c (.alpha source t) (c.expirationOf p)) root

/-- A pattern is drawn; the step of its tuple is returned. -/
def pattern (c : Setting) (p : Pattern) : Draw Nat := do
  let tests ← ofExcept ((← get).scope.resolve p.joinTests)
  let object ← objectSide c p
  modify (·.record p)
  let tuple ← match (← get).tuple? with
    | none => request c (.leftInput object) none
    | some left => join c .join left object tests true (c.expirationOf p)
  modify (·.extend tuple p)
  return tuple

/-- The step of the tuple at hand: if none has been started, the initial fact
    starts it. -/
def tuple (c : Setting) : Draw Nat := do
  match (← get).tuple? with
  | some source => return source
  | none => pattern c .initialFact

/-- A single pattern as the right input of a negation or existence claim. -/
def single (c : Setting) (p : Pattern) : Draw (Nat × List JoinTest × Option Expiration) := do
  let tests ← ofExcept ((← get).scope.resolve p.joinTests)
  let source ← objectSide c p
  modify (·.record p)
  return (source, tests, c.expirationOf p)

/-- A subnetwork as the right input of a negation or existence claim. -/
def subnetwork (c : Setting) (left : Nat) (members : Draw Unit) :
    Draw (Nat × List JoinTest × Option Expiration) := do
  let scope := (← get).scope
  members
  match (← get).tuple? with
  | none => throw (.breach .subnetworkWithoutOutput)
  | some last =>
    let source ← request c (.rightInput last) none
    modify fun d => { d with tuple? := some left, scope := d.scope.take scope.length }
    return (source, [], none)

/-- A negation or existence claim is drawn. -/
def quantified (c : Setting) (q : Session.Quantifier) (members : List Element)
    (drawMembers : Draw Unit) : Draw Unit := do
  if members.isEmpty then throw (.unexpectedElement q.emptyGroup)
  let left ← tuple c
  let first := (← get).recent.latest?.any (·.isInitialFact)
  let (source, tests, expiration?) ← match Element.single? members with
    | some p => single c p
    | none => subnetwork c left drawMembers
  let node ← join c q.joinKind left source tests (!first) expiration?
  modify ({ · with tuple? := some node })

/-- A universal statement is drawn. -/
def universal (c : Setting) (base : Pattern) (rest : List Pattern) : Draw Unit :=
  let u := Universal.of base rest
  let c := { c with guardsOut := u.guardsOnly }
  quantified c .none u.outer do
    let _ ← pattern c u.base
    quantified c .none u.inner (u.rest.forM fun p => do let _ ← pattern c p)

/-- A call of a query is drawn. -/
def call (c : Setting) (q : QueryCall) : Draw Unit := do
  let left ← tuple c
  let arguments ← ofExcept ((← get).scope.resolveArguments q.arguments)
  let node ← request c (.queryElement left q.query arguments) none
  modify fun d => (d.record q.result).extend node q.result

mutual

/-- An element is drawn. -/
def element (c : Setting) : Element → Draw Unit
  | .pattern p => do let _ ← pattern c p
  | .group .and members => elements c members
  | .group .or _ => throw (.unexpectedElement .orInBranch)
  | .group .not members => quantified c .none members (elements c members)
  | .group .exists members => quantified c .some members (elements c members)
  | .every base rest => universal c base rest
  | .call q => call c q

/-- Elements are drawn one after the other. -/
def elements (c : Setting) : List Element → Draw Unit
  | [] => pure ()
  | e :: es => do
    element c e
    elements c es

end

/-- A branch is drawn; the step of its terminal is returned. -/
def branch (config : Config) (query : Bool) (b : Branch) : Draw Nat := do
  modify Draft.nextBranch
  let distances? ←
    if config.isStream then some <$> ofExcept (Distances.ofPatterns b.body.patterns)
    else pure none
  let c : Setting := ⟨config.objectTypeMemory, distances?, false⟩
  elements c b.body.members
  let source ← tuple c
  request c (.terminal source 0 b.index query) none

/-- The branches of a rule are drawn; the steps of their terminals are
    returned. -/
def rule (config : Config) (r : Rule) : Draw (List Nat) := do
  let branches ← ofExcept r.body.branches
  branches.mapM (branch config r.isQuery)

end Draw

/-- What compiling a rule asks of the network. -/
structure Blueprint where
  steps : List Request
  /-- The steps of the terminals, branch by branch. -/
  terminals : List Nat

/-- The blueprint of a rule, or why it cannot be compiled. -/
def Rule.blueprint (config : Config) (r : Rule) : Except Fault Blueprint :=
  match Draw.rule config r .empty with
  | .ok terminals d => .ok ⟨d.steps, terminals⟩
  | .error fault _ => .error fault

/-- What a rule asks for, up to where it fails. -/
def Rule.requests (r : Rule) (config : Config) : List Request :=
  match Draw.rule config r .empty with
  | .ok _ d => d.steps
  | .error _ d => d.steps

end RuleNet
