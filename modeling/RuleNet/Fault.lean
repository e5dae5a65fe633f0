/-
  RuleNet — what can go wrong, and where.

  A fault is a cause.  Some faults lie in a rule (a name that is taken, a
  reference to nothing, times that contradict each other), others in the use
  of the library: a stack, a number or a node handled out of turn.  A failure
  is a fault, with the place in the rule at which it arose where that is known.
-/
import RuleNet.Ident

namespace RuleNet

/-! ## Causes -/

/-- The stacks that a compilation keeps. -/
inductive StackKind where
  /-- The elements that enclose the one being attached. -/
  | elements
  /-- The constructs that nodes are traced back to. -/
  | trail
  deriving DecidableEq

/-- The word for a stack. -/
def StackKind.text : StackKind → String
  | elements => "build"
  | trail => "rule component"

/-- What a constraint reads from the fact it refers to. -/
inductive Reading where
  /-- One of its fields. -/
  | field (f : Symbol)
  /-- Which fact it is. -/
  | identity
  /-- When it happens. -/
  | time
  /-- Something else, given by the word for it. -/
  | named (word : String)
  deriving DecidableEq

/-- The word for what is read. -/
def Reading.text : Reading → String
  | field f => f.text
  | identity => "this"
  | time => "timestamp"
  | named word => word

/-- An element that has no meaning where it stands. -/
inductive Misplaced where
  /-- A disjunction of nothing. -/
  | emptyOr
  /-- The negation of nothing. -/
  | emptyNot
  /-- The existence of nothing. -/
  | emptyExists
  /-- A disjunction inside a branch. -/
  | orInBranch
  /-- Something else, given by its description. -/
  | described (description : String)
  deriving DecidableEq

/-- The description of a misplaced element. -/
def Misplaced.text : Misplaced → String
  | emptyOr => "empty or group"
  | emptyNot => "empty not group"
  | emptyExists => "empty exists group"
  | orInBranch => "or group left in a sub-rule after or-expansion"
  | described description => description

/-- A broken promise of a caller. -/
inductive Breach where
  /-- A node is added under a number that is taken. -/
  | slotTaken (id : NodeId)
  /-- A node is removed while others still take their input from it. -/
  | sinksLeft (id : NodeId) (count : Nat)
  /-- A node is attached, but for no rule. -/
  | noRule
  /-- More patterns are left than were entered. -/
  | offsetBelowZero
  /-- More patterns are in scope than were entered. -/
  | scopeTooLong (size offset : Nat)
  /-- The initial fact is matched after another pattern. -/
  | lateInitialFact
  /-- A negation has nothing on its left. -/
  | negationWithoutInput
  /-- A query call has nothing on its left. -/
  | callWithoutInput
  /-- A group has no last node. -/
  | subnetworkWithoutOutput
  /-- A branch has no last node. -/
  | branchWithoutOutput
  /-- A rule is removed by a name that no rule has. -/
  | noRuleNamed (name : String)
  /-- Something else, given by its description. -/
  | described (description : String)
  deriving DecidableEq

/-- The description of a broken promise. -/
def Breach.text : Breach → String
  | slotTaken id => "node slot " ++ id.text ++ " already occupied"
  | sinksLeft id count => "cannot remove " ++ id.text ++ s!": {count} sink(s) still attached"
  | noRule => "no rule set on build context"
  | offsetBelowZero => "pattern offset decremented below zero"
  | scopeTooLong size offset => s!"ledger of {size} pattern(s) exceeds offset {offset}"
  | lateInitialFact => "initial fact attached after the first pattern"
  | negationWithoutInput => "negation has no left input"
  | callWithoutInput => "query call has no left input"
  | subnetworkWithoutOutput => "subnetwork produced no tuple source"
  | branchWithoutOutput => "sub-rule produced no tuple source"
  | noRuleNamed name => "no rule named " ++ name
  | described description => description

/-- Why an operation failed. -/
inductive Fault where
  /-- Something is taken from a stack that holds nothing. -/
  | emptyStack (stack : StackKind)
  /-- A stack holds something where a rule begins or ends. -/
  | unbalancedStack (stack : StackKind) (depth : Nat)
  /-- A number is returned that was never given out. -/
  | neverAllocated (id : NodeId)
  /-- A number is returned twice. -/
  | alreadyReleased (id : NodeId)
  /-- There is no such node. -/
  | nodeNotFound (id : NodeId)
  /-- There is no such rule. -/
  | ruleNotFound (rule : RuleId)
  /-- The name of a rule is taken. -/
  | duplicateRule (name : String)
  /-- A constraint refers to a pattern that is not in scope. -/
  | unboundDeclaration (offset : Offset) (reading : Reading)
  /-- The times of two patterns contradict each other. -/
  | unsatisfiableTimes (first second : Offset)
  /-- An element has no meaning where it stands. -/
  | unexpectedElement (what : Misplaced)
  /-- A caller broke a promise. -/
  | breach (what : Breach)
  deriving DecidableEq

namespace Fault

/-- The message of a fault. -/
def message : Fault → String
  | emptyStack stack => stack.text ++ " stack is empty"
  | unbalancedStack stack depth => stack.text ++ s!" stack unbalanced: {depth} element(s) left"
  | neverAllocated id => "node id " ++ id.text ++ " was never allocated"
  | alreadyReleased id => "node id " ++ id.text ++ " already released"
  | nodeNotFound id => "node not found: " ++ id.text
  | ruleNotFound rule => "rule not found: " ++ rule.text
  | duplicateRule name => "duplicate rule: " ++ name
  | unboundDeclaration offset reading =>
    s!"unbound declaration: pattern {offset} field " ++ reading.text
  | unsatisfiableTimes first second =>
    s!"unsatisfiable temporal constraints between patterns {first} and {second}"
  | unexpectedElement what => "unexpected element: " ++ what.text
  | breach what => "internal error: " ++ what.text

/-- Whether the fault lies in the use of the library and not in a rule. -/
def isContractViolation : Fault → Bool
  | emptyStack _ | unbalancedStack .. | neverAllocated _ | alreadyReleased _ | breach _ => true
  | nodeNotFound _ | ruleNotFound _ | duplicateRule _ | unboundDeclaration ..
  | unsatisfiableTimes .. | unexpectedElement _ => false

end Fault

/-! ## Places -/

/-- Where in a rule a fault arose. -/
structure Place where
  /-- The name of the rule. -/
  rule? : Option String := none
  /-- The offset of the pattern. -/
  offset? : Option Offset := none
  /-- The enclosing elements as written, outermost first. -/
  frames : List String := []
  deriving DecidableEq

/-- A place in words: the rule, with the pattern if both are known, and below
    it a line for each enclosing element. -/
def Place.text (p : Place) : String :=
  let rule := match p.rule?, p.offset? with
    | some rule, some offset => "in rule " ++ rule ++ s!" at pattern {offset}"
    | some rule, none => "in rule " ++ rule
    | none, _ => ""
  if p.frames.isEmpty then rule
  else rule ++ "\n" ++ String.join (p.frames.map fun frame => "  in " ++ frame ++ "\n")

/-- A fault, with its place where that is known. -/
structure Failure where
  /-- Why the operation failed. -/
  fault : Fault
  /-- Where it failed. -/
  place? : Option Place := none
  deriving DecidableEq

end RuleNet
