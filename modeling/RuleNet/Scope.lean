/-
  RuleNet — the patterns in scope while a branch is compiled.

  The scope lists the patterns whose facts make up the tuple at hand, so that
  the place of a pattern in it is the position of its fact in the tuple.
  Resolving a test replaces the offset that it refers to by that position.
-/
import RuleNet.Condition
import RuleNet.Fault

namespace RuleNet

/-! ## Scopes -/

/-- The patterns in scope, in the order of the tuple. -/
abbrev Scope := List Pattern

/-- What a join test reads from the fact it refers to. -/
def JoinTest.reading : JoinTest → Reading
  | field _ _ read => .field read.field
  | identity _ => .identity
  | temporal .. => .time

namespace Scope

/-- The position of the pattern with an offset; patterns added by the compiler
    cannot be referred to. -/
def find (scope : Scope) (offset : Offset) : Option Nat :=
  scope.findIdx? fun p => p.offset == offset && !p.isSynthetic

/-- Whether the pattern with an offset is in scope. -/
def binds (scope : Scope) (offset : Offset) : Bool := (scope.find offset).isSome

/-- The position of the pattern with an offset, which must be in scope to be
    read. -/
def position (scope : Scope) (offset : Offset) (reading : Reading) : Except Fault Nat :=
  match scope.find offset with
  | some position => .ok position
  | none => .error (.unboundDeclaration offset reading)

/-- A join test with its offset replaced by a position. -/
def resolveTest (scope : Scope) (t : JoinTest) : Except Fault JoinTest := do
  let position ← scope.position t.target t.reading
  return t.retarget position

/-- Join tests with their offsets replaced by positions. -/
def resolve (scope : Scope) (ts : List JoinTest) : Except Fault (List JoinTest) :=
  ts.mapM scope.resolveTest

/-- An argument with its offset replaced by a position. -/
def resolveArgument (scope : Scope) : Argument → Except Fault Argument
  | .literal v => .ok (.literal v)
  | .bound read => do
    let position ← scope.position read.offset (.field read.field)
    return .bound ⟨position, read.field⟩

/-- Arguments with their offsets replaced by positions. -/
def resolveArguments (scope : Scope) (as : List Argument) : Except Fault (List Argument) :=
  as.mapM scope.resolveArgument

/-- Whether none of the tests that count relates a pattern to one in scope,
    though some pattern is in scope. -/
def isCrossProduct (scope : Scope) (p : Pattern) (guardsOut : Bool) : Bool :=
  !scope.isEmpty && !(JoinTest.weighed guardsOut p.joinTests).any fun t => scope.binds t.target

end Scope

/-! ## The latest patterns -/

/-- The two patterns attached last. -/
structure Recent where
  /-- The one attached last. -/
  latest? : Option Pattern
  /-- The one attached before it. -/
  previous? : Option Pattern
  deriving DecidableEq

namespace Recent

/-- No pattern was attached. -/
def none : Recent := ⟨Option.none, Option.none⟩

/-- A pattern is attached. -/
def record (r : Recent) (p : Pattern) : Recent := ⟨some p, r.latest?⟩

end Recent

end RuleNet
