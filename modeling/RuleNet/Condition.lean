/-
  RuleNet — conditions of rules.

  A pattern matches one fact.  Elements are patterns, groups of elements under
  a connective, universal statements (every fact that matches `base` also
  matches each pattern of `rest`) and calls of queries.  A rule is a name, a
  body and a priority; its body is one group.
-/
import RuleNet.Constraint

namespace RuleNet

/-! ## Patterns -/

/-- A relation in time to the event of an earlier pattern. -/
structure TimeTest where
  /-- The relation. -/
  relation : TimeRelation
  /-- The offset of the earlier pattern. -/
  target : Offset
  deriving DecidableEq

/-- A time test as a join test. -/
def TimeTest.toJoinTest (t : TimeTest) : JoinTest := .temporal t.relation t.target

/-- A condition on one fact. -/
structure Pattern where
  /-- The position of the pattern in the body. -/
  offset : Offset
  /-- The type of the fact. -/
  type : Symbol
  /-- Where the fact enters. -/
  entry : EntryPoint := .default
  /-- Tests of single fields. -/
  fieldTests : List FieldTest := []
  /-- Tests against facts of earlier patterns. -/
  ownJoinTests : List JoinTest := []
  /-- Relations in time to events of earlier patterns. -/
  timeTests : List TimeTest := []
  /-- Whether the fact is an event, which happens at some time. -/
  event : Bool := false
  deriving DecidableEq

namespace Pattern

/-- The pattern of the one fact that is there from the start. -/
def initialFact : Pattern where
  offset := Offset.synthetic
  type := Symbol.initialFact

/-- Whether the pattern is about the type of the initial fact. -/
def isInitialFact (p : Pattern) : Bool := p.type == Symbol.initialFact

/-- Whether the pattern stands in no rule but was added by the compiler. -/
def isSynthetic (p : Pattern) : Bool := p.offset == Offset.synthetic

/-- All tests against facts of earlier patterns, those of time last. -/
def joinTests (p : Pattern) : List JoinTest := p.ownJoinTests ++ p.timeTests.map TimeTest.toJoinTest

/-- Whether more than guards relates the pattern to earlier ones. -/
def isRelated (p : Pattern) : Bool :=
  !p.timeTests.isEmpty || p.ownJoinTests.any fun t => !t.isGuard

/-- The pattern without its tests. -/
def bare (p : Pattern) : Pattern := { p with fieldTests := [], ownJoinTests := [], timeTests := [] }

/-- The pattern with a guard added: its fact is the one that matched `base`. -/
def guarded (p : Pattern) (base : Offset) : Pattern :=
  { p with ownJoinTests := p.ownJoinTests ++ [.identity base] }

/-- A pattern as written, its field tests before its join tests. -/
def text (p : Pattern) : String :=
  if p.isSynthetic then p.type.text ++ "()"
  else
    let tests := p.fieldTests.map FieldTest.text ++ p.joinTests.map JoinTest.text
    s!"${p.offset} " ++ p.type.text ++ "(" ++ ", ".intercalate tests ++ ")"

end Pattern

/-! ## Elements -/

/-- How the elements of a group belong together. -/
inductive Connective where
  /-- All of them match. -/
  | and
  /-- Some one of them matches. -/
  | or
  /-- They do not all match together. -/
  | not
  /-- They do all match together, no matter in how many ways. -/
  | exists
  deriving DecidableEq

/-- The word for a connective. -/
def Connective.text : Connective → String
  | and => "and"
  | or => "or"
  | not => "not"
  | .exists => "exists"

/-- A call of a query.  Its result stands in the match like a fact. -/
structure QueryCall where
  /-- The query. -/
  query : Symbol
  /-- What it is asked. -/
  arguments : List Argument
  /-- The pattern that stands for the result. -/
  result : Pattern
  deriving DecidableEq

/-- A call whose result is the pattern at `offset`, of a type named like the
    query. -/
def QueryCall.at (offset : Offset) (query : Symbol) (arguments : List Argument) : QueryCall :=
  { query, arguments, result := { offset, type := query } }

/-- A condition. -/
inductive Element where
  /-- A fact matches. -/
  | pattern (p : Pattern)
  /-- The members match as the connective says. -/
  | group (c : Connective) (members : List Element)
  /-- Every fact that matches `base` also matches each pattern of `rest`. -/
  | every (base : Pattern) (rest : List Pattern)
  /-- A query answers. -/
  | call (q : QueryCall)

namespace Element

mutual

/-- Whether two elements are equal. -/
def decEq : (a b : Element) → Decidable (a = b)
  | pattern p, pattern q => decidable_of_iff (p = q) (by simp)
  | group c xs, group d ys =>
    match decEqList xs ys with
    | isTrue h => decidable_of_iff (c = d) (by simp [h])
    | isFalse h => isFalse (by simp [h])
  | every b r, every c s => decidable_of_iff (b = c ∧ r = s) (by simp)
  | call q, call r => decidable_of_iff (q = r) (by simp)
  | pattern _, group .. | pattern _, every .. | pattern _, call _
  | group .., pattern _ | group .., every .. | group .., call _
  | every .., pattern _ | every .., group .. | every .., call _
  | call _, pattern _ | call _, group .. | call _, every .. => isFalse (by simp)

/-- Whether two lists of elements are equal. -/
def decEqList : (xs ys : List Element) → Decidable (xs = ys)
  | [], [] => isTrue rfl
  | [], _ :: _ | _ :: _, [] => isFalse (by simp)
  | x :: xs, y :: ys =>
    match decEq x y, decEqList xs ys with
    | isTrue h, isTrue hs => isTrue (by simp [h, hs])
    | isFalse h, _ => isFalse (by simp [h])
    | _, isFalse hs => isFalse (by simp [hs])

end

instance : DecidableEq Element := decEq

mutual

/-- Whether a disjunction stands anywhere inside. -/
def hasOr : Element → Bool
  | group c members => c == .or || hasOrList members
  | pattern _ | every .. | call _ => false

/-- Whether a disjunction stands anywhere inside one of the elements. -/
def hasOrList : List Element → Bool
  | [] => false
  | e :: es => e.hasOr || hasOrList es

end

mutual

/-- All patterns inside, in the order of the body. -/
def patterns : Element → List Pattern
  | pattern p => [p]
  | group _ members => patternsList members
  | every base rest => base :: rest
  | call q => [q.result]

/-- All patterns inside a list of elements, in the order of the body. -/
def patternsList : List Element → List Pattern
  | [] => []
  | e :: es => e.patterns ++ patternsList es

end

/-- The offset of the pattern that an element starts with; a group has none. -/
def offset? : Element → Option Offset
  | pattern p => some p.offset
  | group .. => none
  | every base _ => some base.offset
  | call q => some q.result.offset

/-- Whether an element is a group under the given connective. -/
def isGroupOf (c : Connective) : Element → Bool
  | group d _ => d == c
  | _ => false

/-- An element in short: a group by its size, a universal statement by its
    base, a call by its query. -/
def text : Element → String
  | pattern p => p.text
  | group c members => c.text ++ s!" ({members.length} element(s))"
  | every base _ => "forall " ++ base.text
  | call q => "?" ++ q.query.text

end Element

/-! ## Universal statements -/

/-- A universal statement, written as a negation: nothing matches `base` without
    matching `rest`. -/
structure Universal where
  /-- The pattern that the statement ranges over. -/
  base : Pattern
  /-- What each of its facts must match as well; a pattern of the same type is
      guarded, so that it is about that very fact. -/
  rest : List Pattern
  /-- Whether only guards relate the patterns of `rest` to earlier ones. -/
  guardsOnly : Bool
  deriving DecidableEq

namespace Universal

/-- The universal statement that every fact matching `base` matches `rest`.  If
    there is no `rest`, every fact of the type of `base` must match `base`. -/
def of (base : Pattern) (rest : List Pattern) : Universal :=
  let domain := if rest.isEmpty then base.bare else base
  let rest := if rest.isEmpty then [base] else rest
  { base := domain
    rest := rest.map fun p => if p.type == domain.type then p.guarded domain.offset else p
    guardsOnly := rest.all fun p => !p.isRelated }

/-- The negation of `rest`. -/
def inner (u : Universal) : List Element := u.rest.map .pattern

/-- The members of the negation that the statement is. -/
def outer (u : Universal) : List Element := [.pattern u.base, .group .not u.inner]

end Universal

/-! ## Bodies and rules -/

/-- The body of a rule: one group. -/
structure Body where
  /-- Its connective. -/
  connective : Connective
  /-- Its members. -/
  members : List Element
  deriving DecidableEq

namespace Body

/-- The body as an element. -/
def toElement (b : Body) : Element := .group b.connective b.members

/-- Whether a disjunction stands anywhere in the body. -/
def hasOr (b : Body) : Bool := b.toElement.hasOr

/-- All patterns of the body, in order. -/
def patterns (b : Body) : List Pattern := b.toElement.patterns

end Body

/-- The one pattern that a list of elements consists of, if it does. -/
def Element.single? : List Element → Option Pattern
  | [.pattern p] => some p
  | _ => none

/-- What a definition is for. -/
inductive RuleKind where
  /-- It fires on each match. -/
  | rule
  /-- It answers calls. -/
  | query
  deriving DecidableEq

/-- The definition of a rule or query. -/
structure Rule where
  /-- Its name. -/
  name : String
  /-- What it is for. -/
  kind : RuleKind := .rule
  /-- Its condition. -/
  body : Body
  /-- Its priority: rules with a higher one fire first. -/
  salience : Int := 0
  deriving DecidableEq

/-- Whether the definition is one of a query. -/
def Rule.isQuery (r : Rule) : Bool := r.kind == .query

end RuleNet
