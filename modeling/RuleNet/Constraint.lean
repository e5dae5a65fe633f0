/-
  RuleNet — the tests that nodes make on facts.

  A field test compares a field of one fact with a literal value.  A join test
  relates a fact to another one that is already part of the match; it names
  the other fact's pattern by a number.  In a rule that number is the
  pattern's offset, in a node it is a position in the matched tuple.

  Join tests that only say "this is that same fact" are guards.  When tests
  are weighed, to compare two nodes or to see whether a node relates its
  inputs at all, guards can be left out of account.
-/
import RuleNet.Value

namespace RuleNet

/-! ## Comparisons and field tests -/

/-- How a field is compared. -/
inductive Comparison where
  | equal
  | unequal
  | less
  | lessOrEqual
  | greater
  | greaterOrEqual
  /-- The field holds the value as a member. -/
  | contains
  /-- The field's text fits the value as a pattern. -/
  | fits
  deriving DecidableEq

namespace Comparison

/-- The sign of a comparison. -/
def text : Comparison → String
  | equal => "=="
  | unequal => "!="
  | less => "<"
  | lessOrEqual => "<="
  | greater => ">"
  | greaterOrEqual => ">="
  | contains => "contains"
  | fits => "matches"

/-- Whether facts can be looked up by this comparison. -/
def isIndexable (c : Comparison) : Bool := c == equal

end Comparison

/-- A test of one field against a literal value. -/
structure FieldTest where
  /-- The field read. -/
  field : Symbol
  /-- How it is compared. -/
  op : Comparison
  /-- What it is compared with. -/
  value : Value
  deriving DecidableEq

/-- A field test as written. -/
def FieldTest.text (t : FieldTest) : String :=
  t.field.text ++ " " ++ t.op.text ++ " " ++ t.value.text

/-! ## References and relations in time -/

/-- A field of a fact that is already part of the match. -/
structure Reference where
  /-- The pattern that matched the fact. -/
  offset : Offset
  /-- The field read. -/
  field : Symbol
  deriving DecidableEq

/-- An argument of a query call. -/
inductive Argument where
  /-- A literal value. -/
  | literal (v : Value)
  /-- A field of a fact that is already part of the match. -/
  | bound (read : Reference)
  deriving DecidableEq

/-- When an event happens, seen from another one.  An upper bound of
    `2 ^ 63 - 1` means that there is none. -/
inductive TimeRelation where
  /-- At least `least` and at most `most` after it. -/
  | after (least most : Int)
  /-- At least `least` and at most `most` before it. -/
  | before (least most : Int)
  /-- At most `tolerance` apart from it. -/
  | coincides (tolerance : Int)
  deriving DecidableEq

/-- A relation in time as written. -/
def TimeRelation.text : TimeRelation → String
  | after least most => s!"after[{least},{most}]"
  | before least most => s!"before[{least},{most}]"
  | coincides tolerance => s!"coincides[{tolerance}]"

/-! ## Join tests -/

/-- A test that relates a fact to one that is already part of the match. -/
inductive JoinTest where
  /-- A field of the fact is compared with a field of the other one. -/
  | field (own : Symbol) (op : Comparison) (read : Reference)
  /-- The fact is the very fact that matched the pattern `base`. -/
  | identity (base : Offset)
  /-- The fact happens at a certain time seen from the one of `target`. -/
  | temporal (relation : TimeRelation) (target : Offset)
  deriving DecidableEq

namespace JoinTest

/-- Whether the test is a guard. -/
def isGuard : JoinTest → Bool
  | identity _ => true
  | _ => false

/-- The number of the pattern whose fact is read. -/
def target : JoinTest → Offset
  | field _ _ read => read.offset
  | identity base => base
  | temporal _ target => target

/-- The same test, reading the fact of another pattern. -/
def retarget (t : JoinTest) (target : Offset) : JoinTest :=
  match t with
  | field own op read => .field own op ⟨target, read.field⟩
  | identity _ => .identity target
  | temporal relation _ => .temporal relation target

/-- Whether facts can be looked up by this test. -/
def isIndexable : JoinTest → Bool
  | field _ op _ => op.isIndexable
  | identity _ => true
  | temporal _ _ => false

/-- A join test as written. -/
def text : JoinTest → String
  | field own op read =>
    own.text ++ " " ++ op.text ++ s!" ${read.offset}." ++ read.field.text
  | identity base => s!"this == ${base}"
  | temporal relation target => "this " ++ relation.text ++ s!" ${target}"

/-! ## Weighing tests -/

/-- The tests that count: all of them, or, with guards left out, those that
    are no guards. -/
def weighed (guardsOut : Bool) (ts : List JoinTest) : List JoinTest :=
  ts.filter fun t => !(guardsOut && t.isGuard)

/-- Whether the same tests count in both lists. -/
def agree (guardsOut : Bool) (ts us : List JoinTest) : Bool :=
  weighed guardsOut ts == weighed guardsOut us

/-- Whether no test counts. -/
def noneCounts (guardsOut : Bool) (ts : List JoinTest) : Bool :=
  (weighed guardsOut ts).isEmpty

end JoinTest

end RuleNet
