/-
  RuleNet — the stacks of a compilation.

  A stack is a list with its top first.  Taking from an empty stack, or leaving
  something behind, is a fault that names the stack.
-/
import RuleNet.Fault
import RuleNet.Node

namespace RuleNet

/-- Things put one on the other, the top first. -/
abbrev Stack (α : Type) := List α

namespace Stack

variable {α : Type}

/-- The top of a stack, and what is below it. -/
def pop (kind : StackKind) : Stack α → Except Fault (α × Stack α)
  | top :: below => .ok (top, below)
  | [] => .error (.emptyStack kind)

/-- The top of a stack. -/
def peek (kind : StackKind) : Stack α → Except Fault α
  | top :: _ => .ok top
  | [] => .error (.emptyStack kind)

/-- Nothing may be left on a stack. -/
def checkEmpty (kind : StackKind) (stack : Stack α) : Except Fault Unit :=
  if stack.isEmpty then .ok () else .error (.unbalancedStack kind stack.length)

/-- Whether a group under the given connective stands on the stack. -/
def encloses (c : Connective) (stack : Stack Element) : Bool := stack.any (·.isGroupOf c)

/-- The offset of the topmost element that has one. -/
def innermostOffset? (stack : Stack Element) : Option Offset := stack.findSome? Element.offset?

end Stack

end RuleNet
