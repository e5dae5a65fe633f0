/-
  RuleNet — the pool of node numbers.

  Numbers are given out in ascending order, but a number that has been
  returned is given out again before a new one, the one returned last first.
  A counter of 32 bits for each number tells how often it has changed hands,
  out or back: an odd number of times while it is out.

  A number has 32 bits as well, far more than a network has nodes; here there is
  always a new one.
-/
import RuleNet.Fault

namespace RuleNet

/-- The numbers given out so far. -/
structure IdPool where
  /-- For each number in turn, how often it has changed hands. -/
  turns : Array Nat
  /-- The numbers that were returned and not given out again, the one returned
      last first. -/
  returned : List NodeId
  /-- How many numbers are given out and not returned. -/
  size : Nat
  deriving DecidableEq

namespace IdPool

/-- The pool from which no number was given out. -/
def initial : IdPool := ⟨#[], [], 0⟩

/-- The next number, and the pool without it. -/
def issue (p : IdPool) : NodeId × IdPool :=
  match p.returned with
  | id :: ids => (id, ⟨p.turns.modify id tick, ids, p.size + 1⟩)
  | [] => (p.turns.size, ⟨p.turns.push 1, [], p.size + 1⟩)

/-- How many different numbers were ever given out. -/
def highWater (p : IdPool) : Nat := p.turns.size

/-- How often a number was given out: every second time that it changed
    hands, beginning with the first. -/
def issueCount (p : IdPool) (id : NodeId) : Nat := (p.turns[id]?.getD 0 + 1) / 2

/-- Whether a number is given out and not returned. -/
def isLive (p : IdPool) (id : NodeId) : Bool := p.turns[id]?.any (· % 2 = 1)

/-- A number is returned. -/
def release (p : IdPool) (id : NodeId) : Except Fault IdPool :=
  match p.turns[id]? with
  | some turns =>
    if turns % 2 = 0 then .error (.alreadyReleased id)
    else .ok ⟨p.turns.modify id tick, id :: p.returned, p.size - 1⟩
  | none => .error (.neverAllocated id)

/-- The numbers given out and not returned, ascending. -/
def live (p : IdPool) : List NodeId := (List.range p.highWater).filter p.isLive

/-- Whether no number is given out. -/
def isEmpty (p : IdPool) : Bool := p.size == 0

end IdPool

end RuleNet
