/-
  RuleNet — intervals of time distances.

  Distances are 64-bit signed integers.  The least and the greatest of them
  stand for "no bound" where they are the lower and the upper end of an
  interval; sums that leave the range stop at its ends.
-/
import RuleNet.Constraint

namespace RuleNet

/-- The distances between two ends, the ends included. -/
structure Interval where
  /-- The lower end. -/
  lo : Int
  /-- The upper end. -/
  hi : Int
  deriving DecidableEq

namespace Interval

/-- The lower end of an interval without a lower bound. -/
def noLower : Int := -9223372036854775808

/-- The upper end of an interval without an upper bound. -/
def noUpper : Int := 9223372036854775807

/-- All distances. -/
def unbounded : Interval := ⟨noLower, noUpper⟩

/-- No distance at all between two events. -/
def zero : Interval := ⟨0, 0⟩

/-- A sum held within the range of distances. -/
def clamp (n : Int) : Int := max noLower (min noUpper n)

/-- A bound seen from the other side. -/
def flip (bound : Int) : Int :=
  if bound = noUpper then noLower else if bound = noLower then noUpper else -bound

/-- The distances with the opposite sign. -/
def negate (i : Interval) : Interval := ⟨flip i.hi, flip i.lo⟩

/-- The distances that lie in both intervals. -/
def intersect (i j : Interval) : Interval := ⟨max i.lo j.lo, min i.hi j.hi⟩

/-- The sums of a distance from each interval. -/
def add (i j : Interval) : Interval where
  lo := if i.lo = noLower ∨ j.lo = noLower then noLower else clamp (i.lo + j.lo)
  hi := if i.hi = noUpper ∨ j.hi = noUpper then noUpper else clamp (i.hi + j.hi)

/-- Whether the interval holds no distance. -/
def isEmpty (i : Interval) : Bool := i.hi < i.lo

/-- Whether the distances are bounded from above. -/
def hasUpperBound (i : Interval) : Bool := i.hi != noUpper

/-- The distance with the opposite sign.  That of the least distance is out of
    range, and comes out as the least distance again. -/
def opposite (distance : Int) : Int := if distance = noLower then noLower else -distance

/-- The distances from the target's event to the event itself that a relation
    in time allows. -/
def of : TimeRelation → Interval
  | .after least most => ⟨least, most⟩
  | .before least most => negate ⟨least, most⟩
  | .coincides tolerance => ⟨opposite tolerance, tolerance⟩

/-- An interval as written, an end without a bound left open. -/
def text (i : Interval) : String :=
  if i.lo = noLower then
    if i.hi = noUpper then "(-inf, +inf)" else s!"(-inf, {i.hi}]"
  else if i.hi = noUpper then s!"[{i.lo}, +inf)"
  else s!"[{i.lo}, {i.hi}]"

end Interval

end RuleNet
