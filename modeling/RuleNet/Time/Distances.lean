/-
  RuleNet — the distances in time between the events of one branch.

  For two patterns, the cell of their offsets holds the distances allowed
  between their events.  Time tests narrow cells; closing the cells under
  sums narrows those of patterns that no test relates.  How long the fact of a
  pattern must be kept is the largest distance to another pattern's event.
-/
import RuleNet.Condition
import RuleNet.Fault
import RuleNet.Retention
import RuleNet.Time.Interval

namespace RuleNet

/-! ## Cells -/

/-- The address of a cell: the event that the distance is taken from, and the
    event that it leads to. -/
structure Span where
  /-- Where the distance starts. -/
  source : Offset
  /-- Where it ends. -/
  target : Offset
  deriving DecidableEq

namespace Span

/-- Cells are ordered by start and then by end. -/
instance : Ord Span := ⟨compareLex (compareOn source) (compareOn target)⟩

instance : Std.TransOrd Span :=
  inferInstanceAs (Std.TransCmp (compareLex (compareOn source) (compareOn target)))

instance : Std.LawfulEqOrd Span where
  compare_self {a} :=
    Ordering.then_eq_eq.2
      ⟨show compare a.source a.source = .eq from Std.LawfulEqOrd.compare_eq_iff_eq.2 rfl,
        show compare a.target a.target = .eq from Std.LawfulEqOrd.compare_eq_iff_eq.2 rfl⟩
  eq_of_compare {a b} h := by
    obtain ⟨hsource, htarget⟩ := Ordering.then_eq_eq.1 h
    have hsource : a.source = b.source := Std.LawfulEqOrd.compare_eq_iff_eq.1 hsource
    have htarget : a.target = b.target := Std.LawfulEqOrd.compare_eq_iff_eq.1 htarget
    cases a; cases b; simp_all

end Span

/-- The distances between the events of some patterns. -/
structure Distances where
  /-- The offsets of the patterns, ascending. -/
  offsets : List Offset
  /-- Those of them whose pattern matches events. -/
  events : List Offset
  /-- The cells that have been narrowed. -/
  cells : Std.ExtTreeMap Span Interval
  deriving DecidableEq

namespace Distances

/-- The distances allowed from the event at `i` to the one at `j`: none from an
    event to itself, all where nothing is known. -/
def get (d : Distances) (i j : Offset) : Interval :=
  d.cells[(⟨i, j⟩ : Span)]?.getD (if i = j then .zero else .unbounded)

/-- The distances with one cell replaced. -/
def set (d : Distances) (i j : Offset) (interval : Interval) : Distances :=
  { d with cells := d.cells.insert ⟨i, j⟩ interval }

/-- Whether the pattern at an offset matches events. -/
def isEvent (d : Distances) (i : Offset) : Bool := d.events.contains i

/-! ## Narrowing -/

/-- The distances from `i` to `j` are narrowed to an interval, and those from
    `j` to `i` to the opposite one. -/
def constrain (d : Distances) (i j : Offset) (interval : Interval) : Except Fault Distances :=
  let forward := (d.get i j).intersect interval
  if forward.isEmpty then .error (.unsatisfiableTimes i j)
  else .ok ((d.set i j forward).set j i forward.negate)

/-- The distances are narrowed by one time test of the pattern at `own`. -/
def impose (d : Distances) (own : Offset) (t : JoinTest) : Except Fault Distances :=
  match t with
  | .temporal relation target =>
    if d.offsets.contains target then d.constrain target own (.of relation)
    else .error (.unboundDeclaration target .time)
  | _ => .ok d

/-- The distances from `i` to `j` are narrowed to the sums of those from `i` to
    `k` and from `k` to `j`. -/
def relax (d : Distances) (k i j : Offset) : Except Fault Distances :=
  let narrowed := (d.get i j).intersect ((d.get i k).add (d.get k j))
  if narrowed.isEmpty then .error (.unsatisfiableTimes i j) else .ok (d.set i j narrowed)

/-- The distances are narrowed to sums over every intermediate event, one after
    the other, for all pairs of events. -/
def close (d : Distances) : Except Fault Distances :=
  d.offsets.foldlM (fun d k =>
    d.offsets.foldlM (fun d i => d.offsets.foldlM (fun d j => d.relax k i j) d) d) d

/-- A number put into its place in an ascending list, unless it is there. -/
def insertOffset (i : Offset) : List Offset → List Offset
  | [] => [i]
  | j :: js => if i < j then i :: j :: js else if i = j then j :: js else j :: insertOffset i js

/-- The distances that are allowed before any test is taken into account. -/
def initial (ps : List Pattern) : Distances where
  offsets := ps.foldr (fun p is => insertOffset p.offset is) []
  events := (ps.filter (·.event)).map (·.offset)
  cells := ∅

/-- The distances that the time tests of some patterns allow.  Patterns added
    by the compiler take no part. -/
def ofPatterns (ps : List Pattern) : Except Fault Distances := do
  let ps := ps.filter fun p => !p.isSynthetic
  let narrowed ← ps.foldlM (fun d p => p.joinTests.foldlM (fun d t => d.impose p.offset t) d)
    (initial ps)
  narrowed.close

/-! ## Keeping facts -/

/-- How long the fact of the pattern at `i` is kept after its own event: until
    no other event may follow.  It is kept for ever where a distance has no
    bound, and where the offset is none of the patterns'. -/
def expiration (d : Distances) (i : Offset) : Expiration :=
  if d.offsets.contains i then
    let others := (d.offsets.filter (· ≠ i)).map (d.get i)
    if others.all Interval.hasUpperBound then
      .bounded (others.foldl (fun longest interval => max longest interval.hi) 0)
    else .unbounded
  else .unbounded

/-- Whether the fact of the pattern at `i` is dropped at some time. -/
def isWindowable (d : Distances) (i : Offset) : Bool := (d.expiration i).isBounded

end Distances

end RuleNet
