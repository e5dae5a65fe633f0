/-
  RuleNet — how long facts are kept.

  Each rule that uses a node may demand that the facts reaching it are kept
  for some time.  The longest demand counts for the node.
-/
import RuleNet.Ident

namespace RuleNet

/-! ## One demand -/

/-- How long a fact is kept. -/
inductive Expiration where
  /-- For so many units of time. -/
  | bounded (units : Int)
  /-- For ever. -/
  | unbounded
  deriving DecidableEq

namespace Expiration

/-- The longer of two times. -/
def merge : Expiration → Expiration → Expiration
  | bounded m, bounded n => bounded (max m n)
  | _, _ => unbounded

/-- Whether facts are dropped at some time. -/
def isBounded : Expiration → Bool
  | bounded _ => true
  | unbounded => false

/-- The longer of two times, where the first one may be missing. -/
def mergeInto (total : Option Expiration) (e : Expiration) : Option Expiration :=
  some (total.elim e (·.merge e))

/-- The longest of some times, if there are any. -/
def longest? (es : List Expiration) : Option Expiration := es.foldl mergeInto none

end Expiration

/-! ## The demands on one node -/

/-- What rules demand of a node. -/
structure Retention where
  /-- The demand of each rule that has one. -/
  demands : Std.ExtTreeMap RuleId Expiration
  /-- The longest demand. -/
  total : Option Expiration
  deriving DecidableEq

namespace Retention

/-- No demand. -/
def none : Retention := ⟨∅, Option.none⟩

/-- A demand of a rule is added to those that it has already made. -/
def require (r : Retention) (rule : RuleId) (e : Expiration) : Retention where
  demands := r.demands.insert rule (r.demands[rule]?.elim e (·.merge e))
  total := Expiration.mergeInto r.total e

/-- The demands of a rule end; the longest of the others counts. -/
def release (r : Retention) (rule : RuleId) : Retention :=
  if rule ∈ r.demands then
    let rest := r.demands.erase rule
    ⟨rest, Expiration.longest? (rest.toList.map (·.2))⟩
  else r

/-- The demands of a rule are taken back, and what counted before them counts
    again. -/
def restore (r : Retention) (rule : RuleId) (total : Option Expiration) : Retention :=
  ⟨r.demands.erase rule, total⟩

end Retention

end RuleNet
