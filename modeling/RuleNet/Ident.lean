/-
  RuleNet — how the parts of a rule base are addressed.

  Nodes, rules and partitions carry numbers.  Those of rules and partitions
  are given out in ascending order by counters of 32 bits, which start again
  from 0 in the end.
  Facts enter through entry points: the default one and named ones, ordered
  with the default first and the names after it.  A root of the network is
  addressed by its entry point and, for the root of one fact type, by that
  type.
-/
import Std.Data.ExtTreeMap
import Std.Data.ExtTreeSet

namespace RuleNet

/-! ## Numbers -/

/-- The number of a node.  The number of a removed node may be given out
    again. -/
abbrev NodeId := Nat

/-- The number of a rule.  It can be given out again once the counter has run
    through all numbers, even while a rule has it. -/
abbrev RuleId := Nat

/-- The number of a partition, a unit of independent evaluation.  It can be
    given out again as that of a rule can. -/
abbrev PartitionId := Nat

/-- The position of a pattern in a rule body, as written in the rule. -/
abbrev Offset := Nat

/-- An interned name. -/
abbrev Symbol := Nat

/-- A counter of 32 bits moves on: after its greatest value it starts again
    from 0. -/
def tick (count : Nat) : Nat := (count + 1) % UInt32.size

namespace NodeId

/-- A node as named in messages. -/
def text (id : NodeId) : String := s!"#{id}"

/-- A node as named in diagnostics. -/
def debugText (id : NodeId) : String := s!"NodeId({id})"

end NodeId

namespace RuleId

/-- A rule as named in messages. -/
def text (id : RuleId) : String := s!"rule#{id}"

/-- A rule as named in diagnostics. -/
def debugText (id : RuleId) : String := s!"RuleId({id})"

end RuleId

namespace PartitionId

/-- The partition of nodes that rules of several partitions use. -/
def shared : PartitionId := 0

/-- Whether this is the shared partition. -/
def isShared (id : PartitionId) : Bool := id == shared

/-- The number of a partition, or the word for the shared one. -/
def label (id : PartitionId) : String := if isShared id then "shared" else toString id

/-- A partition as named in messages. -/
def text (id : PartitionId) : String := s!"partition({label id})"

/-- A partition as named in diagnostics. -/
def debugText (id : PartitionId) : String := s!"PartitionId({label id})"

end PartitionId

namespace Offset

/-- The offset of patterns that the compiler adds itself: the largest
    64-bit number. -/
def synthetic : Offset := 18446744073709551615

end Offset

namespace Symbol

/-- The name of the type of the one fact that is there from the start. -/
def initialFact : Symbol := 0

/-- A name as shown in messages and diagnostics: by its number. -/
def text (s : Symbol) : String := s!"Symbol({s})"

end Symbol

/-! ## Entry points -/

/-- Where facts enter the network. -/
inductive EntryPoint where
  /-- The entry point used where none is named. -/
  | default
  /-- A named stream of facts. -/
  | named (name : String)
  deriving DecidableEq

namespace EntryPoint

/-- The name of an entry point; the default one has none. -/
def name? : EntryPoint → Option String
  | default => none
  | named name => some name

/-- Whether this is the default entry point. -/
def isDefault (entry : EntryPoint) : Bool := entry.name?.isNone

/-- An entry point as named in messages. -/
def text : EntryPoint → String
  | default => "DEFAULT"
  | named name => name

theorem name?_inj {a b : EntryPoint} (h : a.name? = b.name?) : a = b := by
  cases a <;> cases b <;> simp_all [name?]

/-- The default entry point comes first, then the named ones by name. -/
instance : Ord EntryPoint := ⟨compareOn name?⟩

instance : Std.TransOrd EntryPoint :=
  inferInstanceAs (Std.TransCmp (compareOn name?))

instance : Std.LawfulEqOrd EntryPoint where
  compare_self {a} :=
    show compare a.name? a.name? = .eq from Std.LawfulEqOrd.compare_eq_iff_eq.2 rfl
  eq_of_compare {a b} h :=
    name?_inj (Std.LawfulEqOrd.compare_eq_iff_eq.1 (show compare a.name? b.name? = .eq from h))

end EntryPoint

/-! ## Roots -/

/-- The address of a root: an entry point, and a type for the root of the
    facts of that type. -/
structure RootKey where
  /-- The entry point. -/
  entry : EntryPoint
  /-- The fact type, absent for the root of the entry point itself. -/
  type? : Option Symbol
  deriving DecidableEq

namespace RootKey

/-- Roots are ordered by entry point and then by type, the root of the entry
    point itself first. -/
instance : Ord RootKey := ⟨compareLex (compareOn entry) (compareOn type?)⟩

instance : Std.TransOrd RootKey :=
  inferInstanceAs (Std.TransCmp (compareLex (compareOn entry) (compareOn type?)))

instance : Std.LawfulEqOrd RootKey where
  compare_self {a} :=
    Ordering.then_eq_eq.2
      ⟨show compare a.entry a.entry = .eq from Std.LawfulEqOrd.compare_eq_iff_eq.2 rfl,
        show compare a.type? a.type? = .eq from Std.LawfulEqOrd.compare_eq_iff_eq.2 rfl⟩
  eq_of_compare {a b} h := by
    obtain ⟨hentry, htype⟩ := Ordering.then_eq_eq.1 h
    have hentry : a.entry = b.entry := Std.LawfulEqOrd.compare_eq_iff_eq.1 hentry
    have htype : a.type? = b.type? := Std.LawfulEqOrd.compare_eq_iff_eq.1 htype
    cases a; cases b; simp_all

end RootKey

end RuleNet
