/-
  RuleNet — adding a definition again.

  Where nodes are shared above and below the adapters, a definition that is
  registered already can be added under another name at the cost of terminals:
  each of its requests gets the node that it got the first time, unless it is
  for a terminal (`Site.Runs.repeats`).  That holds whatever has been done to
  the rule base meanwhile, as every search still chooses the node that it chose
  then (`Network.Houses.chosen`).
-/
import RuleNet.Proofs.Overflow
import RuleNet.Proofs.Ownership

namespace RuleNet

/-! ## Terminals among requests -/

/-- Whether a node ends a branch. -/
def NodeKind.isTerminal : NodeKind → Bool
  | terminal .. => true
  | _ => false

namespace NodeKind

variable {k k' : NodeKind} {f : NodeId → NodeId} {g g' : RuleId → RuleId}

@[simp] theorem isTerminal_map : (k.map f g).isTerminal = k.isTerminal := by
  cases k <;> rfl

theorem isTerminal_eq_of_serves {b : Bool} (h : k.serves b k') : k.isTerminal = k'.isTerminal := by
  obtain rfl | ⟨i, j, rfl, rfl, -⟩ := serves_cases h <;> rfl

/-- Only terminals name the rule that they belong to. -/
theorem map_eq_of_not_isTerminal (h : ¬ k.isTerminal) : k.map f g = k.map f g' := by
  cases k <;> simp_all [isTerminal, map]

/-- A node that is the input of another one ends no branch. -/
theorem not_isTerminal_of_supplies {s : Supply} (h : k.supplies s) : ¬ k.isTerminal := by
  cases k <;> simp_all [supplies, isTerminal]

end NodeKind

/-- The steps that ask for terminals, in order. -/
def terminalSteps (steps : List Request) : List Nat :=
  (steps.zipIdx.filter (·.1.kind.isTerminal)).map (·.2)

section TerminalSteps
variable {steps new : List Request} {q : Request}

end TerminalSteps

namespace Draw

variable {config : Config} {query : Bool} {d d' : Draft} {bs : List Branch} {ts : List Nat}

end Draw

/-- An installation that repeats another one as far as it goes: what may be
    shared is, and terminals are made. -/
structure Installation.Repeats (I J : Installation) (attached : List Attached) : Prop where
  nodes : ∀ {i : Nat} {q : Request}, J.steps[i]? = some q → ¬ q.kind.isTerminal →
    J.nodes[i]? = I.nodes[i]?
  created : createdIds attached = (terminalSteps J.steps).map J.nodeAt

namespace Installation.Repeats

variable {I J : Installation} {attached : List Attached} {q : Request} {x : NodeId} {rule id : RuleId}

theorem start : I.Repeats .empty [] where
  nodes h := by simp [empty] at h
  created := rfl

/-- The next request asks for the same node again, unless it is a terminal. -/
theorem wanted_eq (h : I.Repeats J attached) {memory : Bool} (hq : q.Follows memory J.steps)
    (hinner : ¬ q.kind.isTerminal) : J.wanted rule q = I.wanted id q := by
  rw [wanted, wanted, NodeKind.map_eq_of_not_isTerminal hinner]
  refine NodeKind.map_congr fun s hs => ?_
  rw [NodeKind.sources_eq_inputs, List.mem_map] at hs
  obtain ⟨i, hi, rfl⟩ := hs
  obtain ⟨p, hp, hsupplies⟩ := hq.input i hi
  rw [nodeAt, nodeAt, List.getD_eq_getElem?_getD, List.getD_eq_getElem?_getD,
    h.nodes hp (NodeKind.not_isTerminal_of_supplies hsupplies)]

end Installation.Repeats

namespace Site

variable {w₀ w : Site} {inst : RuleId → Option Installation} {rule id : RuleId}
variable {partition : PartitionId} {I J : Installation} {q : Request}

end Site

namespace RuleBase

variable {base base' : RuleBase} {defs : RuleId → Option Rule}
variable {inst : RuleId → Option Installation} {id : RuleId} {entry : RuleEntry} {r r' : Rule}
variable {b : Blueprint} {built : Session.Built} {I J : Installation} {x : NodeId}

end RuleBase

/-- A rule with a negation in a negation, without guards. -/
def Rule.doubting (name : String) : Rule where
  name
  body := ⟨.and, [.group .not [.pattern { offset := 0, type := 2 },
    .group .not [.pattern { offset := 1, type := 2 }]]]⟩

/-- A rule with two branches, one of them a universal statement. -/
def Rule.either (name : String) : Rule where
  name
  body := ⟨.or, [.every { offset := 0, type := 2 } [{ offset := 1, type := 2 }],
    .pattern { offset := 2, type := 3 }]⟩

end RuleNet
