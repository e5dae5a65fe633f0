/-
  RuleNet — no two nodes do the same work.

  The work of a node that may be shared is told by its kind, its inputs and its
  tests (`NodeKind.work?`); that a root keeps facts, and that a join was noted
  as a cross product, do not matter, and a terminal is never shared.  Where
  nodes are shared above and below the adapters, no work is done by two nodes,
  whatever commands led to the rule base (`sharing_maximal`).
-/
import RuleNet.Proofs.Ownership

namespace RuleNet

/-- The work of a node that may be shared. -/
inductive NodeWork where
  | entryPoint (entry : EntryPoint)
  | objectType (entry : EntryPoint) (type : Symbol)
  | alpha (source : NodeId) (test : FieldTest)
  | leftInput (source : NodeId)
  | rightInput (source : NodeId)
  | queryElement (left : NodeId) (query : Symbol) (arguments : List Argument)
  | join (kind : JoinKind) (left right : NodeId) (tupleMemory : Bool) (tests : List JoinTest)
  deriving DecidableEq

namespace NodeKind

/-- What a node does; nothing for a terminal, which is its branch's alone. -/
def work? : NodeKind → Option NodeWork
  | entryPoint entry => some (.entryPoint entry)
  | objectType entry type _ => some (.objectType entry type)
  | alpha source test => some (.alpha source test)
  | leftInput source => some (.leftInput source)
  | join j => some (.join j.kind j.left j.right j.tupleMemory j.tests)
  | rightInput source => some (.rightInput source)
  | queryElement left query arguments => some (.queryElement left query arguments)
  | terminal .. => none

variable {k k' : NodeKind} {work : NodeWork}

/-- Roots that do the same work have one address. -/
theorem rootKey?_eq_of_work? (hk : k.work? = some work) (hk' : k'.work? = some work) :
    k.rootKey? = k'.rootKey? := by
  cases k <;> cases hk <;> cases k' <;> simp_all [work?, rootKey?]

/-- Nodes below the roots that do the same work serve one another. -/
theorem serves_of_work? (hroot : k.rootKey? = none) (hk : k.work? = some work)
    (hk' : k'.work? = some work) : k.serves false k' := by
  cases k with
  | entryPoint | objectType => cases hroot
  | terminal => cases hk
  | join i =>
    cases hk
    cases k' with
    | join j =>
      simp only [work?, Option.some.injEq, NodeWork.join.injEq] at hk'
      obtain ⟨hkind, hleft, hright, hmemory, htests⟩ := hk'
      exact serves_join.2 ⟨hkind.symm, hleft.symm, hright.symm, hmemory.symm,
        JoinTest.agree_iff.2 (by rw [htests])⟩
    | _ => cases hk'
  | _ =>
    cases hk
    cases k' <;> cases hk'
    exact serves_refl _ _

theorem shares_of_work? {config : Config} (halpha : config.alphaSharing)
    (hbeta : config.betaSharing) (hk : k.work? = some work) : config.shares k := by
  cases k with
  | entryPoint | objectType => rfl
  | alpha => exact halpha
  | leftInput | join | rightInput | queryElement => exact hbeta
  | terminal => cases hk

end NodeKind

/-- No work is done by two nodes. -/
def Network.Unrepeated (net : Network) : Prop :=
  ∀ (x y : NodeId) (n m : Node) (work : NodeWork), net.nodes[x]? = some n →
    net.nodes[y]? = some m → n.kind.work? = some work → m.kind.work? = some work → x = y

theorem Network.Houses.unrepeated {net : Network} {config : Config}
    {inst : RuleId → Option Installation} (h : net.Houses config inst)
    (halpha : config.alphaSharing) (hbeta : config.betaSharing) : net.Unrepeated := by
  intro x y n m work hn hm hk hk'
  cases hroot : n.kind.rootKey? with
  | some key =>
    -- one root is found under an address
    have hx := h.wired.roots_iff.2 ⟨n, hn, hroot⟩
    have hy := h.wired.roots_iff.2 ⟨m, hm, (NodeKind.rootKey?_eq_of_work? hk hk') ▸ hroot⟩
    exact Option.some.inj (hx.symm.trans hy)
  | none =>
    exact h.maximal hn hm (NodeKind.shares_of_work? halpha hbeta hk)
      (NodeKind.serves_of_work? hroot hk hk')

/-- **Sharing is maximal**, whatever commands led to the rule base. -/
theorem sharing_maximal {base : RuleBase} (h : base.Reachable) (halpha : base.config.alphaSharing)
    (hbeta : base.config.betaSharing) : base.network.Unrepeated := by
  obtain ⟨defs, inst, hs⟩ := h.sound
  exact hs.houses.unrepeated halpha hbeta

/-- After a removal, a failure and a reuse of numbers. -/
theorem sharing_maximal_renewed : Library.renewed.base.Reachable ∧
    Library.renewed.base.config.alphaSharing ∧ Library.renewed.base.config.betaSharing ∧
      (8 : NodeId) ∈ Library.renewed.base.network.nodes ∧ Library.renewed.base.network.Unrepeated := by
  have h : Library.renewed.Reachable := .step (.step (.step (.step (.step (.empty rfl) _) _) _) _) _
  have halpha : Library.renewed.base.config.alphaSharing := by decide +kernel
  have hbeta : Library.renewed.base.config.betaSharing := by decide +kernel
  exact ⟨h.base, halpha, hbeta, by decide +kernel, sharing_maximal h.base halpha hbeta⟩

end RuleNet
