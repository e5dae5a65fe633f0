/-
  RuleNet — what the tuples of a node are made of.

  A tuple has a slot for each of its facts.  Which types the slots are of can be
  read off the nodes above (`Slots`): an adapter makes tuples of the facts of one
  type, a join widens them by the facts on its right, a negation or existence
  claim passes them on, and a query element widens them by an answer.  The same
  can be read off the requests that the nodes were asked for by
  (`Network.Stands.served`).
-/
import RuleNet.Proofs.Installation

namespace RuleNet

/-- What the nodes do that are found under some numbers. -/
abbrev Kinds := NodeId → Option NodeKind

/-- What the nodes of a network do. -/
def Network.kinds (net : Network) : Kinds := fun x => (net.nodes[x]?).map (·.kind)

theorem Network.kinds_eq_some {net : Network} {x : NodeId} {k : NodeKind} :
    net.kinds x = some k ↔ ∃ n, net.nodes[x]? = some n ∧ n.kind = k :=
  Option.map_eq_some_iff

/-- What the nodes do that some steps ask for. -/
def stepKinds (steps : List Request) : Kinds := fun i => (steps[i]?).map (·.kind)

/-- The facts of a node are those of a type, as far as they stand the field tests
    above. -/
inductive Typed (kinds : Kinds) : NodeId → Symbol → Prop where
  | root {x : NodeId} {entry : EntryPoint} {type : Symbol} {memory : Bool}
      (kind : kinds x = some (.objectType entry type memory)) : Typed kinds x type
  | alpha {x source : NodeId} {test : FieldTest} {type : Symbol}
      (kind : kinds x = some (.alpha source test)) (above : Typed kinds source type) :
      Typed kinds x type

/-- The slots of the tuples of a node: what each of their facts is of. -/
inductive Slots (kinds : Kinds) : NodeId → List Symbol → Prop where
  | leftInput {x source : NodeId} {type : Symbol} (kind : kinds x = some (.leftInput source))
      (above : Typed kinds source type) : Slots kinds x [type]
  | join {x : NodeId} {j : Join} {slots : List Symbol} {type : Symbol}
      (kind : kinds x = some (.join j)) (widens : j.kind = .join) (left : Slots kinds j.left slots)
      (right : Typed kinds j.right type) : Slots kinds x (slots ++ [type])
  | test {x : NodeId} {j : Join} {slots : List Symbol} (kind : kinds x = some (.join j))
      (passes : j.kind ≠ .join) (left : Slots kinds j.left slots) : Slots kinds x slots
  | queryElement {x left : NodeId} {query : Symbol} {arguments : List Argument}
      {slots : List Symbol} (kind : kinds x = some (.queryElement left query arguments))
      (above : Slots kinds left slots) : Slots kinds x (slots ++ [query])

variable {kinds kinds' : Kinds} {x : NodeId} {type type' : Symbol} {slots slots' : List Symbol}

/-- A node has facts of one type at most. -/
theorem Typed.unique (h : Typed kinds x type) (h' : Typed kinds x type') : type = type' := by
  induction h with
  | root kind =>
    cases h' with
    | root kind' =>
      cases kind.symm.trans kind'
      rfl
    | alpha kind' => cases kind.symm.trans kind'
  | alpha kind _ ih =>
    cases h' with
    | root kind' => cases kind.symm.trans kind'
    | alpha kind' above' =>
      cases kind.symm.trans kind'
      exact ih above'

/-- The slots of a node are determined. -/
theorem Slots.unique (h : Slots kinds x slots) (h' : Slots kinds x slots') : slots = slots' := by
  induction h generalizing slots' with
  | leftInput kind above =>
    cases h' with
    | leftInput kind' above' =>
      cases kind.symm.trans kind'
      rw [above.unique above']
    | join kind' | test kind' | queryElement kind' => cases kind.symm.trans kind'
  | join kind widens _ right ih =>
    cases h' with
    | join kind' _ left' right' =>
      cases kind.symm.trans kind'
      rw [ih left', right.unique right']
    | test kind' passes =>
      cases kind.symm.trans kind'
      exact absurd widens passes
    | leftInput kind' | queryElement kind' => cases kind.symm.trans kind'
  | test kind passes _ ih =>
    cases h' with
    | join kind' widens =>
      cases kind.symm.trans kind'
      exact absurd widens passes
    | test kind' _ left' =>
      cases kind.symm.trans kind'
      exact ih left'
    | leftInput kind' | queryElement kind' => cases kind.symm.trans kind'
  | queryElement kind _ ih =>
    cases h' with
    | queryElement kind' above' =>
      cases kind.symm.trans kind'
      rw [ih above']
    | leftInput kind' | join kind' | test kind' => cases kind.symm.trans kind'

theorem Slots.ne_nil (h : Slots kinds x slots) : slots ≠ [] := by
  induction h with
  | leftInput | join | queryElement => simp
  | test _ _ _ ih => exact ih

/-! ## Renamed nodes -/

/-- Each node has a counterpart under another number that does the same work. -/
def Kinds.Served (kinds : Kinds) (f : NodeId → NodeId) (g : RuleId → RuleId) (kinds' : Kinds) :
    Prop :=
  ∀ x k, kinds x = some k → ∃ k' b, kinds' (f x) = some k' ∧ k'.serves b (k.map f g)

section Served
variable {f : NodeId → NodeId} {g : RuleId → RuleId} (hs : kinds.Served f g kinds')
include hs

/-- A node that is no join does exactly what its counterpart does. -/
theorem Kinds.Served.kind {k : NodeKind} (hk : kinds x = some k) (hjoin : ∀ j, k ≠ .join j) :
    kinds' (f x) = some (k.map f g) := by
  obtain ⟨k', b, hk', hserves⟩ := hs x k hk
  obtain rfl | ⟨i, j, -, hj, -⟩ := NodeKind.serves_cases hserves
  · exact hk'
  · cases k <;> cases hj
    exact absurd rfl (hjoin _)

/-- A join has the same inputs as its counterpart. -/
theorem Kinds.Served.join {j : Join} (hk : kinds x = some (.join j)) : ∃ j' : Join,
    kinds' (f x) = some (.join j') ∧ j'.kind = j.kind ∧ j'.left = f j.left ∧ j'.right = f j.right := by
  obtain ⟨k', b, hk', hserves⟩ := hs x _ hk
  obtain rfl | ⟨j', i, rfl, hi, hserves⟩ := NodeKind.serves_cases hserves
  · exact ⟨_, hk', rfl, rfl, rfl⟩
  · cases hi
    obtain ⟨hkind, hleft, hright, -⟩ := NodeKind.serves_join.1 hserves
    exact ⟨j', hk', hkind, hleft, hright⟩

theorem Typed.map (h : Typed kinds x type) : Typed kinds' (f x) type := by
  induction h with
  | root kind => exact .root (hs.kind kind (by simp))
  | alpha kind _ ih => exact .alpha (hs.kind kind (by simp)) ih

theorem Slots.map (h : Slots kinds x slots) : Slots kinds' (f x) slots := by
  induction h with
  | leftInput kind above => exact .leftInput (hs.kind kind (by simp)) (above.map hs)
  | join kind widens _ right ih =>
    obtain ⟨j', kind', hkind, hleft, hright⟩ := hs.join kind
    exact .join kind' (hkind.trans widens) (hleft ▸ ih) (hright ▸ right.map hs)
  | test kind passes _ ih =>
    obtain ⟨j', kind', hkind, hleft, -⟩ := hs.join kind
    exact .test kind' (hkind ▸ passes) (hleft ▸ ih)
  | queryElement kind _ ih => exact .queryElement (hs.kind kind (by simp)) ih

end Served

/-! ## More nodes -/

theorem NodeKind.map_id (k : NodeKind) : k.map id id = k := by
  cases k <;> rfl

/-- Nodes stay what they are. -/
def Kinds.Within (kinds kinds' : Kinds) : Prop := ∀ x k, kinds x = some k → kinds' x = some k

theorem Kinds.Within.served (h : kinds.Within kinds') : kinds.Served id id kinds' := by
  intro x k hk
  refine ⟨k, false, h x k hk, ?_⟩
  rw [NodeKind.map_id]
  exact NodeKind.serves_refl _ _

theorem Typed.mono (h : kinds.Within kinds') (ht : Typed kinds x type) : Typed kinds' x type :=
  ht.map h.served

theorem Slots.mono (h : kinds.Within kinds') (hs : Slots kinds x slots) : Slots kinds' x slots :=
  hs.map h.served

theorem stepKinds_within {steps steps' : List Request} (h : steps <+: steps') :
    (stepKinds steps).Within (stepKinds steps') := by
  intro i k hk
  obtain ⟨q, hq, rfl⟩ := Option.map_eq_some_iff.1 hk
  obtain ⟨hi, rfl⟩ := List.getElem?_eq_some_iff.1 hq
  rw [stepKinds, List.prefix_iff_getElem?.1 h i hi]
  rfl

theorem stepKinds_concat (steps : List Request) (q : Request) :
    stepKinds (steps ++ [q]) steps.length = some q.kind := by
  rw [stepKinds, List.getElem?_concat_length]
  rfl

/-! ## Installed requests -/

/-- The nodes of a rule do what the rule asked for. -/
theorem Network.Stands.served {net : Network} {config : Config} {r : RuleId} {I : Installation}
    (h : net.Stands config r I) : (stepKinds I.steps).Served I.nodeAt (fun _ => r) net.kinds := by
  intro i k hk
  obtain ⟨q, hq, rfl⟩ := Option.map_eq_some_iff.1 hk
  obtain ⟨n, hn, hserves⟩ := h.placed hq (h.node_of_step hq)
  exact ⟨n.kind, q.guardsOut, by rw [kinds, hn]; rfl, hserves⟩

theorem Network.Houses.served {net : Network} {config : Config}
    {inst : RuleId → Option Installation} {r : RuleId} {I : Installation}
    (h : net.Houses config inst) (hI : inst r = some I) :
    (stepKinds I.steps).Served I.nodeAt (fun _ => r) net.kinds :=
  (h.stands hI).served

end RuleNet
