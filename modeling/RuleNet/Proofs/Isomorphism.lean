/-
  RuleNet — the network depends on the rules alone, not on how they came.

  If two rule bases have the same configuration and rules of the same
  definitions, the nodes that their rules use correspond: what a step of a
  definition got in one network corresponds to what the same step got in the
  other (`Alike.isomorphic`).  That is so because nodes that may be shared do
  not stand there twice, and the others serve one request.  So the network that
  any commands lead to is, but for the numbers, the one that the definitions
  left give when they are added to an empty rule base (`history_independent`).
  Facts are kept as long as well (`Alike.retainsAlike`), unless more definitions
  were brought than there are numbers for rules.

  Definitions must be plain here: for a universal statement, guards may be left
  out when nodes are compared, and the node that is found first is kept.
-/
import RuleNet.Proofs.Overflow
import RuleNet.Proofs.Unfolding

namespace RuleNet

/-! ## Plain rules -/

/-- A rule without universal statements and guards. -/
def Rule.Plain (r : Rule) : Prop := r.body.toElement.Meets (fun t => ¬ t.isGuard) False

/-- A request whose tests all count. -/
structure Request.Plain (q : Request) : Prop where
  /-- Tests are weighed with guards. -/
  weighing : q.guardsOut = false
  tests : ∀ j, q.kind = .join j → ∀ t ∈ j.tests, ¬ t.isGuard

theorem Rule.Plain.steps {config : Config} {r : Rule} {b : Blueprint} (h : r.Plain)
    (hb : r.blueprint config = .ok b) {i : Nat} {q : Request} (hq : b.steps[i]? = some q) :
    q.Plain := by
  have hT : ∀ (t : JoinTest) (o : Offset), ¬ t.isGuard → ¬ (t.retarget o).isGuard := by
    intro t o ht
    cases t <;> simp_all [JoinTest.retarget, JoinTest.isGuard]
  obtain ⟨-, hwithin⟩ := r.blueprint_steps (G := fun g => g = false) hT False.elim rfl h hb
  obtain hin | ⟨k, s, -, rfl⟩ := hwithin hq
  · exact ⟨hin.weighing, hin.tests⟩
  · exact ⟨rfl, by simp⟩

/-- If no test is a guard, leaving out guards makes no difference. -/
theorem JoinTest.weighed_eq {ts : List JoinTest} (h : ∀ t ∈ ts, ¬ t.isGuard) (g : Bool) :
    weighed g ts = ts := by
  refine List.filter_eq_self.2 fun t ht => ?_
  simp [h t ht]

/-- A plain request gets just the node that it asks for. -/
theorem Network.Houses.kind_eq {net : Network} {config : Config}
    {inst : RuleId → Option Installation} {rule : RuleId} {I : Installation} {i : Nat}
    {q : Request} {x : NodeId} (h : net.Houses config inst) (hI : inst rule = some I)
    (hq : I.steps[i]? = some q) (hx : I.nodes[i]? = some x) (hplain : q.Plain) :
    ∃ n, net.nodes[x]? = some n ∧ n.kind = I.wanted rule q := by
  obtain ⟨n, hn, hserves⟩ := h.placed hI hq hx
  refine ⟨n, hn, ?_⟩
  rw [hplain.weighing] at hserves
  obtain heq | ⟨j, j', hj, hj', hjoin⟩ := NodeKind.serves_cases hserves
  · exact heq
  · obtain ⟨h₁, h₂, h₃, h₄, h₅⟩ := NodeKind.serves_join.1 hjoin
    rw [JoinTest.agree_iff, JoinTest.weighed_false, JoinTest.weighed_false] at h₅
    -- both are noted as cross products alike
    obtain ⟨jq, hjq, hwanted⟩ : ∃ jq, q.kind = .join jq ∧
        j' = { jq with left := I.nodeAt jq.left, right := I.nodeAt jq.right } := by
      rw [Installation.wanted] at hj'
      cases hk : q.kind <;> rw [hk] at hj' <;> cases hj'
      exact ⟨_, rfl, rfl⟩
    have hguards := hplain.tests jq hjq
    obtain ⟨g, hcross⟩ := h.cross hn hj
    have hcross' := ((h.orderly hI) i q hq).cross jq hjq
    have hsame : j.crossProduct = j'.crossProduct := by
      have htests : j.tests = jq.tests := by rw [h₅, hwanted]
      rw [hcross, hwanted, hcross', htests, JoinTest.noneCounts, JoinTest.noneCounts,
        JoinTest.weighed_eq hguards, JoinTest.weighed_eq hguards]
    rw [hj, hj']
    obtain ⟨kind, left, right, tests, memory, cross⟩ := j
    obtain ⟨kind', left', right', tests', memory', cross'⟩ := j'
    simp only at h₁ h₂ h₃ h₄ h₅ hsame
    subst h₁ h₂ h₃ h₄ h₅ hsame
    rfl

/-! ## Kinds that correspond -/

namespace NodeKind

variable {k k' : NodeKind} {f f' F F' : NodeId → NodeId} {g g' G G' : RuleId → RuleId}

theorem map_map : (k.map f g).map F G = k.map (fun s => F (f s)) fun r => G (g r) := by
  cases k <;> rfl

/-- Kinds that are alike after their sources have been renamed, are alike after
    another renaming that tells the same sources apart. -/
theorem map_eq_map (h : k.map f g = k'.map f' g') (hterminal : ∀ s r b q, k ≠ .terminal s r b q)
    (hF : ∀ s ∈ k.sources, ∀ t ∈ k'.sources, f s = f' t → F s = F' t) :
    k.map F G = k'.map F' G' := by
  cases k <;> cases k' <;> simp_all [map, sources]

end NodeKind

/-- Whether some rule uses a node. -/
def Network.Uses (net : Network) (x : NodeId) : Prop :=
  ∃ n, net.nodes[x]? = some n ∧ ∃ r : RuleId, r ∈ n.rules

/-- The nodes that rules use are the same in two rule bases, but for their
    numbers and those of the rules: `f` tells which node is which, and `ρ` which
    rule. -/
structure RuleBase.Isomorphic (base base' : RuleBase) (f : NodeId → NodeId) (ρ : RuleId → RuleId) :
    Prop where
  /-- Registered rules go with registered rules. -/
  rules : Set.BijOn ρ {id | id ∈ base.rules} {id | id ∈ base'.rules}
  /-- They have the same names. -/
  names : ∀ {id : RuleId} {entry entry' : RuleEntry}, base.rules[id]? = some entry →
    base'.rules[ρ id]? = some entry' → entry'.name = entry.name
  /-- Nodes that rules use go with nodes that rules use. -/
  nodes : Set.BijOn f {x | base.network.Uses x} {x | base'.network.Uses x}
  /-- They do the same. -/
  kind : ∀ {x : NodeId} {n n' : Node}, base.network.Uses x → base.network.nodes[x]? = some n →
    base'.network.nodes[f x]? = some n' → n'.kind = n.kind.map f ρ
  /-- The same nodes hang below them. -/
  sinks : ∀ {x y : NodeId} {n n' : Node}, base.network.Uses x → base.network.Uses y →
    base.network.nodes[x]? = some n → base'.network.nodes[f x]? = some n' →
      (y ∈ n.sinks ↔ f y ∈ n'.sinks)
  /-- The same rules use them, all of which are registered. -/
  users : ∀ {x : NodeId} {n n' : Node}, base.network.Uses x → base.network.nodes[x]? = some n →
    base'.network.nodes[f x]? = some n' →
      (∀ r : RuleId, r ∈ n.rules → r ∈ base.rules) ∧
        ∀ r' : RuleId, r' ∈ n'.rules ↔ ∃ r : RuleId, r ∈ n.rules ∧ ρ r = r'

/-- Nodes that correspond keep facts for as long, and for the same rules. -/
structure RuleBase.RetainsAlike (base base' : RuleBase) (f : NodeId → NodeId)
    (ρ : RuleId → RuleId) : Prop where
  /-- The same is demanded of them, by rules that are registered. -/
  demands : ∀ {x : NodeId} {n n' : Node}, base.network.Uses x → base.network.nodes[x]? = some n →
    base'.network.nodes[f x]? = some n' →
      (∀ (r : RuleId) (e : Expiration), n.retention.demands[r]? = some e → r ∈ base.rules) ∧
        ∀ (r' : RuleId) (e : Expiration), n'.retention.demands[r']? = some e ↔
          ∃ r : RuleId, n.retention.demands[r]? = some e ∧ ρ r = r'
  /-- The longest demand is the same. -/
  total : ∀ {x : NodeId} {n n' : Node}, base.network.Uses x → base.network.nodes[x]? = some n →
    base'.network.nodes[f x]? = some n' → n'.retention.total = n.retention.total

namespace RuleBase

/-! ## Rule bases with the same definitions -/

/-- Two sound rule bases with rules of the same definitions, all plain. -/
structure Alike (base base' : RuleBase) (defs defs' : RuleId → Option Rule)
    (inst inst' : RuleId → Option Installation) : Prop where
  sound : base.Sound defs inst
  sound' : base'.Sound defs' inst'
  config : base'.config = base.config
  /-- They have rules of the same definitions. -/
  same : ∀ r, (∃ id, defs id = some r) ↔ ∃ id, defs' id = some r
  plain : ∀ {id : RuleId} {r : Rule}, defs id = some r → r.Plain

variable {base base' : RuleBase} {defs defs' : RuleId → Option Rule}
variable {inst inst' : RuleId → Option Installation}

theorem Sound.mem_rules_iff (h : base.Sound defs inst) {id : RuleId} :
    id ∈ base.rules ↔ ∃ r, defs id = some r := by
  rw [Std.ExtTreeMap.mem_iff_isSome_getElem?]
  constructor
  · intro hid
    obtain ⟨entry, he⟩ := Option.isSome_iff_exists.1 hid
    obtain ⟨-, r, -, hr, -⟩ := h.registered he
    exact ⟨r, hr⟩
  · rintro ⟨r, hr⟩
    obtain ⟨entry, -, he, -⟩ := h.entry_of_definition hr
    rw [he]
    rfl

/-- A definition is that of one rule. -/
theorem Sound.definition_inj (h : base.Sound defs inst) {id id' : RuleId} {r : Rule}
    (hr : defs id = some r) (hr' : defs id' = some r) : id = id' := by
  obtain ⟨entry, I, he, -, hreg⟩ := h.entry_of_definition hr
  obtain ⟨entry', I', he', -, hreg'⟩ := h.entry_of_definition hr'
  exact h.names he he' (hreg.name.trans hreg'.name.symm)

namespace Alike

theorem symm (h : Alike base base' defs defs' inst inst') : Alike base' base defs' defs inst' inst where
  sound := h.sound'
  sound' := h.sound
  config := h.config.symm
  same r := (h.same r).symm
  plain hr := by
    obtain ⟨id, hr'⟩ := (h.same _).2 ⟨_, hr⟩
    exact h.plain hr'

end Alike

/-- Two nodes that the step `i` of one definition got. -/
inductive Corresponds (defs defs' : RuleId → Option Rule) (inst inst' : RuleId → Option Installation)
    (i : Nat) (x x' : NodeId) : Prop where
  /-- Two rules of the definition are built, and the step got these nodes. -/
  | step {id id' : RuleId} {r : Rule} {I I' : Installation} (definition : defs id = some r)
      (definition' : defs' id' = some r) (built : inst id = some I) (built' : inst' id' = some I')
      (node : I.nodes[i]? = some x) (node' : I'.nodes[i]? = some x') :
      Corresponds defs defs' inst inst' i x x'

theorem Corresponds.symm {i : Nat} {x x' : NodeId}
    (h : Corresponds defs defs' inst inst' i x x') : Corresponds defs' defs inst' inst i x' x := by
  obtain ⟨hr, hr', hI, hI', hx, hx'⟩ := h
  exact ⟨hr', hr, hI', hI, hx', hx⟩

namespace Alike

variable (h : Alike base base' defs defs' inst inst')
variable {i j : Nat} {id id' : RuleId} {r : Rule} {I I' : Installation} {x x' y y' : NodeId}
include h

/-- The rules are built in the same steps. -/
theorem steps_eq (hr : defs id = some r) (hr' : defs' id' = some r) (hI : inst id = some I)
    (hI' : inst' id' = some I') : I'.steps = I.steps := by
  obtain ⟨entry, J, -, hJ, hreg⟩ := h.sound.entry_of_definition hr
  obtain ⟨entry', J', -, hJ', hreg'⟩ := h.sound'.entry_of_definition hr'
  obtain rfl : J = I := Option.some.inj (hJ.symm.trans hI)
  obtain rfl : J' = I' := Option.some.inj (hJ'.symm.trans hI')
  obtain ⟨b, hb, hsteps⟩ := hreg.blueprint
  obtain ⟨b', hb', hsteps'⟩ := hreg'.blueprint
  rw [h.config, hb] at hb'
  cases hb'
  rw [hsteps, hsteps']

theorem plain_step (hr : defs id = some r) (hI : inst id = some I) {q : Request}
    (hq : I.steps[i]? = some q) : q.Plain := by
  obtain ⟨entry, J, -, hJ, hreg⟩ := h.sound.entry_of_definition hr
  obtain rfl : J = I := Option.some.inj (hJ.symm.trans hI)
  obtain ⟨b, hb, hsteps⟩ := hreg.blueprint
  exact (h.plain hr).steps hb (hsteps ▸ hq)

/-- The sources of nodes that correspond, correspond. -/
theorem source (hr : defs id = some r) (hr' : defs' id' = some r) (hI : inst id = some I)
    (hI' : inst' id' = some I') {q : Request} (hq : I.steps[i]? = some q) {s : NodeId}
    (hs : s ∈ q.kind.sources) :
    s < i ∧ Corresponds defs defs' inst inst' s (I.nodeAt s) (I'.nodeAt s) := by
  obtain ⟨hlt, hnode⟩ := h.sound.houses.source_before hI hq hs
  rw [← h.steps_eq hr hr' hI hI'] at hq
  exact ⟨hlt, hr, hr', hI, hI', hnode, (h.sound'.houses.source_before hI' hq hs).2⟩

/-- **Nodes that correspond to one node are one node.** -/
theorem unique (hc : Corresponds defs defs' inst inst' i x x')
    (hc₂ : Corresponds defs defs' inst inst' j x y') : x' = y' := by
  induction i using Nat.strongRecOn generalizing j x x' y' with
  | ind i ih =>
    obtain @⟨id, id', r, I, I', hr, hr', hI, hI', hx, hx'⟩ := hc
    obtain @⟨id₂, id₂', r₂, I₂, I₂', hr₂, hr₂', hI₂, hI₂', hx₂, hy'⟩ := hc₂
    obtain ⟨q, hq⟩ := h.sound.houses.step_of_node hI hx
    obtain ⟨q₂, hq₂⟩ := h.sound.houses.step_of_node hI₂ hx₂
    have hplain := h.plain_step hr hI hq
    have hplain₂ := h.plain_step hr₂ hI₂ hq₂
    obtain ⟨n, hn, hkind⟩ := h.sound.houses.kind_eq hI hq hx hplain
    obtain ⟨n', hn', hkind₂⟩ := h.sound.houses.kind_eq hI₂ hq₂ hx₂ hplain₂
    obtain rfl : n' = n := Option.some.inj (hn'.symm.trans hn)
    by_cases hshares : base.config.shares q.kind
    · -- a node that may be shared: the same is asked for in the other network
      have hq' : I'.steps[i]? = some q := by rw [h.steps_eq hr hr' hI hI', hq]
      have hq₂' : I₂'.steps[j]? = some q₂ := by rw [h.steps_eq hr₂ hr₂' hI₂ hI₂', hq₂]
      obtain ⟨m, hm, hmkind⟩ := h.sound'.houses.kind_eq hI' hq' hx' hplain
      obtain ⟨m₂, hm₂, hmkind₂⟩ := h.sound'.houses.kind_eq hI₂' hq₂' hy' hplain₂
      have hsame : m.kind = m₂.kind := by
        rw [hmkind, hmkind₂]
        refine NodeKind.map_eq_map (hkind.symm.trans hkind₂) ?_ ?_
        · intro s r b f hk
          rw [hk] at hshares
          cases hshares
        · intro s hs t ht hst
          obtain ⟨hlt, hsrc⟩ := h.source hr hr' hI hI' hq hs
          have hsrc₂ := (h.source hr₂ hr₂' hI₂ hI₂' hq₂ ht).2
          rw [← hst] at hsrc₂
          exact ih s hlt hsrc hsrc₂
      refine h.sound'.houses.maximal hm hm₂ ?_ ?_
      · rw [hmkind, Installation.shares_wanted, h.config]
        exact hshares
      · rw [hsame]
        exact NodeKind.serves_refl _ _
    · -- a node that may not be shared: it is the same step of the same rule
      obtain ⟨rfl, rfl⟩ := h.sound.houses.alone hI hI₂ hq hshares hx hx₂
      obtain rfl : r = r₂ := Option.some.inj (hr.symm.trans hr₂)
      obtain rfl := h.sound'.definition_inj hr' hr₂'
      obtain rfl : I' = I₂' := Option.some.inj (hI'.symm.trans hI₂')
      exact Option.some.inj (hx'.symm.trans hy')

/-- Nodes that correspond are used by rules. -/
theorem uses (hc : Corresponds defs defs' inst inst' i x x') : base.network.Uses x := by
  obtain ⟨-, -, hI, -, hx, -⟩ := hc
  obtain ⟨n, hn, hr⟩ := h.sound.houses.exists_node hI (List.mem_of_getElem? hx)
  exact ⟨n, hn, _, hr⟩

/-- Every step of a definition got a node in both networks. -/
theorem exists_corresponds (hI : inst id = some I) (hx : I.nodes[i]? = some x) :
    ∃ r id' I' x', defs id = some r ∧ defs' id' = some r ∧ inst' id' = some I' ∧
      I'.nodes[i]? = some x' ∧ Corresponds defs defs' inst inst' i x x' := by
  obtain ⟨r, hr⟩ := h.sound.definition_of_installation hI
  obtain ⟨id', hr'⟩ := (h.same r).1 ⟨id, hr⟩
  obtain ⟨-, I', -, hI', -⟩ := h.sound'.entry_of_definition hr'
  obtain ⟨q, hq⟩ := h.sound.houses.step_of_node hI hx
  have hx' := h.sound'.houses.node_of_step hI' (by rw [h.steps_eq hr hr' hI hI', hq])
  exact ⟨r, id', I', _, hr, hr', hI', hx', hr, hr', hI, hI', hx, hx'⟩

theorem exists_corresponds_of_uses (hx : base.network.Uses x) :
    ∃ i x', Corresponds defs defs' inst inst' i x x' := by
  obtain ⟨n, hn, r, hr⟩ := hx
  obtain ⟨I, hI, hmem⟩ := (h.sound.houses.owners hn r).1 hr
  obtain ⟨i, hi⟩ := List.mem_iff_getElem?.1 hmem
  obtain ⟨-, -, -, x', -, -, -, -, hc⟩ := h.exists_corresponds hI hi
  exact ⟨i, x', hc⟩

/-! ### Which is which -/

variable {f : NodeId → NodeId} {ρ : RuleId → RuleId}
variable (hf : ∀ x, base.network.Uses x → ∃ i, Corresponds defs defs' inst inst' i x (f x))
variable (hρ : ∀ id r, defs id = some r → defs' (ρ id) = some r)
include hf

/-- What a step got in the other network is what corresponds to what it got. -/
theorem eq_of_corresponds (hc : Corresponds defs defs' inst inst' i x x') : x' = f x := by
  obtain ⟨j, hj⟩ := hf x (h.uses hc)
  exact h.unique hc hj

theorem bijOn_nodes : Set.BijOn f {x | base.network.Uses x} {x | base'.network.Uses x} := by
  refine ⟨fun x hx => ?_, fun x hx y hy hxy => ?_, fun x' hx' => ?_⟩
  · obtain ⟨i, hc⟩ := hf x hx
    exact h.symm.uses hc.symm
  · obtain ⟨i, hc⟩ := hf x hx
    obtain ⟨j, hc'⟩ := hf y hy
    rw [← hxy] at hc'
    exact h.symm.unique hc.symm hc'.symm
  · obtain ⟨i, x, hc⟩ := h.symm.exists_corresponds_of_uses hx'
    exact ⟨x, h.uses hc.symm, (h.eq_of_corresponds hf hc.symm).symm⟩

omit hf in
include hρ in
theorem bijOn_rules : Set.BijOn ρ {id | id ∈ base.rules} {id | id ∈ base'.rules} := by
  refine ⟨fun id hid => ?_, fun id hid id' hid' hsame => ?_, fun id' hid' => ?_⟩
  · obtain ⟨r, hr⟩ := h.sound.mem_rules_iff.1 hid
    exact h.sound'.mem_rules_iff.2 ⟨r, hρ id r hr⟩
  · obtain ⟨r, hr⟩ := h.sound.mem_rules_iff.1 hid
    obtain ⟨r', hr'⟩ := h.sound.mem_rules_iff.1 hid'
    obtain rfl : r = r' := Option.some.inj ((hρ id r hr).symm.trans (hsame ▸ hρ id' r' hr'))
    exact h.sound.definition_inj hr hr'
  · obtain ⟨r, hr'⟩ := h.sound'.mem_rules_iff.1 hid'
    obtain ⟨id, hr⟩ := (h.same r).2 ⟨id', hr'⟩
    exact ⟨id, h.sound.mem_rules_iff.2 ⟨r, hr⟩, h.sound'.definition_inj (hρ id r hr) hr'⟩

include hρ

/-- A rule is built alike in both networks. -/
theorem installation (hI : inst id = some I) :
    ∃ I', inst' (ρ id) = some I' ∧ I'.steps = I.steps ∧ I'.nodes = I.nodes.map f := by
  obtain ⟨r, hr⟩ := h.sound.definition_of_installation hI
  have hr' := hρ id r hr
  obtain ⟨-, I', -, hI', -⟩ := h.sound'.entry_of_definition hr'
  have hsteps := h.steps_eq hr hr' hI hI'
  refine ⟨I', hI', hsteps, List.ext_getElem? fun i => ?_⟩
  rw [List.getElem?_map]
  cases hx : I.nodes[i]? with
  | none =>
    rw [List.getElem?_eq_none_iff, h.sound.houses.lengths hI] at hx
    rw [Option.map_none, List.getElem?_eq_none_iff, h.sound'.houses.lengths hI', hsteps]
    exact hx
  | some x =>
    obtain ⟨q, hq⟩ := h.sound.houses.step_of_node hI hx
    have hx' := h.sound'.houses.node_of_step hI' (by rw [hsteps, hq])
    rw [hx', Option.map_some, h.eq_of_corresponds hf ⟨hr, hr', hI, hI', hx, hx'⟩]

/-- What is built in the other network is built in this one. -/
theorem installation_inv (hI' : inst' id' = some I') :
    ∃ id I, inst id = some I ∧ ρ id = id' ∧ I'.steps = I.steps ∧ I'.nodes = I.nodes.map f := by
  obtain ⟨r, hr'⟩ := h.sound'.definition_of_installation hI'
  obtain ⟨id, hr⟩ := (h.same r).2 ⟨id', hr'⟩
  obtain rfl := h.sound'.definition_inj (hρ id r hr) hr'
  obtain ⟨-, I, -, hI, -⟩ := h.sound.entry_of_definition hr
  obtain ⟨J', hJ', hsteps, hnodes⟩ := h.installation hf hρ hI
  obtain rfl : J' = I' := Option.some.inj (hJ'.symm.trans hI')
  exact ⟨id, I, hI, rfl, hsteps, hnodes⟩

omit hρ in
theorem mem_nodes_iff (hI : inst id = some I) (hnodes : I'.nodes = I.nodes.map f)
    (hx : base.network.Uses x) : f x ∈ I'.nodes ↔ x ∈ I.nodes := by
  rw [hnodes, List.mem_map]
  constructor
  · rintro ⟨y, hy, hsame⟩
    obtain ⟨n, hn, hr⟩ := h.sound.houses.exists_node hI hy
    obtain rfl := (h.bijOn_nodes hf).injOn ⟨n, hn, _, hr⟩ hx hsame
    exact hy
  · exact fun hmem => ⟨x, hmem, rfl⟩

omit hρ in
/-- The same is demanded of nodes that correspond. -/
theorem demand_eq (hI : inst id = some I) (hsteps : I'.steps = I.steps)
    (hnodes : I'.nodes = I.nodes.map f) (hx : base.network.Uses x) :
    I'.demand (f x) = I.demand x := by
  unfold Installation.demand
  rw [hsteps, hnodes, List.zip_map_right, List.filterMap_map]
  refine congrArg _ (List.filterMap_congr ?_)
  rintro ⟨q, y⟩ hy
  have hmem := (List.of_mem_zip hy).2
  obtain ⟨n, hn, hr⟩ := h.sound.houses.exists_node hI hmem
  have hinj : f y = f x ↔ y = x :=
    ⟨(h.bijOn_nodes hf).injOn ⟨n, hn, _, hr⟩ hx, congrArg f⟩
  simp [hinj]

variable {n n' m m' : Node}

theorem kind_map (hx : base.network.Uses x) (hn : base.network.nodes[x]? = some n)
    (hn' : base'.network.nodes[f x]? = some n') : n'.kind = n.kind.map f ρ := by
  obtain ⟨i, hc⟩ := hf x hx
  obtain @⟨id, id', r, I, I', hr, hr', hI, hI', hxi, hxi'⟩ := hc
  obtain rfl := h.sound'.definition_inj (hρ id r hr) hr'
  obtain ⟨q, hq⟩ := h.sound.houses.step_of_node hI hxi
  have hq' : I'.steps[i]? = some q := by rw [h.steps_eq hr hr' hI hI', hq]
  have hplain := h.plain_step hr hI hq
  obtain ⟨k, hk, hkind⟩ := h.sound.houses.kind_eq hI hq hxi hplain
  obtain ⟨k', hk', hkind'⟩ := h.sound'.houses.kind_eq hI' hq' hxi' hplain
  obtain rfl : k = n := Option.some.inj (hk.symm.trans hn)
  obtain rfl : k' = n' := Option.some.inj (hk'.symm.trans hn')
  rw [hkind, hkind', Installation.wanted, Installation.wanted, NodeKind.map_map]
  refine NodeKind.map_congr fun s hs => ?_
  exact h.eq_of_corresponds hf (h.source hr hr' hI hI' hq hs).2

theorem users_map (hx : base.network.Uses x) (hn : base.network.nodes[x]? = some n)
    (hn' : base'.network.nodes[f x]? = some n') (r' : RuleId) :
    r' ∈ n'.rules ↔ ∃ r : RuleId, r ∈ n.rules ∧ ρ r = r' := by
  rw [h.sound'.houses.owners hn']
  constructor
  · rintro ⟨I', hI', hmem⟩
    obtain ⟨r, I, hI, hr, -, hnodes⟩ := h.installation_inv hf hρ hI'
    exact ⟨r, (h.sound.houses.owners hn r).2 ⟨I, hI, (h.mem_nodes_iff hf hI hnodes hx).1 hmem⟩, hr⟩
  · rintro ⟨r, hr, rfl⟩
    obtain ⟨I, hI, hmem⟩ := (h.sound.houses.owners hn r).1 hr
    obtain ⟨I', hI', -, hnodes⟩ := h.installation hf hρ hI
    exact ⟨I', hI', (h.mem_nodes_iff hf hI hnodes hx).2 hmem⟩

theorem demands_map (hh : base.network.Heeds inst) (hh' : base'.network.Heeds inst')
    (hx : base.network.Uses x) (hn : base.network.nodes[x]? = some n)
    (hn' : base'.network.nodes[f x]? = some n') (r' : RuleId) (e : Expiration) :
    n'.retention.demands[r']? = some e ↔
      ∃ r : RuleId, n.retention.demands[r]? = some e ∧ ρ r = r' := by
  rw [hh' hn', Option.bind_eq_some_iff]
  constructor
  · rintro ⟨I', hI', he⟩
    obtain ⟨r, I, hI, hr, hsteps, hnodes⟩ := h.installation_inv hf hρ hI'
    rw [h.demand_eq hf hI hsteps hnodes hx] at he
    exact ⟨r, by rw [hh hn, hI, Option.bind_some, he], hr⟩
  · rintro ⟨r, he, rfl⟩
    rw [hh hn, Option.bind_eq_some_iff] at he
    obtain ⟨I, hI, he⟩ := he
    obtain ⟨I', hI', hsteps, hnodes⟩ := h.installation hf hρ hI
    exact ⟨I', hI', by rw [h.demand_eq hf hI hsteps hnodes hx, he]⟩

/-- A node hangs below another one just if the nodes do that correspond to
    them. -/
theorem sinks_map (hx : base.network.Uses x) (hy : base.network.Uses y)
    (hn : base.network.nodes[x]? = some n) (hn' : base'.network.nodes[f x]? = some n') :
    y ∈ n.sinks ↔ f y ∈ n'.sinks := by
  obtain ⟨m, hm, r, hr⟩ := hy
  obtain ⟨m', hm', -⟩ := (h.bijOn_nodes hf).mapsTo ⟨m, hm, r, hr⟩
  have hkind := h.kind_map hf hρ hx hn hn'
  have hkind' := h.kind_map hf hρ ⟨m, hm, r, hr⟩ hm hm'
  have hparents : x ∈ base.network.parentsOf m.kind ↔ f x ∈ base'.network.parentsOf m'.kind := by
    rw [Network.mem_parentsOf, Network.mem_parentsOf, hkind', NodeKind.sources_map,
      NodeKind.parentKey?_map, List.mem_map]
    refine or_congr ⟨fun hsrc => ⟨x, hsrc, rfl⟩, ?_⟩ (exists_congr fun key => and_congr_right ?_)
    · rintro ⟨s, hs, hsame⟩
      obtain ⟨p, hp, hrp⟩ := h.sound.houses.uses_parent hm hr (Network.mem_parentsOf.2 (.inl hs))
      obtain rfl := (h.bijOn_nodes hf).injOn ⟨p, hp, r, hrp⟩ hx hsame
      exact hs
    · intro _
      rw [h.sound.houses.wired.roots_iff, h.sound'.houses.wired.roots_iff, hn, hn']
      simp [hkind]
  rw [h.sound.houses.wired.mem_sinks hn, h.sound'.houses.wired.mem_sinks hn', hm, hm']
  simpa using hparents

/-- Nodes that correspond keep facts for as long, if both networks heed what was
    asked for. -/
theorem retainsAlike (hh : base.network.Heeds inst) (hh' : base'.network.Heeds inst') :
    base.RetainsAlike base' f ρ where
  demands {x n n'} hx hn hn' := by
    refine ⟨fun r e he => ?_, h.demands_map hf hρ hh hh' hx hn hn'⟩
    rw [hh hn, Option.bind_eq_some_iff] at he
    obtain ⟨I, hI, -⟩ := he
    exact h.sound.mem_rules_iff.2 (h.sound.definition_of_installation hI)
  total {x n n'} hx hn hn' := by
    refine (h.sound'.houses.totalled hn').congr (h.sound.houses.totalled hn) fun e => ?_
    simp only [h.demands_map hf hρ hh hh' hx hn hn']
    constructor
    · rintro ⟨-, r, he, -⟩
      exact ⟨r, he⟩
    · rintro ⟨r, he⟩
      exact ⟨ρ r, r, he, rfl⟩

end Alike

/-- **Rule bases with the same plain definitions are isomorphic.** -/
theorem Alike.isomorphic (h : Alike base base' defs defs' inst inst') :
    ∃ f ρ, base.Isomorphic base' f ρ ∧
      (base.network.Heeds inst → base'.network.Heeds inst' → base.RetainsAlike base' f ρ) := by
  have hrules : ∀ id, ∃ id', ∀ r, defs id = some r → defs' id' = some r := by
    intro id
    cases hr : defs id with
    | none => exact ⟨0, fun r hr' => by cases hr'⟩
    | some r =>
      obtain ⟨id', hr'⟩ := (h.same r).1 ⟨id, hr⟩
      exact ⟨id', fun r' hsame => by rw [← Option.some.inj hsame, hr']⟩
  have hnodes : ∀ x, ∃ x', base.network.Uses x → ∃ i, Corresponds defs defs' inst inst' i x x' := by
    intro x
    by_cases hx : base.network.Uses x
    · obtain ⟨i, x', hc⟩ := h.exists_corresponds_of_uses hx
      exact ⟨x', fun _ => ⟨i, hc⟩⟩
    · exact ⟨0, fun hx' => absurd hx' hx⟩
  choose ρ hρ using hrules
  choose f hf using hnodes
  refine ⟨f, ρ, ?_, h.retainsAlike hf hρ⟩
  exact {
    rules := h.bijOn_rules hρ
    names := by
      intro id entry entry' he he'
      obtain ⟨-, r, I, hr, -, hreg⟩ := h.sound.registered he
      obtain ⟨-, r', I', hr', -, hreg'⟩ := h.sound'.registered he'
      obtain rfl : r = r' := Option.some.inj ((hρ id r hr).symm.trans hr')
      exact hreg'.name.trans hreg.name.symm
    nodes := h.bijOn_nodes hf
    kind := h.kind_map hf hρ
    sinks := h.sinks_map hf hρ
    users := by
      intro x n n' hx hn hn'
      refine ⟨fun r hr => ?_, h.users_map hf hρ hx hn hn'⟩
      obtain ⟨I, hI, -⟩ := (h.sound.houses.owners hn r).1 hr
      exact h.sound.mem_rules_iff.2 (h.sound.definition_of_installation hI) }

/-! ## Replaying the definitions -/

/-- The rule base after the rules `ds` have been added in turn to an empty one. -/
def ofRules (config : Config) (ds : List Rule) : RuleBase :=
  ds.foldl (fun base r => (base.add r).base) (empty config)

/-- A name that no definition has is free. -/
theorem Sound.ruleNamed?_eq_none (h : base.Sound defs inst) {name : String}
    (hnew : ∀ id r, defs id = some r → r.name ≠ name) : base.ruleNamed? name = none := by
  refine h.ruleNamed?_eq_none_iff.2 fun id entry he hname => ?_
  obtain ⟨-, r, I, hr, -, hreg⟩ := h.registered he
  exact hnew id r hr (hreg.name.symm.trans hname)

/-- What is defined when a definition has been entered under a free number. -/
theorem exists_update_iff {key : RuleId} {r r' : Rule} (hfree : defs key = none) :
    (∃ id, Function.update defs key (some r) id = some r') ↔ (∃ id, defs id = some r') ∨ r' = r := by
  constructor
  · rintro ⟨id, hid⟩
    by_cases hkey : id = key
    · rw [hkey, Function.update_self] at hid
      exact .inr (Option.some.inj hid).symm
    · rw [Function.update_of_ne hkey] at hid
      exact .inl ⟨id, hid⟩
  · rintro (⟨id, hid⟩ | rfl)
    · refine ⟨id, ?_⟩
      rw [Function.update_of_ne, hid]
      rintro rfl
      rw [hfree] at hid
      cases hid
    · exact ⟨_, Function.update_self ..⟩

/-- Rules with names of their own and blueprints are all added, if there are
    numbers for them. -/
theorem sound_ofRules {config : Config} {ds : List Rule} (hmaker : config.maker = .plain)
    (hlength : ds.length ≤ 2 ^ 32) (hnames : (ds.map (·.name)).Nodup)
    (hds : ∀ r ∈ ds, ∃ b, r.blueprint config = .ok b) :
    ∃ defs inst, (ofRules config ds).Sound defs inst ∧ (ofRules config ds).network.Heeds inst ∧
      (ofRules config ds).config = config ∧ (ofRules config ds).Within ds.length ∧
      ∀ r, (∃ id, defs id = some r) ↔ r ∈ ds := by
  induction ds using List.reverseRecOn with
  | nil => exact ⟨_, _, sound_empty _ hmaker, Network.heeds_empty, rfl, .empty _, by simp⟩
  | append_singleton ds r ih =>
    rw [List.length_append, List.length_singleton] at hlength ⊢
    rw [List.map_append, List.map_singleton, List.nodup_append] at hnames
    obtain ⟨hnames, -, hnew⟩ := hnames
    obtain ⟨defs, inst, hs, hheeds, hconfig, hwithin, hmem⟩ :=
      ih (by omega) hnames fun r hr => hds r (by simp [hr])
    obtain ⟨b, hb⟩ := hds r (by simp)
    have hfree : (ofRules config ds).ruleNamed? r.name = none :=
      hs.ruleNamed?_eq_none fun id r' hr' =>
        hnew r'.name (List.mem_map_of_mem ((hmem r').1 ⟨id, hr'⟩)) r.name (by simp)
    rw [← hconfig] at hb
    obtain ⟨built, I, -, hc⟩ := add_ok hs hfree (hwithin.unnumbered (by omega)) hb
    have hfold : ofRules config (ds ++ [r]) = ((ofRules config ds).add r).base := by
      rw [ofRules, List.foldl_append]
      rfl
    rw [hfold]
    refine ⟨_, _, hs.compiled hb hc, hc.heeds hs hheeds, hc.rest.1.trans hconfig,
      hwithin.compiled hc, fun r' => ?_⟩
    rw [exists_update_iff (hs.unregistered hc.unnumbered).1, hmem, List.mem_append,
      List.mem_singleton]

end RuleBase

namespace Library

/-- The definitions of the registered rules. -/
def registered (l : Library) : List Rule := l.base.entries.filterMap fun e => l.definitions e.id

variable {l : Library} {inst : RuleId → Option Installation}

theorem Sound.mem_registered (h : l.Sound inst) {r : Rule} :
    r ∈ l.registered ↔ ∃ id, l.definitions id = some r := by
  simp only [registered, List.mem_filterMap, RuleBase.mem_entries]
  constructor
  · rintro ⟨entry, -, hr⟩
    exact ⟨_, hr⟩
  · rintro ⟨id, hr⟩
    obtain ⟨entry, -, he, -⟩ := RuleBase.Sound.entry_of_definition h hr
    obtain ⟨rfl, -⟩ := h.registered he
    exact ⟨entry, ⟨_, he⟩, hr⟩

/-- No two of them have one name. -/
theorem Sound.nodup_names (h : l.Sound inst) : (l.registered.map (·.name)).Nodup := by
  rw [registered, RuleBase.entries, List.Nodup, List.pairwise_map, List.pairwise_filterMap,
    List.pairwise_map]
  refine Std.ExtTreeMap.distinct_keys_toList.imp_of_mem ?_
  rintro ⟨id, entry⟩ ⟨id', entry'⟩ hmem hmem' hne r hr r' hr' hname
  have he := Std.ExtTreeMap.mem_toList_iff_getElem?_eq_some.1 hmem
  have he' := Std.ExtTreeMap.mem_toList_iff_getElem?_eq_some.1 hmem'
  obtain ⟨rfl, s, I, hs, -, hreg⟩ := h.registered he
  obtain ⟨rfl, s', I', hs', -, hreg'⟩ := h.registered he'
  obtain rfl : s = r := Option.some.inj (hs.symm.trans hr)
  obtain rfl : s' = r' := Option.some.inj (hs'.symm.trans hr')
  refine hne (Std.compare_eq_iff_eq.2 (h.names he he' ?_))
  rw [hreg.name, hreg'.name, hname]

end Library

/-- There are no more rules than numbers for them. -/
theorem Library.length_registered {l : Library} {n : Nat} (hw : l.base.Within n) :
    l.registered.length ≤ 2 ^ 32 := by
  have hkeys : ∀ id ∈ l.base.rules.keys, id ∈ List.range (2 ^ 32) := by
    intro id hid
    obtain ⟨entry, he⟩ := Option.isSome_iff_exists.1
      (Std.ExtTreeMap.mem_iff_isSome_getElem?.1 (Std.ExtTreeMap.mem_keys.1 hid))
    exact List.mem_range.2 (hw.lt_word he)
  calc l.registered.length
    _ ≤ l.base.entries.length := List.length_filterMap_le ..
    _ = l.base.rules.keys.length := by
      rw [RuleBase.entries, List.length_map, Std.ExtTreeMap.length_toList,
        Std.ExtTreeMap.length_keys]
    _ ≤ (List.range (2 ^ 32)).length :=
      (Std.ExtTreeMap.nodup_keys.subperm hkeys).length_le
    _ = 2 ^ 32 := List.length_range

/-- **The network does not depend on the history.**  Whatever commands led to a
    library, the nodes that its rules use are those that the definitions left
    give when they are added, in any order, to an empty rule base.  They keep
    facts for as long, if the commands brought no more definitions than there are
    numbers for rules. -/
theorem history_independent {n : Nat} {l : Library} (h : l.ReachableBy n)
    (hplain : ∀ r ∈ l.registered, r.Plain) {ds : List Rule} (hds : ds.Perm l.registered) :
    ∃ f ρ, l.base.Isomorphic (RuleBase.ofRules l.base.config ds) f ρ ∧
      (n ≤ 2 ^ 32 → l.base.RetainsAlike (RuleBase.ofRules l.base.config ds) f ρ) := by
  obtain ⟨inst, hs, hheeds⟩ := h.sound
  have hnames : (ds.map (·.name)).Nodup := ((hds.map _).nodup_iff).2 hs.nodup_names
  have hblueprint : ∀ r ∈ ds, ∃ b, r.blueprint l.base.config = .ok b := by
    intro r hr
    obtain ⟨id, hr⟩ := hs.mem_registered.1 (hds.mem_iff.1 hr)
    obtain ⟨entry, I, -, -, hreg⟩ := RuleBase.Sound.entry_of_definition hs hr
    obtain ⟨b, hb, -⟩ := hreg.blueprint
    exact ⟨b, hb⟩
  obtain ⟨defs', inst', hs', hheeds', hconfig, -, hmem⟩ := RuleBase.sound_ofRules hs.maker
    (hds.length_eq.trans_le (Library.length_registered h.base.within)) hnames hblueprint
  have halike : RuleBase.Alike l.base (RuleBase.ofRules l.base.config ds) l.definitions defs'
      inst inst' := by
    refine ⟨hs, hs', hconfig, fun r => ?_, fun hr => hplain _ (hs.mem_registered.2 ⟨_, hr⟩)⟩
    rw [hmem, hds.mem_iff, hs.mem_registered]
  obtain ⟨f, ρ, hiso, hretains⟩ := halike.isomorphic
  exact ⟨f, ρ, hiso, fun hn => hretains (hheeds hn) hheeds'⟩

/-- A library after a rule has been refused and another one removed. -/
def Library.edited : Library :=
  [Command.add (.relating "first" 0), .add (.relating "unbound" 7), .add (.relating "second" 0),
    .remove 0, .add (.relating "third" 0)].foldl Library.after (.empty {})

/-- Its network is the one that the two rules left give, the later one first. -/
theorem history_independent_edited :
    [Rule.relating "third" 0, .relating "second" 0].Perm Library.edited.registered ∧
      ∃ f ρ, Library.edited.base.Isomorphic
        (RuleBase.ofRules Library.edited.base.config [.relating "third" 0, .relating "second" 0])
        f ρ ∧
      Library.edited.base.RetainsAlike
        (RuleBase.ofRules Library.edited.base.config [.relating "third" 0, .relating "second" 0])
        f ρ := by
  have hregistered : Library.edited.registered = [.relating "second" 0, .relating "third" 0] := by
    decide +kernel
  have h : Library.edited.ReachableBy _ := Library.reachableBy_foldl rfl _
  have hplain : ∀ r ∈ Library.edited.registered, r.Plain := by
    simp [hregistered, Rule.Plain, Rule.relating, Body.toElement, Element.Meets, Element.MeetAll,
      Pattern.Meets, Pattern.joinTests, JoinTest.isGuard]
  have hds : [Rule.relating "third" 0, .relating "second" 0].Perm Library.edited.registered := by
    rw [hregistered]
    exact .swap ..
  obtain ⟨f, ρ, hiso, hretains⟩ := history_independent h hplain hds
  exact ⟨hds, f, ρ, hiso, hretains (by decide)⟩

/-- When rule numbers have come round again, a rule about events is refused for
    the number of another one, whose nodes keep events for longer than if that
    rule alone had been added. -/
theorem not_history_independent_recounted : ¬ ∀ (l : Library), l.Reachable →
    (∀ r ∈ l.registered, r.Plain) → ∀ ds : List Rule, ds.Perm l.registered →
      ∃ f ρ, l.base.Isomorphic (RuleBase.ofRules l.base.config ds) f ρ ∧
        l.base.RetainsAlike (RuleBase.ofRules l.base.config ds) f ρ := by
  intro hall
  let first : Rule := .following "first" 10
  let l := (Library.recounted .stream [.add first]).after (.add (.following "second" 100))
  have hfree : (Library.recounted .stream [.add first]).base.ruleNamed? "vain" = none := by
    decide +kernel
  have h : l.Reachable :=
    .step (Library.reachable_recounted rfl _ (by decide +kernel) hfree) _
  have hregistered : l.registered = [first] := by decide +kernel
  have hplain : ∀ r ∈ l.registered, r.Plain := by
    simp [hregistered, first, Rule.Plain, Rule.following, Body.toElement, Element.Meets,
      Element.MeetAll, Pattern.Meets, Pattern.joinTests, TimeTest.toJoinTest, JoinTest.isGuard]
  obtain ⟨f, ρ, hiso, hretains⟩ := hall l h hplain [first] (by rw [hregistered])
  have hnode : (l.base.network.nodes[(1 : NodeId)]?).map
      (fun n => (n.rules.toList, n.retention.total)) = some ([0], some (.bounded 100)) := by
    decide +kernel
  -- alone, the rule has all nodes keep events for ten units at most
  have hfresh : ∀ e ∈ (RuleBase.ofRules l.base.config [first]).network.nodes.toList,
      e.2.retention.total ≠ some (.bounded 100) := by decide +kernel
  clear_value l first
  obtain ⟨n, hn, hsame⟩ := Option.map_eq_some_iff.1 hnode
  obtain ⟨hrules, htotal⟩ := Prod.mk.inj hsame
  have huses : l.base.network.Uses 1 :=
    ⟨n, hn, 0, Std.ExtTreeSet.mem_toList.1 (by rw [hrules]; exact List.mem_singleton_self 0)⟩
  obtain ⟨n', hn', -⟩ := hiso.nodes.mapsTo huses
  have htotal' := hretains.total huses hn hn'
  refine hfresh (f 1, n') (Std.ExtTreeMap.mem_toList_iff_getElem?_eq_some.2 hn') ?_
  rw [htotal', htotal]

end RuleNet
