/-
  RuleNet — serving the requests of a rule, one after the other.

  A site is what compiling a rule works on: the rule base, and the list of the
  nodes that the rule has taken into use.  A request is served by a node that is
  there already, or by a new one (`serve`).  Serving requests that follow one
  another keeps a site standing (`Runs.standing`): the rule stands in the
  network as far as it was built, and the live numbers are those of the nodes.
  That is so even if its number is that of another rule.  If it is not, the site
  stays sound (`Runs.sound`): the network houses the rule, and the list has each
  node of the rule once, in the order in which the rule got them.
-/
import RuleNet.Proofs.Installation
import RuleNet.Proofs.Numbering

namespace RuleNet

/-! ## Nodes taken into use -/

namespace Node

variable {n : Node} {rule r : RuleId} {partition : PartitionId} {e? : Option Expiration}

/-- A rule of `partition` takes the node into use, and may demand that its facts
    are kept. -/
def claimed (n : Node) (rule : RuleId) (partition : PartitionId) (e? : Option Expiration) : Node :=
  let n := (n.own rule).stamp partition
  e?.elim n (n.require rule)

theorem stamp_eq (n : Node) (partition : PartitionId) :
    ∃ p?, n.stamp partition = { n with partition? := p? } := by
  unfold stamp
  split
  · exact ⟨_, rfl⟩
  · exact ⟨n.partition?, rfl⟩
  · exact ⟨_, rfl⟩

/-- Taking a node into use changes its partition, its rules and how long it
    keeps facts. -/
theorem claimed_eq (n : Node) (rule : RuleId) (partition : PartitionId) (e? : Option Expiration) :
    ∃ p?, n.claimed rule partition e? = { n with
      partition? := p?
      rules := n.rules.insert rule
      retention := e?.elim n.retention (n.retention.require rule) } := by
  obtain ⟨p?, hp⟩ := (n.own rule).stamp_eq partition
  refine ⟨p?, ?_⟩
  unfold claimed
  rw [hp]
  cases e? <;> rfl

@[simp] theorem claimed_id : (n.claimed rule partition e?).id = n.id := by
  obtain ⟨p?, h⟩ := n.claimed_eq rule partition e?
  rw [h]

@[simp] theorem claimed_kind : (n.claimed rule partition e?).kind = n.kind := by
  obtain ⟨p?, h⟩ := n.claimed_eq rule partition e?
  rw [h]

@[simp] theorem claimed_sinks : (n.claimed rule partition e?).sinks = n.sinks := by
  obtain ⟨p?, h⟩ := n.claimed_eq rule partition e?
  rw [h]

@[simp] theorem claimed_rules : (n.claimed rule partition e?).rules = n.rules.insert rule := by
  obtain ⟨p?, h⟩ := n.claimed_eq rule partition e?
  rw [h]

@[simp] theorem claimed_retention :
    (n.claimed rule partition e?).retention = e?.elim n.retention (n.retention.require rule) := by
  obtain ⟨p?, h⟩ := n.claimed_eq rule partition e?
  rw [h]

theorem mem_claimed_rules : r ∈ (n.claimed rule partition e?).rules ↔ r = rule ∨ r ∈ n.rules := by
  rw [claimed_rules, Std.ExtTreeSet.mem_insert, Std.compare_eq_iff_eq, eq_comm]

theorem claimed_demands : (n.claimed rule partition e?).retention.demands[r]? =
    if r = rule then e?.elim n.retention.demands[r]? (Expiration.mergeInto n.retention.demands[r]?)
    else n.retention.demands[r]? := by
  rw [claimed_retention]
  cases e? with
  | none => simp
  | some e => exact Retention.require_demands _ _ _ _

theorem claimed_totalled (h : n.retention.Totalled) :
    (n.claimed rule partition e?).retention.Totalled := by
  rw [claimed_retention]
  cases e? with
  | none => exact h
  | some e => exact h.require rule e

end Node

/-! ## Sites -/

/-- The live numbers are those of the nodes. -/
structure RuleBase.Numbered (base : RuleBase) : Prop where
  valid : base.ids.Valid
  /-- Just the numbers of nodes are live. -/
  live : ∀ x : NodeId, base.ids.isLive x ↔ ∃ n, base.network.nodes[x]? = some n

/-- What compiling a rule works on. -/
structure Site where
  base : RuleBase
  /-- The nodes taken into use, in the order of attachment. -/
  attached : List Attached

namespace Site

/-- A node that is there is taken into use. -/
def touch (w : Site) (rule : RuleId) (partition : PartitionId) (e? : Option Expiration)
    (x : NodeId) : Site where
  base := { w.base with network := w.base.network.modify x (·.claimed rule partition e?) }
  attached := match w.base.network.nodes[x]? with
    | some n =>
      if n.rules.contains rule then w.attached
      else w.attached ++ [⟨x, false, n.partition?, n.retention.total⟩]
    | none => w.attached

/-- A node is made and taken into use. -/
def make (w : Site) (rule : RuleId) (partition : PartitionId) (e? : Option Expiration)
    (kind : NodeKind) (origin? : Option Origin) : Site where
  base := { w.base with
    ids := w.base.ids.issue.2
    network := (w.base.network.link { id := w.base.ids.issue.1, kind, origin? }).modify
      w.base.ids.issue.1 (·.claimed rule partition e?) }
  attached := w.attached ++ [⟨w.base.ids.issue.1, true, none, none⟩]

/-- A wanted node is taken into use, and made if there is none. -/
def serve (w : Site) (rule : RuleId) (partition : PartitionId) (g : Bool) (wanted : NodeKind)
    (e? : Option Expiration) (origin? : Option Origin) : NodeId × Site :=
  match w.base.network.existing w.base.config g wanted with
  | some x => (x, w.touch rule partition e? x)
  | none => (w.base.ids.issue.1, w.make rule partition e? wanted origin?)

/-- A site with a rule built as far as `I` says, where the rule may have used
    nodes before. -/
structure Standing (w : Site) (rule : RuleId) (I : Installation) : Prop where
  stands : w.base.network.Stands w.base.config rule I
  numbered : w.base.Numbered
  nodup : (w.attached.map (·.id)).Nodup
  /-- The rule uses the nodes that are listed. -/
  listed : ∀ x ∈ w.attached.map (·.id), ∃ n, w.base.network.nodes[x]? = some n ∧ rule ∈ n.rules
  /-- The rule demands nothing of a node that it does not use. -/
  demanded : ∀ {x : NodeId} {n : Node}, w.base.network.nodes[x]? = some n → rule ∉ n.rules →
    n.retention.demands[rule]? = none

/-- A site with a rule built as far as `I` says. -/
structure Sound (w : Site) (inst : RuleId → Option Installation) (rule : RuleId)
    (I : Installation) : Prop where
  houses : w.base.network.Houses w.base.config (Function.update inst rule (some I))
  numbered : w.base.Numbered
  /-- Each node of the rule is listed once. -/
  recorded : w.attached.map (·.id) = I.nodes.eraseDups

/-! ## Serving one request -/

variable {w w₀ : Site} {inst : RuleId → Option Installation} {rule : RuleId} {I : Installation}
variable {q : Request} {partition : PartitionId} {x : NodeId} {n : Node} {origin? : Option Origin}

theorem touch_nodes (w : Site) (rule : RuleId) (partition : PartitionId) (e? : Option Expiration)
    (x y : NodeId) :
    (w.touch rule partition e? x).base.network.nodes[y]? =
      if y = x then w.base.network.nodes[y]?.map (·.claimed rule partition e?)
      else w.base.network.nodes[y]? :=
  Network.getElem?_modify_nodes ..

theorem make_nodes (w : Site) (rule : RuleId) (partition : PartitionId) (e? : Option Expiration)
    (origin? : Option Origin) {kind : NodeKind} (hnd : (w.base.network.parentsOf kind).Nodup)
    (y : NodeId) : (w.make rule partition e? kind origin?).base.network.nodes[y]? =
      if y = w.base.ids.issue.1 then
        some (Node.claimed { id := w.base.ids.issue.1, kind, origin? } rule partition e?)
      else if y ∈ w.base.network.parentsOf kind then
        w.base.network.nodes[y]?.map (·.addSink w.base.ids.issue.1)
      else w.base.network.nodes[y]? := by
  refine (Network.getElem?_modify_nodes ..).trans ?_
  rw [Network.getElem?_link_nodes hnd]
  split <;> rfl

theorem evolves_touch (h : w.base.network.Wired) (rule : RuleId) (partition : PartitionId)
    (e? : Option Expiration) (x : NodeId) :
    w.base.network.Evolves (w.touch rule partition e? x).base.network :=
  h.evolves_self.modify (fun _ => ⟨Node.claimed_id, Node.claimed_kind, Node.claimed_sinks⟩) x

theorem evolves_make (h : w.base.network.Wired) {kind : NodeKind}
    (hf : w.base.network.Fits { id := w.base.ids.issue.1, kind, origin? }) (rule : RuleId)
    (partition : PartitionId) (e? : Option Expiration) :
    w.base.network.Evolves (w.make rule partition e? kind origin?).base.network :=
  (h.evolves_link hf).modify (fun _ => ⟨Node.claimed_id, Node.claimed_kind, Node.claimed_sinks⟩) _

/-- One more element, unless it is in the list already. -/
theorem eraseDups_concat (l : List NodeId) (x : NodeId) :
    (l ++ [x]).eraseDups = if x ∈ l then l.eraseDups else l.eraseDups ++ [x] := by
  rw [List.eraseDups_append]
  split <;> simp_all [List.removeAll, List.eraseDups_cons]

theorem nodup_eraseDups (l : List NodeId) : l.eraseDups.Nodup := by
  induction l using List.reverseRecOn with
  | nil => exact List.nodup_nil
  | append_singleton l x ih =>
    rw [eraseDups_concat]
    split
    · exact ih
    · rename_i hx
      rw [← List.concat_eq_append]
      exact (List.nodup_concat _ _).2 ⟨fun h => hx (List.mem_eraseDups.1 h), ih⟩

section Existing
variable {net : Network} {config : Config} (h : net.Stands config rule I)
variable (hq : q.Follows config.objectTypeMemory I.steps)
include h hq

/-- The input of a request was got before. -/
theorem source_there {i : NodeId × NodeKind.Supply} (hi : i ∈ q.kind.inputs) :
    ∃ m, net.nodes[I.nodeAt i.1]? = some m ∧ m.kind.supplies i.2 := by
  obtain ⟨p, hp, hsup⟩ := hq.input i hi
  obtain ⟨m, hm, hserves⟩ := h.placed hp (h.node_of_step hp)
  exact ⟨m, hm, by rwa [NodeKind.supplies_eq_of_serves hserves, Installation.wanted,
    NodeKind.supplies_map]⟩

/-- The root that the node will hang below was got before. -/
theorem parent_there {key : RootKey} (hkey : q.kind.parentKey? = some key) :
    ∃ p, net.roots[key]? = some p := by
  obtain ⟨p, hp, hroot⟩ := hq.parent key hkey
  obtain ⟨j, hj⟩ := List.mem_iff_getElem?.1 hp
  obtain ⟨m, hm, hserves⟩ := h.placed hj (h.node_of_step hj)
  refine ⟨_, h.wired.roots_iff.2 ⟨m, hm, ?_⟩⟩
  rw [NodeKind.rootKey?_eq_of_serves hserves, Installation.wanted, NodeKind.rootKey?_map, hroot]

/-- A node that is found does what was asked for, and may be shared. -/
theorem existing_serves (hx : net.existing config q.guardsOut (I.wanted rule q) = some x) :
    ∃ n, net.nodes[x]? = some n ∧ n.kind.serves q.guardsOut (I.wanted rule q) ∧
      config.shares q.kind := by
  cases hkey : q.kind.rootKey? with
  | none =>
    rw [Network.existing_of_no_root (Installation.rootKey?_wanted.trans hkey)] at hx
    split at hx
    · rename_i hshares
      obtain ⟨n, hn, hserves⟩ := h.wired.findServing_eq_some hx
      exact ⟨n, hn, hserves, by rwa [Installation.shares_wanted] at hshares⟩
    · cases hx
  | some key =>
    rw [Network.existing_of_root (Installation.rootKey?_wanted.trans hkey)] at hx
    obtain ⟨n, hn, hroot⟩ := h.wired.roots_iff.1 hx
    -- there is one root at an address, and all roots of types keep facts alike
    have hkind : n.kind = I.wanted rule q ∧ config.shares q.kind := by
      have hmem : ∀ entry type m, n.kind = .objectType entry type m → m = config.objectTypeMemory :=
        fun _ _ _ => h.memory hn
      have hmem' := hq.memory
      rw [Installation.wanted]
      cases hk : q.kind <;> rw [hk] at hkey hmem' <;> cases hkey <;>
        cases hk' : n.kind <;> rw [hk'] at hroot hmem <;> simp_all [NodeKind.rootKey?, NodeKind.map,
          Config.shares]
    exact ⟨n, hn, by rw [hkind.1]; exact NodeKind.serves_refl _ _, hkind.2⟩

omit h hq in
/-- If none is found, no node does the same work. -/
theorem not_serves_of_existing_none (hw : net.Wired) {wanted : NodeKind} {g : Bool}
    (hx : net.existing config g wanted = none) {y : NodeId} {m : Node} (hm : net.nodes[y]? = some m)
    (hshares : config.shares wanted) : ¬ wanted.serves false m.kind := by
  intro hserves
  cases hkey : wanted.rootKey? with
  | none =>
    rw [Network.existing_of_no_root hkey, if_pos hshares] at hx
    exact hw.findServing_eq_none hx hkey hm
      (NodeKind.serves_of_serves_false (NodeKind.serves_symm hserves))
  | some key =>
    rw [Network.existing_of_root hkey] at hx
    have := hw.roots_iff.2 ⟨m, hm, by rw [← NodeKind.rootKey?_eq_of_serves hserves, hkey]⟩
    rw [hx] at this
    cases this

/-- The parents of a new node are different ones. -/
theorem wanted_parents_nodup : (net.parentsOf (I.wanted rule q)).Nodup := by
  have hin := @source_there _ _ _ _ _ h hq
  unfold Network.parentsOf
  rw [Installation.wanted, NodeKind.sources_map, NodeKind.parentKey?_map]
  cases hk : q.kind with
  | join j =>
    rw [hk] at hin
    obtain ⟨m, hm, hleft⟩ := hin (i := (j.left, .tuples)) (by simp [NodeKind.inputs])
    obtain ⟨m', hm', hright⟩ := hin (i := (j.right, .objects)) (by simp [NodeKind.inputs])
    have hne : I.nodeAt j.left ≠ I.nodeAt j.right := by
      intro heq
      obtain rfl : m = m' := Option.some.inj (hm.symm.trans (by rw [heq]; exact hm'))
      exact NodeKind.not_supplies_tuples hright hleft
    simpa [NodeKind.sources, NodeKind.parentKey?] using hne
  | objectType entry type memory =>
    simp only [NodeKind.sources, NodeKind.parentKey?, List.map_nil, List.nil_append, Option.bind_some]
    cases net.roots[(⟨entry, none⟩ : RootKey)]? <;> simp
  | _ => simp [NodeKind.sources, NodeKind.parentKey?]

theorem wanted_fits (origin? : Option Origin)
    (hx : net.existing config q.guardsOut (I.wanted rule q) = none)
    (hfree : net.nodes[x]? = none) : net.Fits { id := x, kind := I.wanted rule q, origin? } where
  fresh := hfree
  source s hs := by
    rw [Installation.wanted, NodeKind.sources_map, NodeKind.sources_eq_inputs, List.map_map,
      List.mem_map] at hs
    obtain ⟨i, hi, rfl⟩ := hs
    obtain ⟨m, hm, -⟩ := source_there h hq hi
    exact ⟨m, hm⟩
  parent key hkey := by
    simp only [Installation.wanted, NodeKind.parentKey?_map] at hkey
    exact parent_there h hq hkey
  parents_nodup := wanted_parents_nodup h hq
  root key hkey := by
    rwa [Network.existing_of_root hkey] at hx
  bare := rfl

end Existing

namespace Standing
variable (h : w.Standing rule I) (hq : q.Follows w.base.config.objectTypeMemory I.steps)
include h

/-- The next number is that of no node. -/
theorem fresh : w.base.network.nodes[w.base.ids.issue.1]? = none := by
  refine Option.eq_none_iff_forall_ne_some.2 fun n hn => ?_
  exact h.numbered.valid.not_isLive_issue ((h.numbered.live _).2 ⟨n, hn⟩)

/-- The next number has not been listed. -/
theorem issue_not_listed : w.base.ids.issue.1 ∉ w.attached.map (·.id) := by
  intro hmem
  obtain ⟨n, hn, -⟩ := h.listed _ hmem
  rw [h.fresh] at hn
  cases hn

omit h in
/-- A node is listed unless the rule uses it already. -/
theorem attached_touch (rule : RuleId) (partition : PartitionId) (e? : Option Expiration)
    (hn : w.base.network.nodes[x]? = some n) :
    (w.touch rule partition e? x).attached = if rule ∈ n.rules then w.attached
      else w.attached ++ [⟨x, false, n.partition?, n.retention.total⟩] := by
  simp only [Site.touch, hn, ← Std.ExtTreeSet.contains_iff_mem]

include hq

theorem gains_touch (partition : PartitionId)
    (hx : w.base.network.existing w.base.config q.guardsOut (I.wanted rule q) = some x) :
    ∃ n, w.base.network.Gains (w.touch rule partition q.expiration? x).base.network w.base.config
      rule I q x n := by
  obtain ⟨n, hn, hserves, hshares⟩ := existing_serves h.stands hq hx
  have hself : (w.touch rule partition q.expiration? x).base.network.nodes[x]? =
      some (n.claimed rule partition q.expiration?) := by
    rw [touch_nodes, if_pos rfl, hn]
    rfl
  have hevolves := evolves_touch h.stands.wired rule partition q.expiration? x
  exact ⟨n.claimed rule partition q.expiration?, {
    wired := h.stands.wired.modify fun n => ⟨Node.claimed_id, Node.claimed_kind, Node.claimed_sinks⟩
    frame := by
      intro y hy
      rw [touch_nodes, if_neg hy]
    node := hself
    serves := by rwa [Node.claimed_kind]
    before := by
      intro m hm
      obtain rfl : n = m := Option.some.inj (hn.symm.trans hm)
      exact ⟨Node.claimed_kind.symm, hshares⟩
    rules := by
      intro r
      rw [Node.mem_claimed_rules, hn]
      simp
    demands := by
      intro r
      rw [Node.claimed_demands, hn]
      rfl
    totalled := fun htotal => Node.claimed_totalled (htotal n hn)
    fresh := by
      intro hnone
      rw [hn] at hnone
      cases hnone
    evolves := hevolves
    chosen := fun _ => hevolves.existing_stays hx hself }⟩

/-- A node that was made is got when the same is asked for again. -/
theorem existing_make (partition : PartitionId) (origin? : Option Origin)
    (hx : w.base.network.existing w.base.config q.guardsOut (I.wanted rule q) = none)
    (hshares : w.base.config.shares q.kind) :
    (w.make rule partition q.expiration? (I.wanted rule q) origin?).base.network.existing
      w.base.config q.guardsOut (I.wanted rule q) = some w.base.ids.issue.1 := by
  have hf := wanted_fits h.stands hq origin? hx h.fresh
  have hlook := make_nodes w rule partition q.expiration? origin? hf.parents_nodup
  have hshares : w.base.config.shares (I.wanted rule q) := by rwa [Installation.shares_wanted]
  refine (evolves_make h.stands.wired hf rule partition q.expiration?).existing_made hshares hx
    (by rw [hlook, if_pos rfl]) Node.claimed_kind ?_
  -- the other nodes were there before
  intro y m hm hy
  rw [hlook, if_neg hy] at hm
  split at hm
  · obtain ⟨m₀, hm₀, -⟩ := Option.map_eq_some_iff.1 hm
    exact ⟨m₀, hm₀⟩
  · exact ⟨m, hm⟩

theorem gains_make (partition : PartitionId) (origin? : Option Origin)
    (hx : w.base.network.existing w.base.config q.guardsOut (I.wanted rule q) = none) :
    ∃ n, w.base.network.Gains
      (w.make rule partition q.expiration? (I.wanted rule q) origin?).base.network w.base.config
      rule I q w.base.ids.issue.1 n := by
  have hf := wanted_fits h.stands hq origin? hx h.fresh
  have hlook := make_nodes w rule partition q.expiration? origin? hf.parents_nodup
  exact ⟨Node.claimed { id := w.base.ids.issue.1, kind := I.wanted rule q, origin? } rule partition
    q.expiration?, {
    wired := (h.stands.wired.link hf).modify fun n =>
      ⟨Node.claimed_id, Node.claimed_kind, Node.claimed_sinks⟩
    frame := by
      intro y hy
      rw [hlook, if_neg hy]
      split
      · rw [Option.map_map]; rfl
      · rfl
    node := by rw [hlook, if_pos rfl]
    serves := by
      rw [Node.claimed_kind]
      exact NodeKind.serves_refl _ _
    before := by
      intro m hm
      rw [h.fresh] at hm
      cases hm
    rules := by
      intro r
      rw [Node.mem_claimed_rules, h.fresh]
      simp
    demands := by
      intro r
      rw [Node.claimed_demands, h.fresh]
      simp [Retention.none]
    totalled := fun _ => Node.claimed_totalled Retention.totalled_none
    fresh := by
      intro _
      rw [Node.claimed_kind]
      exact ⟨rfl, fun y m hm hshares =>
        not_serves_of_existing_none h.stands.wired hx hm hshares⟩
    evolves := evolves_make h.stands.wired hf rule partition q.expiration?
    chosen := h.existing_make hq partition origin? hx }⟩

theorem gains_serve : ∃ n, w.base.network.Gains
    (w.serve rule partition q.guardsOut (I.wanted rule q) q.expiration? origin?).2.base.network
    w.base.config rule I q
    (w.serve rule partition q.guardsOut (I.wanted rule q) q.expiration? origin?).1 n := by
  unfold Site.serve
  split
  · rename_i x hx
    exact h.gains_touch hq partition hx
  · rename_i hx
    exact h.gains_make hq partition origin? hx

omit hq in
/-- The rule demands nothing of a node that it did not get. -/
theorem demanded_gains {net : Network}
    (hg : w.base.network.Gains net w.base.config rule I q x n) {y : NodeId} {m : Node}
    (hm : net.nodes[y]? = some m) (hr : rule ∉ m.rules) : m.retention.demands[rule]? = none := by
  obtain ⟨rfl, rfl⟩ | ⟨-, m₀, hm₀, -, hrules, hret⟩ := hg.node_cases hm
  · exact absurd ((hg.rules rule).2 (Or.inl rfl)) hr
  · rw [hret]
    exact h.demanded hm₀ (hrules ▸ hr)

omit hq in
/-- The rule uses the nodes that were listed, and the one that it got. -/
theorem listed_gains {net : Network} (hg : w.base.network.Gains net w.base.config rule I q x n)
    {y : NodeId} (hy : y ∈ w.attached.map (·.id) ∨ y = x) :
    ∃ m, net.nodes[y]? = some m ∧ rule ∈ m.rules := by
  by_cases hyx : y = x
  · subst hyx
    exact ⟨n, hg.node, (hg.rules rule).2 (Or.inl rfl)⟩
  · obtain ⟨m, hm, hr⟩ := h.listed y (hy.resolve_right hyx)
    obtain ⟨m', hm', -, hrules, -⟩ := Network.core_eq (hg.frame y hyx).symm hm
    exact ⟨m', hm', hrules ▸ hr⟩

theorem touch (partition : PartitionId)
    (hx : w.base.network.existing w.base.config q.guardsOut (I.wanted rule q) = some x) :
    (w.touch rule partition q.expiration? x).Standing rule (I.snoc q x) := by
  obtain ⟨n, hn, -⟩ := existing_serves h.stands hq hx
  obtain ⟨n', hg⟩ := h.gains_touch hq partition hx
  have hlist := attached_touch rule partition q.expiration? hn
  refine ⟨h.stands.snoc hg hq, ⟨h.numbered.valid, fun y => (h.numbered.live y).trans ?_⟩, ?_, ?_,
    h.demanded_gains hg⟩
  · rw [touch_nodes]
    split <;> simp [Option.map_eq_some_iff]
  · rw [hlist]
    split
    · exact h.nodup
    · rename_i hr
      rw [List.map_append, List.map_singleton, ← List.concat_eq_append, List.nodup_concat]
      refine ⟨fun hmem => hr ?_, h.nodup⟩
      obtain ⟨m, hm, hr⟩ := h.listed x hmem
      obtain rfl : n = m := Option.some.inj (hn.symm.trans hm)
      exact hr
  · intro y hy
    refine h.listed_gains hg ?_
    rw [hlist] at hy
    split at hy
    · exact Or.inl hy
    · simpa using hy

theorem make (partition : PartitionId) (origin? : Option Origin)
    (hx : w.base.network.existing w.base.config q.guardsOut (I.wanted rule q) = none) :
    (w.make rule partition q.expiration? (I.wanted rule q) origin?).Standing rule
      (I.snoc q w.base.ids.issue.1) := by
  obtain ⟨n', hg⟩ := h.gains_make hq partition origin? hx
  refine ⟨h.stands.snoc hg hq, ⟨h.numbered.valid.issue, fun y => ?_⟩, ?_, ?_, h.demanded_gains hg⟩
  · refine h.numbered.valid.isLive_issue.trans ?_
    rw [h.numbered.live]
    by_cases hy : y = w.base.ids.issue.1
    · subst hy
      exact iff_of_true (Or.inl rfl) ⟨_, hg.node⟩
    · have := congrArg Option.isSome (hg.frame y hy)
      simp only [Option.isSome_map] at this
      rw [← Option.isSome_iff_exists, ← Option.isSome_iff_exists, this]
      exact or_iff_right hy
  · rw [Site.make, List.map_append, List.map_singleton, ← List.concat_eq_append, List.nodup_concat]
    exact ⟨h.issue_not_listed, h.nodup⟩
  · intro y hy
    refine h.listed_gains hg ?_
    simpa [Site.make] using hy

/-- A site stands after one more request has been served. -/
theorem serve :
    (w.serve rule partition q.guardsOut (I.wanted rule q) q.expiration? origin?).2.Standing rule
      (I.snoc q (w.serve rule partition q.guardsOut (I.wanted rule q) q.expiration? origin?).1) := by
  unfold Site.serve
  split
  · rename_i x hx
    exact h.touch hq partition hx
  · rename_i hx
    exact h.make hq partition origin? hx

end Standing

namespace Sound
variable (h : w.Sound inst rule I) (hq : q.Follows w.base.config.objectTypeMemory I.steps)
include h

theorem stands : w.base.network.Stands w.base.config rule I :=
  h.houses.stands (Function.update_self ..)

theorem rule_mem_iff (hn : w.base.network.nodes[x]? = some n) : rule ∈ n.rules ↔ x ∈ I.nodes := by
  rw [h.houses.owners hn rule, Function.update_self]
  simp

theorem mem_attached : x ∈ w.attached.map (·.id) ↔ x ∈ I.nodes := by
  rw [h.recorded, List.mem_eraseDups]

theorem standing : w.Standing rule I where
  stands := h.stands
  numbered := h.numbered
  nodup := by
    rw [h.recorded]
    exact nodup_eraseDups _
  listed x hx := h.houses.exists_node (Function.update_self ..) (h.mem_attached.1 hx)
  demanded hn hr := h.houses.demanded hn rule hr

/-- The next number is that of no node. -/
theorem fresh : w.base.network.nodes[w.base.ids.issue.1]? = none := h.standing.fresh

/-- A node is listed unless the rule got it before. -/
theorem attached_touch (partition : PartitionId) (e? : Option Expiration)
    (hn : w.base.network.nodes[x]? = some n) :
    (w.touch rule partition e? x).attached = if x ∈ I.nodes then w.attached
      else w.attached ++ [⟨x, false, n.partition?, n.retention.total⟩] := by
  simp only [Standing.attached_touch rule partition e? hn, h.rule_mem_iff hn]

include hq

theorem touch (partition : PartitionId)
    (hx : w.base.network.existing w.base.config q.guardsOut (I.wanted rule q) = some x) :
    (w.touch rule partition q.expiration? x).Sound inst rule (I.snoc q x) := by
  obtain ⟨n, hn, -⟩ := existing_serves h.stands hq hx
  obtain ⟨n', hg⟩ := h.standing.gains_touch hq partition hx
  refine ⟨?_, (h.standing.touch hq partition hx).numbered, ?_⟩
  · have := h.houses.snoc (Function.update_self ..) hg hq
    rwa [Function.update_idem] at this
  · rw [h.attached_touch partition _ hn, Installation.snoc, eraseDups_concat, ← h.recorded]
    split
    · rfl
    · rw [List.map_append]; rfl

theorem make (partition : PartitionId) (origin? : Option Origin)
    (hx : w.base.network.existing w.base.config q.guardsOut (I.wanted rule q) = none) :
    (w.make rule partition q.expiration? (I.wanted rule q) origin?).Sound inst rule
      (I.snoc q w.base.ids.issue.1) := by
  have hnew : w.base.ids.issue.1 ∉ I.nodes := mt h.mem_attached.2 h.standing.issue_not_listed
  obtain ⟨n', hg⟩ := h.standing.gains_make hq partition origin? hx
  refine ⟨?_, (h.standing.make hq partition origin? hx).numbered, ?_⟩
  · have := h.houses.snoc (Function.update_self ..) hg hq
    rwa [Function.update_idem] at this
  · simp only [Site.make, Installation.snoc, eraseDups_concat, ← h.recorded, if_neg hnew,
      List.map_append, List.map_cons, List.map_nil]

/-- A site is sound after one more request has been served. -/
theorem serve : (w.serve rule partition q.guardsOut (I.wanted rule q) q.expiration? origin?).2.Sound
    inst rule (I.snoc q
      (w.serve rule partition q.guardsOut (I.wanted rule q) q.expiration? origin?).1) := by
  unfold Site.serve
  split
  · rename_i x hx
    exact h.touch hq partition hx
  · rename_i hx
    exact h.make hq partition origin? hx

end Sound

/-! ## Serving many requests -/

/-- Serving requests that follow one another, from the site `w₀` on. -/
inductive Runs (rule : RuleId) (partition : PartitionId) (w₀ : Site) : Installation → Site → Prop where
  | start : Runs rule partition w₀ .empty w₀
  | step {I : Installation} {w : Site} (q : Request) (origin? : Option Origin)
      (before : Runs rule partition w₀ I w)
      (follows : q.Follows w₀.base.config.objectTypeMemory I.steps) :
      Runs rule partition w₀
        (I.snoc q (w.serve rule partition q.guardsOut (I.wanted rule q) q.expiration? origin?).1)
        (w.serve rule partition q.guardsOut (I.wanted rule q) q.expiration? origin?).2

theorem serve_base (w : Site) (rule : RuleId) (partition : PartitionId) (g : Bool) (k : NodeKind)
    (e? : Option Expiration) (origin? : Option Origin) :
    ∃ net ids, (w.serve rule partition g k e? origin?).2.base = { w.base with network := net, ids } := by
  unfold serve
  split <;> exact ⟨_, _, rfl⟩

/-- Serving requests changes the network and the numbers only. -/
theorem Runs.base_eq (hr : Runs rule partition w₀ I w) :
    ∃ net ids, w.base = { w₀.base with network := net, ids } := by
  induction hr with
  | start => exact ⟨_, _, rfl⟩
  | @step I w q origin? _ _ ih =>
    obtain ⟨net, ids, hb⟩ := ih
    obtain ⟨net', ids', hb'⟩ := serve_base w rule partition q.guardsOut (I.wanted rule q)
      q.expiration? origin?
    exact ⟨net', ids', by rw [hb', hb]⟩

theorem Runs.config_eq (hr : Runs rule partition w₀ I w) : w.base.config = w₀.base.config := by
  obtain ⟨net, ids, hb⟩ := hr.base_eq
  rw [hb]

/-- **Serving requests keeps a site standing.** -/
theorem Runs.standing (hr : Runs rule partition w₀ I w) (h₀ : w₀.Standing rule .empty) :
    w.Standing rule I := by
  induction hr with
  | start => exact h₀
  | step q origin? before follows ih =>
    rw [← before.config_eq] at follows
    exact ih.serve follows

/-- **Serving requests keeps a site sound.** -/
theorem Runs.sound (hr : Runs rule partition w₀ I w) (h₀ : w₀.Sound inst rule .empty) :
    w.Sound inst rule I := by
  induction hr with
  | start => exact h₀
  | step q origin? before follows ih =>
    rw [← before.config_eq] at follows
    exact ih.serve follows

/-- Serving requests, the nodes keep facts for as long as was asked for. -/
theorem Runs.heeds (hr : Runs rule partition w₀ I w) (h₀ : w₀.Sound inst rule .empty)
    (hh : w₀.base.network.Heeds (Function.update inst rule (some .empty))) :
    w.base.network.Heeds (Function.update inst rule (some I)) := by
  induction hr with
  | start => exact hh
  | step q origin? before follows ih =>
    have hs := before.sound h₀
    rw [← before.config_eq] at follows
    obtain ⟨n, hg⟩ := hs.standing.gains_serve follows
    have := ih.snoc hs.houses (Function.update_self ..) hg
    rwa [Function.update_idem] at this

/-- Before a rule is built, it may be said to have been built nowhere. -/
theorem standing_start {base : RuleBase} (h : base.network.Houses base.config inst)
    (hn : base.Numbered) (rule : RuleId) : Standing ⟨base, []⟩ rule .empty where
  stands := ⟨h.wired, rfl, orderly_nil, nofun, h.memory⟩
  numbered := hn
  nodup := List.nodup_nil
  listed := nofun
  demanded hm := h.demanded hm rule

/-- A site is sound before a rule is built. -/
theorem sound_start {base : RuleBase} (h : base.network.Houses base.config inst)
    (hn : base.Numbered) (hr : inst rule = none) : Sound ⟨base, []⟩ inst rule .empty where
  houses := h.start hr
  numbered := hn
  recorded := rfl

end Site

end RuleNet
