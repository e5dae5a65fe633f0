/-
  RuleNet — removing a rule and adding its definition again.

  The nodes that go with a rule are those that only the rule used, and their
  numbers are returned in the reverse order of their attachment; so they are
  given out again in the order of attachment.  When the definition of a plain
  rule is added again, a request whose node is still there, or there again, finds
  it (`Departed.found`), and any other makes its node anew
  (`Departed.existing_eq_none`) under the number that it had
  (`Departed.exists_pending`).  So what is made for the rule is what went with it,
  each node as it was (`readd_restores`).
-/
import RuleNet.Proofs.Isomorphism
import RuleNet.Proofs.Overflow
import RuleNet.Proofs.Repeating
import RuleNet.Proofs.Reverting

namespace RuleNet

/-! ## Nodes of another rule -/

namespace NodeKind

variable {k : NodeKind}

/-- The same kind, but that a terminal is one of the rule. -/
def under (k : NodeKind) (rule : RuleId) : NodeKind := k.map (fun s => s) fun _ => rule

theorem under_of_not_isTerminal {rule : RuleId} (h : ¬ k.isTerminal) : k.under rule = k := by
  cases k <;> simp_all [under, map, isTerminal]

@[simp] theorem isTerminal_under (rule : RuleId) : (k.under rule).isTerminal = k.isTerminal :=
  isTerminal_map

theorem not_isTerminal_of_shares {config : Config} (h : config.shares k) : ¬ k.isTerminal := by
  cases k <;> simp_all [Config.shares, isTerminal]

end NodeKind

theorem Installation.wanted_under (I : Installation) (id rule : RuleId) (q : Request) :
    (I.wanted id q).under rule = I.wanted rule q :=
  NodeKind.map_map

/-- The nodes among `gone`, in the order in which a rule got them. -/
def Installation.among (I : Installation) (gone : List NodeId) : List NodeId :=
  I.nodes.eraseDups.filter (· ∈ gone)

section Among
variable {I J : Installation} {gone : List NodeId} {q : Request} {x : NodeId}

theorem Installation.mem_among : x ∈ I.among gone ↔ x ∈ I.nodes ∧ x ∈ gone := by
  simp [among]

theorem Installation.among_snoc_of_mem (h : x ∈ J.nodes) :
    (J.snoc q x).among gone = J.among gone := by
  rw [among, snoc, Site.eraseDups_concat, if_pos h, among]

theorem Installation.among_snoc_of_not_gone (h : x ∉ gone) :
    (J.snoc q x).among gone = J.among gone := by
  rw [among, snoc, Site.eraseDups_concat]
  split
  · rfl
  · rw [List.filter_append, List.filter_singleton, decide_eq_false h]
    exact List.append_nil _

theorem Installation.among_snoc_of_new (hx : x ∉ J.nodes) (h : x ∈ gone) :
    (J.snoc q x).among gone = J.among gone ++ [x] := by
  rw [among, snoc, Site.eraseDups_concat, if_neg hx, List.filter_append, List.filter_singleton,
    decide_eq_true h]
  rfl

theorem Installation.among_prefix (h : J.nodes <+: I.nodes) : J.among gone <+: I.among gone := by
  obtain ⟨rest, hrest⟩ := h
  rw [among, among, ← hrest, List.eraseDups_append, List.filter_append]
  exact List.prefix_append _ _

/-- The next step gets the same node. -/
theorem Installation.snoc_prefix (h : J.nodes <+: I.nodes) (hx : I.nodes[J.nodes.length]? = some x) :
    (J.snoc q x).nodes <+: I.nodes := by
  obtain ⟨rest, hrest⟩ := h
  rw [← hrest, List.getElem?_append_right le_rfl, Nat.sub_self, ← List.head?_eq_getElem?] at hx
  obtain ⟨later, rfl⟩ := List.head?_eq_some_iff.1 hx
  exact ⟨later, by rw [← hrest, snoc, List.append_assoc, List.singleton_append]⟩

end Among

/-! ## Numbers that were returned -/

namespace IdPool

variable {p : IdPool} {ids : List NodeId} {id : NodeId}

theorem returned_recycles : (ids.foldl recycle p).returned = ids.reverse ++ p.returned := by
  induction ids generalizing p with
  | nil => rfl
  | cons id ids ih =>
    rw [List.foldl_cons, ih, List.reverse_cons, List.append_assoc]
    rfl

theorem highWater_recycles : (ids.foldl recycle p).highWater = p.highWater := by
  induction ids generalizing p with
  | nil => rfl
  | cons id ids ih =>
    rw [List.foldl_cons, ih]
    exact Array.size_modify

/-- The number returned last is given out first. -/
theorem issue_of_returned (h : p.returned = id :: ids) : p.issue.1 = id ∧
    p.issue.2.returned = ids ∧ p.issue.2.highWater = p.highWater := by
  refine ⟨?_, by rw [returned_issue, h, List.tail_cons], by rw [highWater_issue, if_neg (by simp [h])]⟩
  rw [issue, h]

end IdPool

namespace RuleBase

/-! ## A rule that was removed -/

/-- A plain rule, built as `I` tells, was removed from `base`, which left
    `base'`. -/
structure Departed (base base' : RuleBase) (defs : RuleId → Option Rule)
    (inst : RuleId → Option Installation) (entry : RuleEntry) (I : Installation)
    (removal : Removal) : Prop where
  before : base.Sound defs inst
  built : inst entry.id = some I
  nodes : entry.nodes = I.nodes.eraseDups
  plain : ∀ {i : Nat} {q : Request}, I.steps[i]? = some q → q.Plain
  removed : base.Removed entry removal base'

namespace Departed

variable {base base' : RuleBase} {defs : RuleId → Option Rule}
variable {inst : RuleId → Option Installation} {entry : RuleEntry} {I : Installation}
variable {removal : Removal} {i : Nat} {q : Request} {x : NodeId} {n : Node}
variable (h : Departed base base' defs inst entry I removal)
include h

theorem config_eq : base'.config = base.config := by rw [h.removed.rest]

theorem mem_removed : x ∈ removal.removed ↔ ∃ n, base.network.nodes[x]? = some n ∧
    n.kind.rootKey? = none ∧ ∀ r : RuleId, r ∈ n.rules ↔ r = entry.id :=
  h.removed.mem_removed h.before.houses h.built h.nodes

theorem mem_nodes_of_removed (hx : x ∈ removal.removed) : x ∈ I.nodes := by
  rw [h.removed.removed, Network.yielding, List.mem_filter, List.mem_reverse, h.nodes,
    List.mem_eraseDups] at hx
  exact hx.1

/-- The nodes go in the reverse order of their attachment. -/
theorem reverse_removed : removal.removed.reverse = I.among removal.removed := by
  have hremoved := h.removed.removed
  rw [Network.yielding, List.filter_reverse, h.nodes] at hremoved
  rw [← List.reverse_eq_iff] at hremoved
  rw [hremoved, Installation.among]
  refine List.filter_congr fun x hx => ?_
  rw [Bool.eq_iff_iff, decide_eq_true_iff, ← List.mem_reverse, hremoved, List.mem_filter]
  exact (and_iff_right hx).symm

/-- Their numbers are the next ones, in the order of attachment. -/
theorem returned_eq : base'.ids.returned = I.among removal.removed ++ base.ids.returned := by
  rw [h.removed.ids, IdPool.returned_recycles, h.reverse_removed]

theorem highWater_eq : base'.ids.highWater = base.ids.highWater := by
  rw [h.removed.ids, IdPool.highWater_recycles]

/-- What a step got is just what it asked for. -/
theorem exists_node (hq : I.steps[i]? = some q) (hx : I.nodes[i]? = some x) :
    ∃ n, base.network.nodes[x]? = some n ∧ n.kind = I.wanted entry.id q :=
  h.before.houses.kind_eq h.built hq hx (h.plain hq)

/-- A node that may not be shared goes with the rule. -/
theorem removed_of_not_shares (hq : I.steps[i]? = some q) (hx : I.nodes[i]? = some x)
    (hshares : ¬ base.config.shares q.kind) : x ∈ removal.removed := by
  obtain ⟨n, hn, hkind⟩ := h.exists_node hq hx
  refine h.mem_removed.2 ⟨n, hn, ?_, fun r => ?_⟩
  · rw [hkind, Installation.rootKey?_wanted]
    cases hk : q.kind <;> simp_all [Config.shares, NodeKind.rootKey?]
  · rw [h.before.houses.owners hn]
    constructor
    · rintro ⟨J, hJ, hmem⟩
      obtain ⟨j, hj⟩ := List.mem_iff_getElem?.1 hmem
      exact (h.before.houses.alone h.built hJ hq hshares hx hj).1.symm
    · rintro rfl
      exact ⟨I, h.built, List.mem_of_getElem? hx⟩

end Departed

/-- The definition is being added again under the number `rule`: as far as it has
    been served, it is built as it was. -/
structure Restores (base : RuleBase) (I : Installation) (gone : List NodeId) (rule : RuleId)
    (J : Installation) (w : Site) : Prop where
  nodes : J.nodes <+: I.nodes
  highWater : w.base.ids.highWater = base.ids.highWater
  /-- The numbers of the nodes that have not been made again come next. -/
  returned : ∃ pending, I.among gone = J.among gone ++ pending ∧
    w.base.ids.returned = pending ++ base.ids.returned
  /-- Nodes are what they were. -/
  kind : ∀ {y : NodeId} {n m : Node}, base.network.nodes[y]? = some n →
    w.base.network.nodes[y]? = some m → m.kind = if y ∈ gone then n.kind.under rule else n.kind

/-- A node that is there is taken into use again. -/
theorem Restores.touch {base : RuleBase} {I J : Installation} {gone : List NodeId} {rule : RuleId}
    {w : Site} {q : Request} {x : NodeId} (h : base.Restores I gone rule J w)
    (hpre : (J.snoc q x).nodes <+: I.nodes) (hgone : x ∈ gone → x ∈ J.nodes)
    (partition : PartitionId) (e? : Option Expiration) :
    base.Restores I gone rule (J.snoc q x) (w.touch rule partition e? x) where
  nodes := hpre
  highWater := h.highWater
  returned := by
    have hsame : (J.snoc q x).among gone = J.among gone := by
      by_cases hx : x ∈ J.nodes
      · exact Installation.among_snoc_of_mem hx
      · exact Installation.among_snoc_of_not_gone (mt hgone hx)
    rw [hsame]
    exact h.returned
  kind {y n m} hn hm := by
    rw [Site.touch_nodes] at hm
    split at hm
    · obtain ⟨m₀, hm₀, rfl⟩ := Option.map_eq_some_iff.1 hm
      rw [Node.claimed_kind]
      exact h.kind hn hm₀
    · exact h.kind hn hm

namespace Departed

variable {base base' : RuleBase} {defs : RuleId → Option Rule}
variable {inst inst' : RuleId → Option Installation} {entry : RuleEntry} {I J : Installation}
variable {removal : Removal} {q : Request} {x y : NodeId} {n m : Node}
variable {rule : RuleId} {partition : PartitionId} {w : Site}
variable (h : Departed base base' defs inst entry I removal)
include h

/-- Nothing has been served yet. -/
theorem restores_start {begun : RuleBase} (hnetwork : begun.network = base'.network)
    (hids : begun.ids = base'.ids) :
    base.Restores I removal.removed rule .empty ⟨begun, []⟩ where
  nodes := List.nil_prefix
  highWater := by rw [hids, h.highWater_eq]
  returned := ⟨I.among removal.removed, rfl, by rw [hids, h.returned_eq]⟩
  kind {y n m} hn hm := by
    rw [hnetwork] at hm
    obtain ⟨n', hn', hstays, hkind, -⟩ := h.removed.node h.before.houses h.built h.nodes hm
    rw [if_neg hstays, hkind, Option.some.inj (hn.symm.trans hn')]

section Step
variable (hw : w.Sound inst' rule J) (hre : base.Restores I removal.removed rule J w)
variable (hq : I.steps[J.nodes.length]? = some q) (hx : I.nodes[J.nodes.length]? = some x)
include hw hre

/-- A node that is there was there, and if it went with the rule, it was made
    again. -/
theorem there (hm : w.base.network.nodes[y]? = some m) :
    (∃ n, base.network.nodes[y]? = some n) ∧ (y ∈ removal.removed → y ∈ J.nodes) := by
  obtain ⟨pending, hpending, hreturned⟩ := hre.returned
  obtain ⟨hlt, hlive⟩ := hw.numbered.valid.isLive_iff.1 ((hw.numbered.live y).2 ⟨m, hm⟩)
  rw [hreturned, List.mem_append, not_or] at hlive
  refine ⟨(h.before.numbered.live y).1
    (h.before.numbered.valid.isLive_iff.2 ⟨hre.highWater ▸ hlt, hlive.2⟩), ?_⟩
  intro hgone
  have hmem : y ∈ I.among removal.removed :=
    Installation.mem_among.2 ⟨h.mem_nodes_of_removed hgone, hgone⟩
  rw [hpending, List.mem_append, or_iff_left hlive.1] at hmem
  exact (Installation.mem_among.1 hmem).1

/-- A node that is missing went with the rule. -/
theorem missing (hn : base.network.nodes[y]? = some n) (hm : w.base.network.nodes[y]? = none) :
    y ∈ removal.removed := by
  obtain ⟨pending, hpending, hreturned⟩ := hre.returned
  obtain ⟨hlt, hlive⟩ :=
    h.before.numbered.valid.isLive_iff.1 ((h.before.numbered.live y).2 ⟨n, hn⟩)
  have hdead : ¬ w.base.ids.isLive y := by
    rw [hw.numbered.live, hm]
    simp
  rw [hw.numbered.valid.isLive_iff, not_and_not_right, hre.highWater, hreturned, List.mem_append,
    or_iff_left hlive] at hdead
  have hmem : y ∈ I.among removal.removed := hpending ▸ List.mem_append_right _ (hdead hlt)
  exact (Installation.mem_among.1 hmem).2

omit hw in
include hq in
/-- The same is asked for again. -/
theorem wanted_eq : J.wanted rule q = I.wanted rule q := by
  refine NodeKind.map_congr fun s hs => ?_
  obtain ⟨hlt, -⟩ := h.before.houses.source_before h.built hq hs
  obtain ⟨rest, hrest⟩ := hre.nodes
  rw [Installation.nodeAt, Installation.nodeAt, List.getD_eq_getElem?_getD,
    List.getD_eq_getElem?_getD, ← hrest, List.getElem?_append_left hlt]

variable (follows : q.Follows w.base.config.objectTypeMemory J.steps)
variable (hconfig : w.base.config = base.config)
include hq hx follows hconfig

/-- **What is still there, or there again, is found.** -/
theorem found (hm : w.base.network.nodes[x]? = some m) :
    w.base.network.existing w.base.config q.guardsOut (J.wanted rule q) = some x := by
  obtain ⟨n, hn, hkind⟩ := h.exists_node hq hx
  -- otherwise the node would have been made again by an earlier step
  have hshares : base.config.shares q.kind := by
    by_contra hshares
    obtain ⟨j, hj⟩ := List.mem_iff_getElem?.1
      ((h.there hw hre hm).2 (h.removed_of_not_shares hq hx hshares))
    have hlt := (List.getElem?_eq_some_iff.1 hj).1
    obtain ⟨rest, hrest⟩ := hre.nodes
    have hj' : I.nodes[j]? = some x := by rw [← hrest, List.getElem?_append_left hlt, hj]
    exact hlt.ne' (h.before.houses.alone h.built h.built hq hshares hx hj').2
  have hterminal := NodeKind.not_isTerminal_of_shares hshares
  have hsame : m.kind = J.wanted rule q := by
    rw [h.wanted_eq hre hq, ← I.wanted_under entry.id, ← hkind, hre.kind hn hm]
    split
    · rfl
    · rw [NodeKind.under_of_not_isTerminal]
      rwa [hkind, Installation.wanted, NodeKind.isTerminal_map]
  have hsharesm : w.base.config.shares m.kind := by
    rwa [hsame, Installation.shares_wanted, hconfig]
  cases hfound : w.base.network.existing w.base.config q.guardsOut (J.wanted rule q) with
  | none =>
    refine absurd ?_ (Site.not_serves_of_existing_none hw.houses.wired hfound hm ?_)
    · rw [hsame]
      exact NodeKind.serves_refl _ _
    · rwa [← hsame]
  | some y =>
    obtain ⟨k, hk, hserves, -⟩ := Site.existing_serves hw.stands follows hfound
    rw [(h.plain hq).weighing, ← hsame] at hserves
    rw [hw.houses.maximal hm hk hsharesm (NodeKind.serves_symm hserves)]

omit h hre hq hx follows hconfig in
/-- A node that is missing has not been made again. -/
theorem not_mem_of_missing (hm : w.base.network.nodes[y]? = none) : y ∉ J.nodes := fun hmem => by
  obtain ⟨k, hk, -⟩ := hw.houses.exists_node (Function.update_self ..) hmem
  rw [hm] at hk
  cases hk

/-- Nothing else does the work of a node that is missing. -/
theorem existing_eq_none (hm : w.base.network.nodes[x]? = none) :
    w.base.network.existing w.base.config q.guardsOut (J.wanted rule q) = none := by
  obtain ⟨n, hn, hkind⟩ := h.exists_node hq hx
  refine Option.eq_none_iff_forall_ne_some.2 fun y hfound => ?_
  obtain ⟨k, hk, hserves, hshares⟩ := Site.existing_serves hw.stands follows hfound
  have hterminal := NodeKind.not_isTerminal_of_shares hshares
  have hwanted : J.wanted rule q = n.kind := by
    rw [h.wanted_eq hre hq, ← I.wanted_under entry.id, ← hkind,
      NodeKind.under_of_not_isTerminal]
    rwa [hkind, Installation.wanted, NodeKind.isTerminal_map]
  rw [(h.plain hq).weighing, hwanted] at hserves
  -- a node that does the work did it before, so it is the missing one
  obtain ⟨⟨n', hn'⟩, -⟩ := h.there hw hre hk
  have hkind' : k.kind = n'.kind := by
    have hk' := hre.kind hn' hk
    split at hk'
    · rw [hk', NodeKind.under_of_not_isTerminal]
      rw [← NodeKind.isTerminal_under (k := n'.kind) rule, ← hk',
        NodeKind.isTerminal_eq_of_serves hserves, hkind, Installation.wanted,
        NodeKind.isTerminal_map]
      exact hterminal
    · exact hk'
  have hsharesn : base.config.shares n.kind := by
    rw [hkind, Installation.shares_wanted, ← hconfig]
    exact hshares
  rw [hkind'] at hserves
  obtain rfl := h.before.houses.maximal hn hn' hsharesn (NodeKind.serves_symm hserves)
  rw [hm] at hk
  cases hk

omit follows hconfig in
/-- A node that is missing is the first one that has not been made again. -/
theorem exists_pending (hm : w.base.network.nodes[x]? = none) :
    ∃ pending, I.among removal.removed = J.among removal.removed ++ x :: pending ∧
      w.base.ids.returned = x :: (pending ++ base.ids.returned) := by
  obtain ⟨n, hn, -⟩ := h.exists_node hq hx
  have hgone := h.missing hw hre hn hm
  have hnew := not_mem_of_missing hw hm
  obtain ⟨pending, hpending, hreturned⟩ := hre.returned
  have hpre : (J.snoc q x).nodes <+: I.nodes := Installation.snoc_prefix hre.nodes hx
  obtain ⟨later, hlater⟩ : (J.snoc q x).among removal.removed <+: I.among removal.removed :=
    Installation.among_prefix hpre
  rw [Installation.among_snoc_of_new hnew hgone, List.append_assoc] at hlater
  obtain rfl := List.append_cancel_left (hlater.trans hpending)
  exact ⟨later, hpending, hreturned⟩

/-- **One more request gets the node that it got before.** -/
theorem restores_serve (partition : PartitionId) (origin? : Option Origin) :
    let served := w.serve rule partition q.guardsOut (J.wanted rule q) q.expiration? origin?
    base.Restores I removal.removed rule (J.snoc q served.1) served.2 := by
  intro served
  cases hm : w.base.network.nodes[x]? with
  | some m =>
    have hserved : served = (x, w.touch rule partition q.expiration? x) := by
      simp only [served, Site.serve, h.found hw hre hq hx follows hconfig hm]
    have hgone := (h.there hw hre hm).2
    rw [hserved]
    exact hre.touch (Installation.snoc_prefix hre.nodes hx) hgone partition q.expiration?
  | none =>
    have hnone := h.existing_eq_none hw hre hq hx follows hconfig hm
    obtain ⟨pending, hpending, hreturned⟩ := h.exists_pending hw hre hq hx hm
    obtain ⟨hissue, hreturned', hhighWater⟩ := IdPool.issue_of_returned hreturned
    have hserved : served = (x, w.make rule partition q.expiration? (J.wanted rule q) origin?) := by
      simp only [served, Site.serve, hnone, hissue]
    obtain ⟨n, hn, hkind⟩ := h.exists_node hq hx
    have hgone := h.missing hw hre hn hm
    have hnew := not_mem_of_missing hw hm
    rw [hserved]
    refine ⟨Installation.snoc_prefix hre.nodes hx, hhighWater.trans hre.highWater,
      ⟨pending, ?_, hreturned'⟩, fun {y k m} hk hmy => ?_⟩
    · rw [Installation.among_snoc_of_new hnew hgone, hpending, List.append_assoc]
      rfl
    · rw [Site.make_nodes w rule partition _ origin?
        (Site.wanted_parents_nodup hw.stands follows), hissue] at hmy
      split at hmy
      · subst y
        obtain rfl : n = k := Option.some.inj (hn.symm.trans hk)
        rw [← Option.some.inj hmy, if_pos hgone, Node.claimed_kind, h.wanted_eq hre hq, hkind,
          Installation.wanted_under]
      · split at hmy
        · obtain ⟨m₀, hm₀, rfl⟩ := Option.map_eq_some_iff.1 hmy
          exact (hre.kind hk hm₀ :)
        · exact hre.kind hk hmy

end Step

/-- **As far as the definition has been served again, it is built as it was.** -/
theorem restores {w₀ : Site} (hruns : Site.Runs rule partition w₀ J w)
    (h₀ : w₀.Sound inst' rule .empty) (hconfig : w₀.base.config = base.config)
    (hstart : base.Restores I removal.removed rule .empty w₀) (hpre : J.steps <+: I.steps) :
    base.Restores I removal.removed rule J w := by
  induction hruns with
  | start => exact hstart
  | @step J w q origin? before follows ih =>
    obtain ⟨rest, hrest⟩ := hpre
    have hre := ih ⟨q :: rest, by rw [← hrest]; simp [Installation.snoc]⟩
    have hw := before.sound h₀
    have hlen := hw.houses.lengths (Function.update_self rule (some J) inst')
    have hq : I.steps[J.nodes.length]? = some q := by
      rw [← hrest, hlen]
      simp [Installation.snoc]
    rw [← before.config_eq] at follows hconfig
    exact h.restores_serve hw hre hq (h.before.houses.node_of_step h.built hq) follows hconfig
      partition origin?

end Departed

/-- The name of a rule that was removed is free. -/
theorem Removed.ruleNamed?_eq_none {base base' : RuleBase} {entry : RuleEntry} {removal : Removal}
    (hr : base.Removed entry removal base') : base'.ruleNamed? entry.name = none := by
  rw [ruleNamed?, hr.rest]
  simp

/-- The next number is free if it was before, or was that of the rule that was
    removed. -/
theorem Removed.unnumbered {base base' : RuleBase} {entry : RuleEntry} {removal : Removal}
    (hr : base.Removed entry removal base')
    (hnumber : base.nextRule = entry.id ∨ base.rules[base.nextRule]? = none) :
    base'.rules[base'.nextRule]? = none := by
  rw [hr.rest, Std.ExtTreeMap.getElem?_erase]
  split
  · rfl
  · rename_i hne
    exact hnumber.resolve_left fun heq => hne (Std.compare_eq_iff_eq.2 heq.symm)

end RuleBase

/-- **Removing a plain rule and adding its definition again restores it in
    place**, if the number that it gets is then free.  Both succeed; what is made
    for the rule is what went with it, in the reverse order, each node with the same
    inputs and doing the same as before, but that terminals are those of the new
    rule; and no new number is given out. -/
theorem readd_restores {l : Library} (h : l.Reachable) {id : RuleId} {r : Rule}
    (hr : l.definitions id = some r) (hplain : r.Plain)
    (hnumber : l.base.nextRule = id ∨ l.base.rule? l.base.nextRule = none) : ∃ removal base',
      RuleBase.removeRule id l.base = .ok removal base' ∧
      ∃ built, (base'.add r).result = .ok built ∧ built.created = removal.removed.reverse ∧
        (∀ x ∈ removal.removed, ∃ n m, l.base.network.nodes[x]? = some n ∧
          (base'.add r).base.network.nodes[x]? = some m ∧ m.kind = n.kind.under built.rule) ∧
        (base'.add r).base.ids.highWater = l.base.ids.highWater := by
  obtain ⟨inst, hs⟩ := h.sound
  have hs : l.base.Sound l.definitions inst := hs
  obtain ⟨entry, I, he, hI, hreg⟩ := hs.entry_of_definition hr
  obtain ⟨rfl, -⟩ := hs.registered he
  obtain ⟨b, hb, hsteps⟩ := hreg.blueprint
  obtain ⟨removal, base', hremove, hremoved, hs'⟩ := hs.remove he
  have hd : l.base.Departed base' l.definitions inst entry I removal :=
    ⟨hs, hI, hreg.nodes, fun hq => hplain.steps hb (hsteps ▸ hq), hremoved⟩
  -- the definition is added again
  have hfree := hremoved.ruleNamed?_eq_none
  rw [hreg.name] at hfree
  rw [← hd.config_eq] at hb
  obtain ⟨built, J, hadd, hc⟩ := RuleBase.add_ok hs' hfree (hremoved.unnumbered hnumber) hb
  obtain ⟨w, hruns, -, -, hbase⟩ := hc.served
  obtain ⟨p, hbegun⟩ := base'.begun_eq
  have hre := hd.restores hruns (hc.site_sound hs') (by rw [hbegun, hd.config_eq])
    (hd.restores_start (by rw [hbegun]) (by rw [hbegun])) (by rw [hc.steps, hsteps])
  have hhouses := (hc.houses hs').1
  have hnodes : J.nodes = I.nodes := by
    refine hre.nodes.eq_of_length ?_
    rw [hhouses.lengths (Function.update_self ..), hs.houses.lengths hI, hc.steps, hsteps]
  have hnetwork : (base'.add r).base.network = w.base.network := by rw [hbase]
  refine ⟨removal, base', hremove, built, hadd, ?_, fun x hx => ?_, ?_⟩
  · rw [hc.created_eq hs', hd.reverse_removed, hnodes, Installation.among]
    refine List.filter_congr fun x hx => ?_
    obtain ⟨n, hn, -⟩ := hs.houses.exists_node hI (List.mem_eraseDups.1 hx)
    by_cases hgone : x ∈ removal.removed
    · simp [hgone, hremoved.gone hgone]
    · rw [hremoved.nodes, hn, Option.bind_some, Node.remnant_of_not_gone hgone]
      simp [hgone]
  · have hmem := hd.mem_nodes_of_removed hx
    obtain ⟨n, hn, -⟩ := hs.houses.exists_node hI hmem
    obtain ⟨m, hm, -⟩ := hhouses.exists_node (Function.update_self ..) (hnodes ▸ hmem)
    have hkind := hre.kind hn (hnetwork ▸ hm)
    rw [if_pos hx, ← hc.rule] at hkind
    exact ⟨n, m, hn, hm, hkind⟩
  · rw [hbase]
    exact hre.highWater

/-- A library with a rule part of whose nodes were made for a rule since removed,
    and are now shared with a later one. -/
def Library.inherited : Library :=
  [Command.add (.relating "first" 0), .add (.relating "second" 0), .remove 0,
    .add (.choosing "third")].foldl Library.after (.empty {})

theorem readd_restores_inherited : Library.inherited.Reachable ∧
    Library.inherited.definitions 1 = some (.relating "second" 0) ∧ ∃ removal base',
      RuleBase.removeRule 1 Library.inherited.base = .ok removal base' ∧
      ∃ built, (base'.add (.relating "second" 0)).result = .ok built ∧
        built.created = removal.removed.reverse ∧
        (∀ x ∈ removal.removed, ∃ n m, Library.inherited.base.network.nodes[x]? = some n ∧
          (base'.add (.relating "second" 0)).base.network.nodes[x]? = some m ∧
            m.kind = n.kind.under built.rule) ∧
        (base'.add (.relating "second" 0)).base.ids.highWater =
          Library.inherited.base.ids.highWater := by
  have h : Library.inherited.Reachable := .step (.step (.step (.step (.empty rfl) _) _) _) _
  have hr : Library.inherited.definitions 1 = some (.relating "second" 0) := by decide +kernel
  have hplain : (Rule.relating "second" 0).Plain := by
    simp [Rule.Plain, Rule.relating, Body.toElement, Element.Meets, Element.MeetAll,
      Pattern.Meets, Pattern.joinTests, JoinTest.isGuard]
  have hnumber : Library.inherited.base.rule? Library.inherited.base.nextRule = none := by
    decide +kernel
  exact ⟨h, hr, readd_restores h hr hplain (.inr hnumber)⟩

/-- When rule numbers have come round again, a rule that was removed is refused,
    for the number of another one. -/
theorem not_readd_restores_recounted : ¬ ∀ (l : Library), l.Reachable →
    ∀ (id : RuleId) (r : Rule), l.definitions id = some r → r.Plain →
      ∃ removal base', RuleBase.removeRule id l.base = .ok removal base' ∧
        ∃ built, (base'.add r).result = .ok built := by
  intro hall
  let second : Rule := .relating "second" 0
  let l := Library.recounted {} [.add (.relating "first" 0), .add second]
  have hfree : l.base.ruleNamed? "vain" = none := by decide +kernel
  have h : l.Reachable := Library.reachable_recounted rfl _ (by decide +kernel) hfree
  have hr : l.definitions 1 = some second := by decide +kernel
  have hplain : second.Plain := by
    simp [second, Rule.Plain, Rule.relating, Body.toElement, Element.Meets, Element.MeetAll,
      Pattern.Meets, Pattern.joinTests, JoinTest.isGuard]
  have hrefused : ¬ (((RuleBase.removeRule 1).leaves l.base).add second).result.toBool := by
    decide +kernel
  clear_value l second
  obtain ⟨removal, base', hremove, built, hbuilt⟩ := hall l h 1 second hr hplain
  rw [RuleBase.Edit.leaves, hremove] at hrefused
  rw [hbuilt] at hrefused
  exact hrefused rfl

end RuleNet
