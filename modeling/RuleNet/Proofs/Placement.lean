/-
  RuleNet — what a change does to the partitions of nodes.

  A node ought to be in the partition of the rules that use it if that is one,
  and in the shared one if there are several (`PlacesWell`).  Compiling a rule
  widens the partitions of the nodes that it uses (`Compiled.partition?_eq`);
  removing it works them out anew, unless no rule is left
  (`Removed.node_cases`).  A rule that is refused leaves nodes where they are,
  if those that a rule of its number uses are in its partition or the shared one
  (`Kept.situation_eq`).
-/
import RuleNet.Proofs.Ownership

namespace RuleNet

/-! ## Widening a partition -/

/-- The partition of a node once a rule of `partition` uses it, given the one
    before. -/
def PartitionId.widened : (before? : Option PartitionId) → (partition : PartitionId) → PartitionId
  | none, partition => partition
  | some current, partition =>
    if current = partition ∨ current.isShared then current else .shared

namespace PartitionId

variable {current partition : PartitionId} {before? : Option PartitionId}

/-- Another partition than the one before leads to the shared one. -/
theorem widened_of_ne (h : current ≠ partition) : widened (some current) partition = .shared := by
  rw [widened]
  split
  · rename_i hshared
    simpa [isShared] using hshared.resolve_left h
  · rfl

/-- It does not matter how often a rule takes a node into use. -/
theorem widened_widened :
    widened (some (widened before? partition)) partition = widened before? partition := by
  cases before? with
  | none => exact if_pos (.inl rfl)
  | some current =>
    by_cases h : current = partition
    · subst h
      simp [widened]
    · rw [widened_of_ne h]
      exact if_pos (.inr rfl)

/-- A node of the partition, or the shared one, stays where it is. -/
theorem widened_of_fits (h : current = partition ∨ current.isShared) :
    widened (some current) partition = current := if_pos h

end PartitionId

namespace Node

variable {n : Node} {rule : RuleId} {partition p q : PartitionId} {e? : Option Expiration}
variable {ps : List PartitionId}

theorem stamp_partition? :
    (n.stamp partition).partition? = some (.widened n.partition? partition) := by
  unfold stamp stampOf
  cases hp : n.partition? with
  | none => rfl
  | some current =>
    simp only [PartitionId.widened]
    split_ifs
    · exact hp
    · rfl

@[simp] theorem claimed_partition? :
    (n.claimed rule partition e?).partition? = some (.widened n.partition? partition) := by
  refine Eq.trans ?_ (n.own rule).stamp_partition?
  cases e? <;> rfl

/-! ## Working a partition out anew -/

theorem commonPartition?_of_forall (hne : ps ≠ []) (h : ∀ q ∈ ps, q = p) :
    commonPartition? ps = some p := by
  cases ps with
  | nil => exact absurd rfl hne
  | cons q qs =>
    obtain rfl := h q List.mem_cons_self
    refine if_pos (List.all_eq_true.2 fun q' hq' => ?_)
    exact decide_eq_true (h q' (List.mem_cons_of_mem _ hq'))

theorem commonPartition?_of_ne (hp : p ∈ ps) (hq : q ∈ ps) (hne : p ≠ q) :
    commonPartition? ps = some .shared := by
  cases ps with
  | nil => cases hp
  | cons a as =>
    refine if_neg fun hall => hne ?_
    -- otherwise all of them would be the first one
    have hsame : ∀ q ∈ a :: as, q = a := List.forall_mem_cons.2
      ⟨rfl, fun q hq => of_decide_eq_true (List.all_eq_true.1 hall q hq)⟩
    rw [hsame p hp, hsame q hq]

/-- A common partition is one of them, or the shared one. -/
theorem mem_of_commonPartition? (h : commonPartition? ps = some p) : p ∈ ps ∨ p = .shared := by
  cases ps with
  | nil => cases h
  | cons a as =>
    rw [commonPartition?] at h
    split at h <;> cases h
    · exact .inl List.mem_cons_self
    · exact .inr rfl

theorem mem_users {partitions : Std.ExtTreeMap RuleId PartitionId} :
    p ∈ n.rules.toList.filterMap (partitions[·]?) ↔ ∃ r ∈ n.rules, partitions[r]? = some p := by
  simp [List.mem_filterMap, Std.ExtTreeSet.mem_toList]

end Node
/-- A node of the partition, or the shared one, stays there when a rule of the
    partition takes it into use again. -/
theorem Node.Marked.partition?_eq {k : RuleId} {p q : PartitionId} {n n' : Node}
    (h : n.Marked k p n') (hq : n.partition? = some q) (hfits : q = p ∨ q.isShared) :
    n'.partition? = some q := by
  induction h with
  | refl => exact hq
  | claimed _ _ _ ih => rw [claimed_partition?, ih, PartitionId.widened_of_fits hfits]

/-! ## The law -/

/-- All of a node that the law is about. -/
def Node.situation (n : Node) : NodeKind × Std.ExtTreeSet RuleId × Option PartitionId :=
  (n.kind, n.rules, n.partition?)

namespace RuleBase

/-- A node is in the partition of the rules that use it. -/
structure PlacesWell (base : RuleBase) (n : Node) : Prop where
  /-- It is in their partition if they have one. -/
  one : ∀ p : PartitionId, (∀ r ∈ n.rules, base.rulePartitions[r]? = some p) → n.partition? = some p
  /-- It is in the shared partition if they have several. -/
  several : ∀ r ∈ n.rules, ∀ r' ∈ n.rules, base.rulePartitions[r]? ≠ base.rulePartitions[r']? →
    n.partition? = some .shared

variable {base base' : RuleBase} {defs : RuleId → Option Rule}
variable {inst : RuleId → Option Installation} {x : NodeId} {n m : Node} {id : RuleId}
variable {entry : RuleEntry}

theorem rulePartitions_eq (base : RuleBase) (id : RuleId) :
    base.rulePartitions[id]? = (base.rules[id]?).map (·.partition) :=
  Std.ExtTreeMap.getElem?_map

/-- A node whose partition has been worked out anew is in the partition of the
    rules that use it. -/
theorem placesWell_of_eq {before? : Option PartitionId} (hused : ∃ r, r ∈ n.rules)
    (hreg : ∀ r ∈ n.rules, r ∈ base.rules)
    (hn : n.partition? = (Node.commonPartition?
      (n.rules.toList.filterMap (base.rulePartitions[·]?))).or before?) : base.PlacesWell n := by
  have hknown : ∀ r ∈ n.rules, ∃ p, base.rulePartitions[r]? = some p := by
    intro r hr
    have := Std.ExtTreeMap.mem_iff_isSome_getElem?.1 (hreg r hr)
    obtain ⟨entry, he⟩ := Option.isSome_iff_exists.1 this
    exact ⟨entry.partition, by rw [rulePartitions_eq, he]; rfl⟩
  constructor
  · intro p hall
    obtain ⟨r, hr⟩ := hused
    have hmem : p ∈ n.rules.toList.filterMap (base.rulePartitions[·]?) :=
      Node.mem_users.2 ⟨r, hr, hall r hr⟩
    have hcommon := Node.commonPartition?_of_forall (List.ne_nil_of_mem hmem) fun q hq => by
      obtain ⟨r', hr', hq⟩ := Node.mem_users.1 hq
      exact Option.some.inj (hq.symm.trans (hall r' hr'))
    rw [hn, hcommon, Option.some_or]
  · intro r hr r' hr' hne
    obtain ⟨p, hp⟩ := hknown r hr
    obtain ⟨q, hq⟩ := hknown r' hr'
    have hcommon := Node.commonPartition?_of_ne (Node.mem_users.2 ⟨r, hr, hp⟩)
      (Node.mem_users.2 ⟨r', hr', hq⟩) fun hpq => hne (by rw [hp, hq, hpq])
    rw [hn, hcommon, Option.some_or]

/-- The law does not depend on rules that do not use the node. -/
theorem PlacesWell.congr (h : base.PlacesWell n) (hrules : ∀ r, r ∈ m.rules ↔ r ∈ n.rules)
    (hpartition : m.partition? = n.partition?)
    (hsame : ∀ r ∈ n.rules, base'.rulePartitions[r]? = base.rulePartitions[r]?) :
    base'.PlacesWell m := by
  constructor
  · intro p hall
    rw [hpartition]
    exact h.one p fun r hr => by rw [← hsame r hr, hall r ((hrules r).2 hr)]
  · intro r hr r' hr' hne
    rw [hrules] at hr hr'
    rw [hsame r hr, hsame r' hr'] at hne
    rw [hpartition]
    exact h.several r hr r' hr' hne

/-- A node that is in the right partition is in that of a rule that uses it, or in
    the shared one. -/
theorem PlacesWell.fits (h : base.PlacesWell n) {r : RuleId} {p : PartitionId} (hr : r ∈ n.rules)
    (hp : base.rulePartitions[r]? = some p) : n.partition? = some p ∨ n.partition? = some .shared := by
  by_cases hall : ∀ r' ∈ n.rules, base.rulePartitions[r']? = some p
  · exact .inl (h.one p hall)
  · push Not at hall
    obtain ⟨r', hr', hne⟩ := hall
    exact .inr (h.several r' hr' r hr (hp ▸ hne))

/-- Nodes are in the situations that they were in. -/
def SituatedAlike (base base' : RuleBase) : Prop :=
  ∀ x : NodeId, base'.network.nodes[x]?.map Node.situation = base.network.nodes[x]?.map Node.situation

theorem SituatedAlike.of_eq (h : base'.network = base.network) : base.SituatedAlike base' :=
  fun x => by rw [h]

theorem SituatedAlike.symm (h : base.SituatedAlike base') : base'.SituatedAlike base :=
  fun x => (h x).symm

theorem SituatedAlike.exists_node (h : base.SituatedAlike base')
    (hn : base.network.nodes[x]? = some n) : ∃ m, base'.network.nodes[x]? = some m ∧
      m.kind = n.kind ∧ m.rules = n.rules ∧ m.partition? = n.partition? := by
  have hx := h x
  rw [hn] at hx
  obtain ⟨m, hm, hsame⟩ := Option.map_eq_some_iff.1 hx
  obtain ⟨hkind, hrest⟩ := Prod.mk.inj hsame
  obtain ⟨hrules, hpartition⟩ := Prod.mk.inj hrest
  exact ⟨m, hm, hkind, hrules, hpartition⟩

/-! ## Refused rules -/

/-- A rule that is refused leaves nodes where they are. -/
theorem Kept.situatedAlike (hk : base.Kept base')
    (hfits : ∀ (x : NodeId) (n : Node), base.network.nodes[x]? = some n → base.nextRule ∈ n.rules →
      ∃ q, n.partition? = some q ∧ (q = base.begun.1 ∨ q.isShared)) : base.SituatedAlike base' := by
  intro x
  have hmark := hk.marked.nodes x
  cases hn : base.network.nodes[x]? with
  | none =>
    rw [hn] at hmark
    cases hm : base'.network.nodes[x]? with
    | none => rfl
    | some m => rw [hm] at hmark; cases hmark
  | some n =>
    obtain ⟨m, hm, hmark⟩ := hk.marked.exists_marked hn
    rw [hm, Option.map_some, Option.map_some, Node.situation, hmark.kind, hmark.rules]
    by_cases hr : base.nextRule ∈ n.rules
    · obtain ⟨q, hq, hqfits⟩ := hfits x n hn hr
      rw [hmark.partition?_eq hq hqfits, ← hq]
      rfl
    · rw [hmark.untouched hr]
      rfl

end RuleBase

/-! ## Compiled rules -/

section Serving
variable {w : Site} {rule : RuleId} {partition : PartitionId} {e? : Option Expiration}
variable {x y : NodeId} {n : Node}

/-- A node that is taken into use comes to be in a wider partition. -/
theorem Site.touch_partition? (hn : (w.touch rule partition e? y).base.network.nodes[x]? = some n) :
    ∃ m, w.base.network.nodes[x]? = some m ∧
      n.partition? = if x = y then some (.widened m.partition? partition) else m.partition? := by
  rw [Site.touch_nodes] at hn
  split at hn
  · obtain ⟨m, hm, rfl⟩ := Option.map_eq_some_iff.1 hn
    exact ⟨m, hm, by rw [Node.claimed_partition?, if_pos ‹_›]⟩
  · exact ⟨n, hn, (if_neg ‹_›).symm⟩

/-- A node that is made is in the partition of the rule; the others stay where
    they are. -/
theorem Site.make_partition? {kind : NodeKind} {origin? : Option Origin}
    (hparents : (w.base.network.parentsOf kind).Nodup)
    (hn : (w.make rule partition e? kind origin?).base.network.nodes[x]? = some n) :
    (x = w.base.ids.issue.1 ∧ n.partition? = some partition) ∨
      (x ≠ w.base.ids.issue.1 ∧ ∃ m, w.base.network.nodes[x]? = some m ∧
        n.partition? = m.partition?) := by
  rw [Site.make_nodes _ _ _ _ _ hparents] at hn
  split at hn
  · cases hn
    exact .inl ⟨‹_›, Node.claimed_partition?⟩
  · refine .inr ⟨‹_›, ?_⟩
    split at hn
    · obtain ⟨m, hm, rfl⟩ := Option.map_eq_some_iff.1 hn
      exact ⟨m, hm, rfl⟩
    · exact ⟨n, hn, rfl⟩

end Serving

/-- The nodes that a rule has taken into use are in wider partitions than
    before, and all others are where they were. -/
theorem Site.Runs.partition?_eq {base : RuleBase} {w : Site} {rule : RuleId}
    {partition : PartitionId} {I : Installation} {inst : RuleId → Option Installation}
    {x : NodeId} {n : Node} (hr : Runs rule partition ⟨base, []⟩ I w)
    (h₀ : Site.Sound ⟨base, []⟩ inst rule .empty) (hn : w.base.network.nodes[x]? = some n) :
    n.partition? = if x ∈ I.nodes
      then some (.widened (base.network.nodes[x]?.bind (·.partition?)) partition)
      else base.network.nodes[x]?.bind (·.partition?) := by
  induction hr generalizing x n with
  | start => rw [hn]; rfl
  | @step I w q origin? before follows ih =>
    have hs := before.sound h₀
    rw [← before.config_eq] at follows
    unfold Site.serve at hn ⊢
    split at hn <;> simp only [Network.mem_snoc_nodes]
    · rename_i y hx
      obtain ⟨m, hm, hpartition⟩ := Site.touch_partition? hn
      rw [hpartition, ih hm]
      by_cases hy : x = y
      · -- it does not matter whether the rule had taken the node into use before
        simp only [hy, or_true, if_true]
        split
        · rw [PartitionId.widened_widened]
        · rfl
      · simp only [hy, or_false, if_false]
    · rename_i hx
      have hf := Site.wanted_fits hs.stands follows origin? hx hs.fresh
      obtain ⟨rfl, hpartition⟩ | ⟨hne, m, hm, hpartition⟩ := Site.make_partition? hf.parents_nodup hn
      · -- no node had the number before
        have hfree := before.former h₀ w.base.ids.issue.1
        rw [hs.fresh, Option.bind_none] at hfree
        rw [hpartition, if_pos (.inr rfl), hfree]
        rfl
      · simp only [hpartition, ih hm, hne, or_false]

theorem Node.kind_of_former {rule : RuleId} {as : List Attached} {x : NodeId} {n m : Node}
    (h : m.former rule as x = some n) : n.kind = m.kind := by
  unfold former at h
  split at h
  · cases h
  · cases h
    cases as.find? (·.id == x) <;> rfl

namespace RuleBase

variable {base base' : RuleBase} {defs : RuleId → Option Rule}
variable {inst : RuleId → Option Installation} {x : NodeId} {n m : Node} {id : RuleId}
variable {entry : RuleEntry}

section Compiled
variable {r : Rule} {b : Blueprint} {built : Session.Built} {I : Installation}
variable (h : base.Sound defs inst) (hc : base.Compiled r b built I base')
include h hc

/-- The site that the rule was built on. -/
theorem Compiled.site : ∃ w, Site.Runs base.nextRule base.begun.1 ⟨base.begun.2, []⟩ I w ∧
    Site.Sound ⟨base.begun.2, []⟩ inst base.nextRule .empty ∧
    base.begun.2.network.nodes = base.network.nodes ∧ base'.network.nodes = w.base.network.nodes := by
  obtain ⟨p, hbegun⟩ := base.begun_eq
  obtain ⟨w, hruns, -, -, hbase'⟩ := hc.served
  exact ⟨w, hruns, hc.site_sound h, by rw [hbegun], by rw [hbase']⟩

/-- Nodes that were there are there, and the rule may use them as well. -/
theorem Compiled.keeps (hn : base.network.nodes[x]? = some n) :
    ∃ m, base'.network.nodes[x]? = some m ∧ m.kind = n.kind ∧
      ∀ r, r ∈ m.rules ↔ r ∈ n.rules ∨ (r = base.nextRule ∧ x ∈ I.nodes) := by
  obtain ⟨hhouses, -⟩ := hc.houses h
  obtain ⟨w, hruns, hstart, hnodes, hnodes'⟩ := hc.site h
  have hformer := hruns.former hstart x
  rw [hnodes, hn, ← hnodes'] at hformer
  obtain ⟨m, hm, hmn⟩ := Option.bind_eq_some_iff.1 hformer.symm
  refine ⟨m, hm, (Node.kind_of_former hmn).symm, fun r => ?_⟩
  rw [hhouses.owners hm, h.houses.owners hn]
  by_cases hr : r = base.nextRule
  · subst hr
    simp [(h.unregistered hc.unnumbered).2]
  · simp [hr]

/-- A node that was not there before was made for the rule, and the rule alone
    uses it. -/
theorem Compiled.made (hm : base'.network.nodes[x]? = some m)
    (hn : base.network.nodes[x]? = none) : x ∈ I.nodes ∧ ∀ r, r ∈ m.rules ↔ r = base.nextRule := by
  obtain ⟨hhouses, -⟩ := hc.houses h
  obtain ⟨w, hruns, hstart, hnodes, hnodes'⟩ := hc.site h
  have hx : x ∈ I.nodes := by
    have hformer := hruns.former hstart x
    rw [hnodes, hn, ← hnodes', hm, Option.bind_some] at hformer
    by_contra hx
    rw [Node.former_of_not_created] at hformer
    · cases hformer
    · exact fun hx' => hx ((hruns.sound hstart).mem_attached.1 (createdIds_subset hx'))
  refine ⟨hx, fun r => ?_⟩
  rw [hhouses.owners hm]
  constructor
  · rintro ⟨J, hJ, hxJ⟩
    by_contra hne
    rw [Function.update_of_ne hne] at hJ
    obtain ⟨n, hn', -⟩ := h.houses.exists_node hJ hxJ
    rw [hn] at hn'
    cases hn'
  · rintro rfl
    exact ⟨I, Function.update_self .., hx⟩

theorem Compiled.partition?_eq (hm : base'.network.nodes[x]? = some m) :
    m.partition? = if x ∈ I.nodes
      then some (.widened (base.network.nodes[x]?.bind (·.partition?)) base.begun.1)
      else base.network.nodes[x]?.bind (·.partition?) := by
  obtain ⟨w, hruns, hstart, hnodes, hnodes'⟩ := hc.site h
  rw [hnodes'] at hm
  rw [← hnodes]
  exact hruns.partition?_eq hstart hm

omit h in
theorem Compiled.nextPartition_eq : base'.nextPartition = base.begun.2.nextPartition := by
  obtain ⟨w, hruns, -, -, hbase'⟩ := hc.served
  obtain ⟨net, ids, hw⟩ := hruns.base_eq
  rw [hbase', hw]

omit h in
theorem Compiled.rulePartitions_eq : base'.rulePartitions[id]? =
    if id = base.nextRule then some base.begun.1 else base.rulePartitions[id]? := by
  obtain ⟨w, -, -, -, hbase'⟩ := hc.served
  rw [RuleBase.rulePartitions_eq, RuleBase.rulePartitions_eq, hbase', Std.ExtTreeMap.getElem?_insert]
  simp only [Std.compare_eq_iff_eq, eq_comm (a := base.nextRule)]
  split <;> rfl

end Compiled

/-! ## Removed rules -/

section Removed
variable {removal : Removal}
variable (h : base.Sound defs inst) (he : base.rules[entry.id]? = some entry)
variable (hr : base.Removed entry removal base')
include hr

theorem Removed.rulePartitions_eq : base'.rulePartitions[id]? =
    if id = entry.id then none else base.rulePartitions[id]? := by
  rw [RuleBase.rulePartitions_eq, RuleBase.rulePartitions_eq, hr.rest]
  simp only [Std.ExtTreeMap.getElem?_erase, Std.compare_eq_iff_eq, eq_comm (a := entry.id)]
  split <;> rfl

include h he

/-- A node that stays and was not used by the rule is where it was; of one that
    was, the partition has been worked out anew. -/
theorem Removed.node_cases (hm : base'.network.nodes[x]? = some m) :
    ∃ n, base.network.nodes[x]? = some n ∧ m.kind = n.kind ∧
      (∀ r, r ∈ m.rules ↔ r ≠ entry.id ∧ r ∈ n.rules) ∧
      (entry.id ∉ n.rules ∧ m.partition? = n.partition? ∨
        entry.id ∈ n.rules ∧ m.partition? = (Node.commonPartition?
          (m.rules.toList.filterMap (base'.rulePartitions[·]?))).or n.partition?) := by
  obtain ⟨-, r, I, -, hI, hreg⟩ := h.registered he
  obtain ⟨n, hn, hgone, hkind, hrules, -⟩ := hr.node h.houses hI hreg.nodes hm
  refine ⟨n, hn, hkind, hrules, ?_⟩
  by_cases hx : entry.id ∈ n.rules
  · obtain rfl := Option.some.inj (hm.symm.trans (hr.used h.houses hI hreg.nodes hn hx hgone))
    exact .inr ⟨hx, rfl⟩
  · obtain rfl := Option.some.inj (hm.symm.trans (hr.unused h.houses hI hreg.nodes hn hx))
    exact .inl ⟨hx, rfl⟩


end Removed

end RuleBase

end RuleNet
