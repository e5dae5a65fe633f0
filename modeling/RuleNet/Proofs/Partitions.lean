/-
  RuleNet — partitions of nodes.

  Where each rule gets a partition of its own, its number tells which one it is,
  so no two registered rules are in one partition.  A node ought to be in the
  partition of the rules that use it if that is one, and in the shared one if
  there are several.  Compiling widens the partition of a node that was there
  before, whether or not rules still use it.  So a root that was left without
  rules is shared once it is used again, even by one rule alone
  (`not_partitionLaw_renewed`), until one of several rules stops using it.  All
  other nodes obey the law (`partition_law`).
-/
import RuleNet.Proofs.Placement

namespace RuleNet

/-! ## Partitions given out -/

namespace PartitionId

/-- The partition is one of the first `k` that are given out. -/
def Among (p : PartitionId) (k : Nat) : Prop := ∃ j, 0 < j ∧ j ≤ k ∧ p = j % 2 ^ 32

variable {p : PartitionId} {k k' : Nat}

theorem Among.mono (h : p.Among k) (hk : k ≤ k') : p.Among k' := by
  obtain ⟨j, hpos, hj, hp⟩ := h
  exact ⟨j, hpos, hj.trans hk, hp⟩

/-- As long as there are numbers left, the next partition is another one. -/
theorem Among.ne_next (h : p.Among k) (hk : k < 2 ^ 32) : p ≠ (k + 1) % 2 ^ 32 := by
  obtain ⟨j, hpos, hj, hp⟩ := h
  intro hnext
  have hsame : j % 2 ^ 32 = (k + 1) % 2 ^ 32 := hp.symm.trans hnext
  omega

theorem among_next (k : Nat) : Among ((k + 1) % 2 ^ 32) (k + 1) :=
  ⟨k + 1, k.succ_pos, le_rfl, rfl⟩

end PartitionId

namespace RuleBase

/-- All nodes that rules use are in the partitions of those rules. -/
def PartitionLaw (base : RuleBase) : Prop :=
  ∀ (x : NodeId) (n : Node), base.network.nodes[x]? = some n → (∃ r, r ∈ n.rules) →
    base.PlacesWell n

/-! ## Nodes that were left without rules -/

/-- The rule base that commands lead to, the newest one first. -/
def history (config : Config) (cs : List Command) : RuleBase :=
  cs.foldr (fun c base => c.run base) (.empty config)

/-- No rule uses a node. -/
def Idles (base : RuleBase) (x : NodeId) : Prop :=
  ∃ n, base.network.nodes[x]? = some n ∧ ∀ r, r ∉ n.rules

/-- Between two rule bases a rule has stopped using a node, which stayed. -/
def LetGo (base base' : RuleBase) (x : NodeId) : Prop :=
  ∃ n n' r, base.network.nodes[x]? = some n ∧ base'.network.nodes[x]? = some n' ∧
    r ∈ n.rules ∧ r ∉ n'.rules

/-- A node was left without rules, and no rule has stopped using it since. -/
inductive Orphaned (config : Config) : List Command → NodeId → Prop where
  | left {cs : List Command} {x : NodeId} (idles : (history config cs).Idles x) :
      Orphaned config cs x
  | kept {cs : List Command} {c : Command} {x : NodeId} (before : Orphaned config cs x)
      (used : ¬ (history config cs).LetGo (history config (c :: cs)) x) :
      Orphaned config (c :: cs) x

variable {base base' : RuleBase} {defs : RuleId → Option Rule}
variable {inst : RuleId → Option Installation} {x : NodeId} {n m : Node} {id : RuleId}
variable {entry : RuleEntry} {O : NodeId → Prop}

theorem idles_iff : base.Idles x ↔ (base.network.nodes[x]?).any (·.rules.isEmpty) := by
  simp only [Idles, Option.any_eq_true, Std.ExtTreeSet.isEmpty_iff,
    Std.ExtTreeSet.eq_empty_iff_forall_not_mem]

theorem letGo_iff : base.LetGo base' x ↔ (base.network.nodes[x]?).any fun n =>
    (base'.network.nodes[x]?).any fun m => n.rules.toList.any (· ∉ m.rules) := by
  simp only [LetGo, Option.any_eq_true, List.any_eq_true, Std.ExtTreeSet.mem_toList,
    decide_eq_true_eq]
  constructor
  · rintro ⟨n, m, r, hn, hm, hr⟩
    exact ⟨n, hn, m, hm, r, hr⟩
  · rintro ⟨n, hn, m, hm, r, hr⟩
    exact ⟨n, m, r, hn, hm, hr⟩

instance : Decidable (base.Idles x) := decidable_of_iff _ idles_iff.symm

instance : Decidable (base.LetGo base' x) := decidable_of_iff _ letGo_iff.symm

theorem orphaned_nil {config : Config} : Orphaned config [] x ↔ (empty config).Idles x := by
  refine ⟨?_, fun idles => .left idles⟩
  rintro ⟨idles⟩
  exact idles

theorem orphaned_cons {config : Config} {c : Command} {cs : List Command} :
    Orphaned config (c :: cs) x ↔ (history config (c :: cs)).Idles x ∨
      (Orphaned config cs x ∧ ¬ (history config cs).LetGo (history config (c :: cs)) x) := by
  constructor
  · rintro (idles | ⟨before, used⟩)
    · exact .inl idles
    · exact .inr ⟨before, used⟩
  · rintro (idles | ⟨before, used⟩)
    · exact .left idles
    · exact .kept before used

instance decidableOrphaned (config : Config) : (cs : List Command) → (x : NodeId) →
    Decidable (Orphaned config cs x)
  | [], _ => decidable_of_iff _ orphaned_nil.symm
  | _ :: cs, x =>
    have := decidableOrphaned config cs x
    decidable_of_iff _ orphaned_cons.symm

/-! ## The invariant -/

/-- Nodes are in the partitions of the rules that use them, but for the orphans
    `O`, which may be shared though one rule alone uses them; `k` rules have been
    begun. -/
structure Parted (base : RuleBase) (O : NodeId → Prop) (k : Nat) : Prop where
  partitioning : base.config.partitioning
  /-- Numbers and partitions are counted together. -/
  nextRule : base.nextRule = k % 2 ^ 32
  nextPartition : base.nextPartition = (k + 1) % 2 ^ 32
  /-- The number of a rule tells its partition. -/
  issued : ∀ {id : RuleId} {p : PartitionId}, base.rulePartitions[id]? = some p →
    id < k ∧ id < 2 ^ 32 ∧ p = tick id
  /-- Nodes are in partitions that have been given out. -/
  placed : ∀ {x : NodeId} {n : Node}, base.network.nodes[x]? = some n →
    ∃ p, n.partition? = some p ∧ (p = .shared ∨ p.Among k)
  /-- Nodes without rules are orphans. -/
  idle : ∀ {x : NodeId}, base.Idles x → O x
  /-- Orphans are roots. -/
  root : ∀ {x : NodeId}, O x → ∃ n, base.network.nodes[x]? = some n ∧ n.kind.isRoot
  lawful : ∀ {x : NodeId} {n : Node}, base.network.nodes[x]? = some n → (∃ r, r ∈ n.rules) →
    ¬ O x → base.PlacesWell n
  /-- If partitions have been given out again, an orphan may happen to have been
      left in that of the rule that uses it. -/
  shared : ∀ {x : NodeId} {n : Node}, base.network.nodes[x]? = some n → (∃ r, r ∈ n.rules) →
    O x → n.partition? = some .shared ∨ (2 ^ 32 < k ∧ base.PlacesWell n)

theorem parted_empty {config : Config} (h : config.partitioning) :
    (empty config).Parted (Orphaned config []) 0 where
  partitioning := h
  nextRule := rfl
  nextPartition := rfl
  issued h := by
    rw [rulePartitions_eq] at h
    simp [empty] at h
  placed h := by simp [empty, Network.empty] at h
  idle h := .left h
  root h := by
    cases h with
    | left idles =>
      obtain ⟨n, hn, -⟩ := idles
      simp [history, empty, Network.empty] at hn
  lawful h := by simp [empty, Network.empty] at h
  shared h := by simp [empty, Network.empty] at h

/-- Only the situations of nodes, rules and what is counted matter. -/
theorem Parted.congr (h : base.Parted O k) (hconfig : base'.config = base.config)
    (hnodes : base.SituatedAlike base') (hrules : base'.rules = base.rules) {k' : Nat}
    (hnext : base'.nextRule = k' % 2 ^ 32 ∧ base'.nextPartition = (k' + 1) % 2 ^ 32)
    (hle : k ≤ k') : base'.Parted O k' := by
  have hsame : ∀ r : RuleId, base'.rulePartitions[r]? = base.rulePartitions[r]? := fun r => by
    rw [rulePartitions_eq, rulePartitions_eq, hrules]
  have hbefore : ∀ {x : NodeId} {m : Node}, base'.network.nodes[x]? = some m →
      ∃ n, base.network.nodes[x]? = some n ∧ n.rules = m.rules ∧ n.partition? = m.partition? ∧
        (base.PlacesWell n → base'.PlacesWell m) := by
    intro x m hm
    obtain ⟨n, hn, -, hnrules, hpartition⟩ := hnodes.symm.exists_node hm
    refine ⟨n, hn, hnrules, hpartition, fun hwell => ?_⟩
    exact hwell.congr (fun r => by rw [hnrules]) hpartition.symm fun r _ => hsame r
  exact {
    partitioning := by
      rw [hconfig]
      exact h.partitioning
    nextRule := hnext.1
    nextPartition := hnext.2
    issued := by
      intro id p hp
      rw [hsame] at hp
      obtain ⟨hlt, hrest⟩ := h.issued hp
      exact ⟨hlt.trans_le hle, hrest⟩
    placed := by
      intro x m hm
      obtain ⟨n, hn, -, hpartition, -⟩ := hbefore hm
      obtain ⟨p, hp, hgiven⟩ := h.placed hn
      exact ⟨p, hpartition ▸ hp, hgiven.imp_right fun hgiven => hgiven.mono hle⟩
    idle := by
      rintro x ⟨m, hm, hidle⟩
      obtain ⟨n, hn, hnrules, -⟩ := hbefore hm
      exact h.idle ⟨n, hn, hnrules ▸ hidle⟩
    root := by
      intro x ho
      obtain ⟨n, hn, hroot⟩ := h.root ho
      obtain ⟨m, hm, hkind, -⟩ := hnodes.exists_node hn
      exact ⟨m, hm, by rwa [hkind]⟩
    lawful := by
      intro x m hm hused ho
      obtain ⟨n, hn, hnrules, -, hwell⟩ := hbefore hm
      exact hwell (h.lawful hn (hnrules ▸ hused) ho)
    shared := by
      intro x m hm hused ho
      obtain ⟨n, hn, hnrules, hpartition, hwell⟩ := hbefore hm
      rw [← hpartition]
      refine (h.shared hn (hnrules ▸ hused) ho).imp_right fun ⟨hk, hw⟩ => ⟨hk.trans_le hle, hwell hw⟩ }

/-- A rule that is begun gets the partition that its number tells. -/
theorem Parted.begun_partition (hp : base.Parted O k) : base.begun.1 = tick base.nextRule := by
  rw [(RuleBase.begun_partition hp.partitioning).1, hp.nextPartition, hp.nextRule, tick_eq,
    Nat.mod_add_mod]

/-- Other rules are in other partitions. -/
theorem Parted.ne_begun_partition (hp : base.Parted O k) {p : PartitionId}
    (hid : base.rulePartitions[id]? = some p) (hne : id ≠ base.nextRule) : p ≠ base.begun.1 := by
  obtain ⟨-, hlt, rfl⟩ := hp.issued hid
  have hnext : base.nextRule < 2 ^ 32 := by
    rw [hp.nextRule]
    exact Nat.mod_lt _ (by decide)
  rw [hp.begun_partition]
  exact fun hsame => hne (tick_inj hlt hnext hsame)

/-- A node that a rule uses is in the partition of the rule, or in the shared
    one. -/
theorem Parted.fits (hp : base.Parted O k) (hn : base.network.nodes[x]? = some n) {r : RuleId}
    (hr : r ∈ n.rules) {p : PartitionId} (hid : base.rulePartitions[r]? = some p) :
    n.partition? = some p ∨ n.partition? = some .shared := by
  by_cases ho : O x
  · obtain hshared | ⟨-, hwell⟩ := hp.shared hn ⟨r, hr⟩ ho
    · exact .inr hshared
    · exact hwell.fits hr hid
  · exact (hp.lawful hn ⟨r, hr⟩ ho).fits hr hid

/-- Rules that use nodes have partitions. -/
theorem Sound.exists_rulePartition (h : base.Sound defs inst)
    (hn : base.network.nodes[x]? = some n) {r : RuleId} (hr : r ∈ n.rules) :
    ∃ p, base.rulePartitions[r]? = some p := by
  obtain ⟨entry, he⟩ := Option.isSome_iff_exists.1
    (Std.ExtTreeMap.mem_iff_isSome_getElem?.1 (h.mem_rules_of_uses hn hr))
  exact ⟨entry.partition, by rw [rulePartitions_eq, he]; rfl⟩

/-- A rule that is refused leaves nodes where they are, even if it was to get the
    number of a registered one. -/
theorem Parted.situatedAlike (h : base.Sound defs inst) (hp : base.Parted O k)
    (hk : base.Kept base') : base.SituatedAlike base' := by
  refine hk.situatedAlike fun x n hn hr => ?_
  obtain ⟨p, hid⟩ := h.exists_rulePartition hn hr
  have hsame : p = base.begun.1 := by
    rw [hp.begun_partition]
    exact (hp.issued hid).2.2
  obtain hown | hshared := hp.fits hn hr hid
  · exact ⟨p, hown, .inl hsame⟩
  · exact ⟨.shared, hshared, .inr rfl⟩

/-- A rule that is refused takes a number and a partition, or none. -/
theorem Parted.kept (h : base.Sound defs inst) (hp : base.Parted O k) (hk : base.Kept base') :
    ∃ k', k' ≤ k + 1 ∧ base'.Parted O k' := by
  have hconfig : base'.config = base.config := by rw [hk.rest]
  have hrules : base'.rules = base.rules := by rw [hk.rest]
  have hnodes := hp.situatedAlike h hk
  obtain ⟨p, hbegun⟩ := base.begun_eq
  obtain ⟨hrule, hpartition⟩ | ⟨hrule, hpartition⟩ := hk.counters
  · refine ⟨k, k.le_succ, hp.congr hconfig hnodes hrules ⟨?_, ?_⟩ le_rfl⟩
    · rw [hrule, hp.nextRule]
    · rw [hpartition, hp.nextPartition]
  · refine ⟨k + 1, le_rfl, hp.congr hconfig hnodes hrules ⟨?_, ?_⟩ k.le_succ⟩
    · rw [hrule, hbegun, hp.nextRule, tick_eq, Nat.mod_add_mod]
    · rw [hpartition, (RuleBase.begun_partition hp.partitioning).2, hp.nextPartition, tick_eq,
        Nat.mod_add_mod]

/-! ### Compiling -/

section Compiled
variable {r : Rule} {b : Blueprint} {built : Session.Built} {I : Installation}
variable (h : base.Sound defs inst) (hc : base.Compiled r b built I base')
include h hc

/-- Compiling leaves no node without rules. -/
theorem Compiled.idles (hidles : base'.Idles x) : base.Idles x := by
  obtain ⟨m, hm, hidle⟩ := hidles
  cases hn : base.network.nodes[x]? with
  | none => exact absurd ((hc.made h hm hn).2 _ |>.2 rfl) (hidle _)
  | some n =>
    obtain ⟨m', hm', -, hrules⟩ := hc.keeps h hn
    obtain rfl : m' = m := Option.some.inj (hm'.symm.trans hm)
    exact ⟨n, hn, fun r hr => hidle r ((hrules r).2 (.inl hr))⟩

/-- A rule that used a node before is in the partition that it was in, and the new
    rule is not. -/
theorem Compiled.rulePartitions_of_uses (hp : base.Parted O k)
    (hn : base.network.nodes[x]? = some n) {r : RuleId} (hr : r ∈ n.rules) :
    base'.rulePartitions[r]? = base.rulePartitions[r]? ∧
      base.rulePartitions[r]? ≠ some base.begun.1 := by
  have hne := h.ne_of_unnumbered hc.unnumbered hn hr
  refine ⟨by rw [hc.rulePartitions_eq, if_neg hne], fun hid => ?_⟩
  exact hp.ne_begun_partition hid hne rfl

/-- A node that other rules use is shared after the rule has taken it into use. -/
theorem Compiled.shared (hp : base.Parted O k) (hm : base'.network.nodes[x]? = some m)
    (hn : base.network.nodes[x]? = some n) (hused : ∃ r, r ∈ n.rules) (hx : x ∈ I.nodes) :
    m.partition? = some .shared := by
  obtain ⟨r, hr⟩ := hused
  obtain ⟨p, hid⟩ := h.exists_rulePartition hn hr
  have hne : p ≠ base.begun.1 := hp.ne_begun_partition hid (h.ne_of_unnumbered hc.unnumbered hn hr)
  rw [hc.partition?_eq h hm, if_pos hx, hn, Option.bind_some]
  obtain hown | hshared := hp.fits hn hr hid
  · rw [hown, PartitionId.widened_of_ne hne]
  · rw [hshared, PartitionId.widened_of_fits (.inr rfl)]

omit h in
/-- The rule is in a partition of its own. -/
theorem Compiled.placesWell_of_sole (hsole : ∀ r, r ∈ m.rules ↔ r = base.nextRule)
    (hm : m.partition? = some base.begun.1) : base'.PlacesWell m := by
  have hnew : base'.rulePartitions[base.nextRule]? = some base.begun.1 := by
    rw [hc.rulePartitions_eq, if_pos rfl]
  refine ⟨fun p hall => ?_, fun r hr r' hr' hne => ?_⟩
  · rw [hm, ← hnew, hall _ ((hsole _).2 rfl)]
  · rw [(hsole r).1 hr, (hsole r').1 hr'] at hne
    exact absurd rfl hne

/-- Nodes that the rule does not use are in the right partitions as before, and so
    are those that it shares with other rules. -/
theorem Compiled.placesWell_of_used (hp : base.Parted O k) (hm : base'.network.nodes[x]? = some m)
    (hn : base.network.nodes[x]? = some n) (hused : ∃ r, r ∈ n.rules)
    (hwell : x ∉ I.nodes → base.PlacesWell n) : base'.PlacesWell m := by
  have hold := fun (r : RuleId) (hr : r ∈ n.rules) => hc.rulePartitions_of_uses h hp hn hr
  obtain ⟨m', hm', -, hrules⟩ := hc.keeps h hn
  obtain rfl : m' = m := Option.some.inj (hm'.symm.trans hm)
  by_cases hx : x ∈ I.nodes
  · -- the rule and one that used the node before are in different partitions
    have hnew : base'.rulePartitions[base.nextRule]? = some base.begun.1 := by
      rw [hc.rulePartitions_eq, if_pos rfl]
    refine ⟨fun p hall => ?_, fun _ _ _ _ _ => hc.shared h hp hm hn hused hx⟩
    obtain ⟨r, hr⟩ := hused
    obtain ⟨hsame, hne⟩ := hold r hr
    have hr' := hall r ((hrules r).2 (.inl hr))
    rw [← hall _ ((hrules _).2 (.inr ⟨rfl, hx⟩)), hnew, hsame] at hr'
    exact absurd hr' hne
  · refine (hwell hx).congr (fun r => ?_) ?_ fun r hr => (hold r hr).1
    · rw [hrules]
      exact or_iff_left fun h => hx h.2
    · rw [hc.partition?_eq h hm, if_neg hx, hn, Option.bind_some]

theorem Compiled.lawful (hp : base.Parted O k) (hm : base'.network.nodes[x]? = some m)
    (ho : ¬ O x) : base'.PlacesWell m := by
  cases hn : base.network.nodes[x]? with
  | none =>
    obtain ⟨hx, hsole⟩ := hc.made h hm hn
    refine hc.placesWell_of_sole hsole ?_
    rw [hc.partition?_eq h hm, if_pos hx, hn]
    rfl
  | some n =>
    have hused : ∃ r, r ∈ n.rules := by
      by_contra hidle
      exact ho (hp.idle ⟨n, hn, fun r hr => hidle ⟨r, hr⟩⟩)
    exact hc.placesWell_of_used h hp hm hn hused fun _ => hp.lawful hn hused ho

/-- An orphan that no rule used is shared once the rule uses it, unless it has
    been left in the partition of the rule. -/
theorem Compiled.adopted (hp : base.Parted O k) (hm : base'.network.nodes[x]? = some m)
    (hn : base.network.nodes[x]? = some n) (hidle : ∀ r, r ∉ n.rules) (hx : x ∈ I.nodes) :
    m.partition? = some .shared ∨ (2 ^ 32 < k + 1 ∧ base'.PlacesWell m) := by
  obtain ⟨m', hm', -, hrules⟩ := hc.keeps h hn
  obtain rfl : m' = m := Option.some.inj (hm'.symm.trans hm)
  obtain ⟨p, hnp, hgiven⟩ := hp.placed hn
  have hm' := hc.partition?_eq h hm
  rw [if_pos hx, hn, Option.bind_some, hnp] at hm'
  by_cases hsame : p = base.begun.1
  · obtain rfl | hgiven := hgiven
    · rw [PartitionId.widened_of_fits (.inr rfl)] at hm'
      exact .inl hm'
    · refine .inr ⟨?_, hc.placesWell_of_sole (fun r => ?_) ?_⟩
      · by_contra hk
        refine hgiven.ne_next (by omega) ?_
        rw [hsame, (RuleBase.begun_partition hp.partitioning).1, hp.nextPartition]
      · rw [hrules]
        simp [hidle, hx]
      · rw [hm', PartitionId.widened_of_fits (.inl hsame), hsame]
  · rw [PartitionId.widened_of_ne hsame] at hm'
    exact .inl hm'

theorem Compiled.orphan_shared (hp : base.Parted O k) (hm : base'.network.nodes[x]? = some m)
    (hused : ∃ r, r ∈ m.rules) (ho : O x) :
    m.partition? = some .shared ∨ (2 ^ 32 < k + 1 ∧ base'.PlacesWell m) := by
  obtain ⟨n, hn, -⟩ := hp.root ho
  obtain ⟨m', hm', -, hrules⟩ := hc.keeps h hn
  obtain rfl : m' = m := Option.some.inj (hm'.symm.trans hm)
  by_cases hbefore : ∃ r, r ∈ n.rules
  · by_cases hx : x ∈ I.nodes
    · exact .inl (hc.shared h hp hm hn hbefore hx)
    · rw [hc.partition?_eq h hm, if_neg hx, hn, Option.bind_some]
      refine (hp.shared hn hbefore ho).imp_right fun ⟨hk, hwell⟩ => ⟨hk.trans k.lt_succ_self, ?_⟩
      exact hc.placesWell_of_used h hp hm hn hbefore fun _ => hwell
  · obtain ⟨r, hr⟩ := hused
    have hx : x ∈ I.nodes := (((hrules r).1 hr).resolve_left fun hr => hbefore ⟨r, hr⟩).2
    exact hc.adopted h hp hm hn (fun r hr => hbefore ⟨r, hr⟩) hx

omit h in
theorem Compiled.issued (hp : base.Parted O k) {p : PartitionId}
    (hid : base'.rulePartitions[id]? = some p) : id < k + 1 ∧ id < 2 ^ 32 ∧ p = tick id := by
  rw [hc.rulePartitions_eq] at hid
  split at hid
  · cases hid
    subst id
    rw [hp.begun_partition, hp.nextRule]
    exact ⟨Nat.lt_succ_of_le (Nat.mod_le _ _), Nat.mod_lt _ (by decide), rfl⟩
  · obtain ⟨hlt, hrest⟩ := hp.issued hid
    exact ⟨Nat.lt_succ_of_lt hlt, hrest⟩

/-- A node is in the partition of the rule if it was made for it, and else where it
    was, or in the shared one. -/
theorem Compiled.placed (hp : base.Parted O k) (hm : base'.network.nodes[x]? = some m) :
    ∃ p, m.partition? = some p ∧ (p = .shared ∨ p.Among (k + 1)) := by
  have hnew : PartitionId.Among base.begun.1 (k + 1) := by
    rw [(RuleBase.begun_partition hp.partitioning).1, hp.nextPartition]
    exact PartitionId.among_next k
  cases hn : base.network.nodes[x]? with
  | none =>
    obtain ⟨hx, -⟩ := hc.made h hm hn
    refine ⟨_, ?_, .inr hnew⟩
    rw [hc.partition?_eq h hm, if_pos hx, hn]
    rfl
  | some n =>
    obtain ⟨p, hnp, hgiven⟩ := hp.placed hn
    have hgiven : p = .shared ∨ p.Among (k + 1) :=
      hgiven.imp_right fun hgiven => hgiven.mono k.le_succ
    have hm' := hc.partition?_eq h hm
    rw [hn, Option.bind_some, hnp] at hm'
    split at hm'
    · refine ⟨_, hm', ?_⟩
      rw [PartitionId.widened]
      split
      · exact hgiven
      · exact .inl rfl
    · exact ⟨p, hm', hgiven⟩

omit hc in
theorem Parted.compiled (hp : base.Parted O k) (hc : base.Compiled r b built I base') :
    base'.Parted O (k + 1) where
  partitioning := by
    rw [hc.rest.1]
    exact hp.partitioning
  nextRule := by rw [hc.rest.2, hp.nextRule, tick_eq, Nat.mod_add_mod]
  nextPartition := by
    rw [hc.nextPartition_eq, (RuleBase.begun_partition hp.partitioning).2, hp.nextPartition, tick_eq,
      Nat.mod_add_mod]
  issued := hc.issued hp
  placed := hc.placed h hp
  idle hidle := hp.idle (hc.idles h hidle)
  root ho := by
    obtain ⟨n, hn, hroot⟩ := hp.root ho
    obtain ⟨m, hm, hkind, -⟩ := hc.keeps h hn
    exact ⟨m, hm, by rwa [hkind]⟩
  lawful hm _ ho := hc.lawful h hp hm ho
  shared := hc.orphan_shared h hp

end Compiled

/-- Nodes are there still, and rules use what they used. -/
def Grown (base base' : RuleBase) : Prop :=
  ∀ (x : NodeId) (n : Node), base.network.nodes[x]? = some n →
    ∃ m, base'.network.nodes[x]? = some m ∧ ∀ r ∈ n.rules, r ∈ m.rules

theorem Grown.of_situatedAlike (h : base.SituatedAlike base') : base.Grown base' := by
  intro x n hn
  obtain ⟨m, hm, -, hrules, -⟩ := h.exists_node hn
  exact ⟨m, hm, fun r hr => hrules ▸ hr⟩

theorem Grown.of_eq (h : base'.network = base.network) : base.Grown base' :=
  .of_situatedAlike (.of_eq h)

theorem Grown.trans {base'' : RuleBase} (h : base.Grown base') (h' : base'.Grown base'') :
    base.Grown base'' := by
  intro x n hn
  obtain ⟨m, hm, hrules⟩ := h x n hn
  obtain ⟨m', hm', hrules'⟩ := h' x m hm
  exact ⟨m', hm', fun r hr => hrules' r (hrules r hr)⟩

theorem Grown.not_letGo (h : base.Grown base') : ¬ base.LetGo base' x := by
  rintro ⟨n, m, r, hn, hm, hr, hr'⟩
  obtain ⟨m', hm', hrules⟩ := h x n hn
  obtain rfl : m' = m := Option.some.inj (hm'.symm.trans hm)
  exact hr' (hrules r hr)

theorem Sound.parted_all (h : base.Sound defs inst) {n : Nat} (hp : ∃ k ≤ n, base.Parted O k)
    (rs : List Rule) : (∃ k ≤ n + rs.length, (base.addAll rs).base.Parted O k) ∧
      base.Grown (base.addAll rs).base := by
  refine Session.outcome_counted
    (P := fun n base' => (∃ k ≤ n, base'.Parted O k) ∧ base.Grown base') ?_ ?_ ?_ h.idle h
    ⟨hp, .of_eq rfl⟩ rs
  · rintro n base₁ ⟨⟨k, hk, hp⟩, hg⟩
    exact ⟨⟨k, by omega, hp⟩, hg⟩
  · rintro n base₁ base₂ _ _ hs ⟨⟨k, hk, hp⟩, hg⟩ hkept
    obtain ⟨k', hk', hp'⟩ := hp.kept hs hkept
    exact ⟨⟨k', by omega, hp'⟩, hg.trans (.of_situatedAlike (hp.situatedAlike hs hkept))⟩
  · rintro n base₁ base₂ _ _ _ _ _ _ hs ⟨⟨k, hk, hp⟩, hg⟩ hc
    refine ⟨⟨k + 1, by omega, hp.compiled hs hc⟩, hg.trans fun x n hn => ?_⟩
    obtain ⟨m, hm, -, hrules⟩ := hc.keeps hs hn
    exact ⟨m, hm, fun r hr => (hrules r).2 (.inl hr)⟩

/-! ### Removing -/

/-- The orphans after a change. -/
def Orphans (O : NodeId → Prop) (base base' : RuleBase) (x : NodeId) : Prop :=
  base'.Idles x ∨ (O x ∧ ¬ base.LetGo base' x)

theorem Parted.grown (h : base'.Parted O k) (hg : base.Grown base') :
    base'.Parted (Orphans O base base') k := by
  have hsame : Orphans O base base' = O := by
    funext x
    exact propext ⟨fun h' => h'.elim h.idle And.left, fun ho => .inr ⟨ho, hg.not_letGo⟩⟩
  rw [hsame]
  exact h

section Removed
variable {removal : Removal} {defs' : RuleId → Option Rule} {inst' : RuleId → Option Installation}
variable (h : base.Sound defs inst) (he : base.rules[entry.id]? = some entry)
variable (hr : base.Removed entry removal base')
include h he hr

/-- A node that stays has been let go if the rule used it. -/
theorem Removed.letGo_iff (hn : base.network.nodes[x]? = some n)
    (hm : base'.network.nodes[x]? = some m) : base.LetGo base' x ↔ entry.id ∈ n.rules := by
  obtain ⟨n', hn', -, hrules, -⟩ := hr.node_cases h he hm
  obtain rfl : n' = n := Option.some.inj (hn'.symm.trans hn)
  constructor
  · rintro ⟨n₁, m₁, r, hn₁, hm₁, hr₁, hr₁'⟩
    obtain rfl : n₁ = n' := Option.some.inj (hn₁.symm.trans hn)
    obtain rfl : m₁ = m := Option.some.inj (hm₁.symm.trans hm)
    by_contra hx
    refine hr₁' ((hrules r).2 ⟨?_, hr₁⟩)
    rintro rfl
    exact hx hr₁
  · exact fun hx => ⟨n', m, entry.id, hn, hm, hx, fun hx' => ((hrules _).1 hx').1 rfl⟩

/-- Roots stay. -/
theorem Removed.keeps_root (hn : base.network.nodes[x]? = some n) (hroot : n.kind.isRoot) :
    ∃ m, base'.network.nodes[x]? = some m ∧ m.kind.isRoot := by
  obtain ⟨-, r, I, -, hI, hreg⟩ := h.registered he
  have hgone : x ∉ removal.removed := by
    rw [hr.mem_removed_iff h.houses hI hreg.nodes hn]
    rintro ⟨hnone, -⟩
    rw [NodeKind.isRoot, hnone] at hroot
    cases hroot
  obtain ⟨m, hm, hkind, -⟩ := hr.stays h.houses hI hreg.nodes hn hgone
  exact ⟨m, hm, by rwa [hkind]⟩

omit h he in
/-- The other rules are in the partitions that they were in. -/
theorem Removed.issued (hp : base.Parted O k) {p : PartitionId}
    (hid : base'.rulePartitions[id]? = some p) : id < k ∧ id < 2 ^ 32 ∧ p = tick id := by
  rw [hr.rulePartitions_eq] at hid
  split at hid
  · cases hid
  · exact hp.issued hid

/-- The partition worked out anew is that of a rule, the shared one, or the one
    before. -/
theorem Removed.placed (hp : base.Parted O k) (hm : base'.network.nodes[x]? = some m) :
    ∃ p, m.partition? = some p ∧ (p = .shared ∨ p.Among k) := by
  obtain ⟨n, hn, -, -, hcases⟩ := hr.node_cases h he hm
  obtain ⟨p, hnp, hlt⟩ := hp.placed hn
  rw [hnp] at hcases
  obtain ⟨-, hsame⟩ | ⟨-, hanew⟩ := hcases
  · exact ⟨p, hsame, hlt⟩
  cases hcommon : Node.commonPartition? (m.rules.toList.filterMap (base'.rulePartitions[·]?)) with
  | none =>
    rw [hcommon] at hanew
    exact ⟨p, hanew, hlt⟩
  | some q =>
    rw [hcommon] at hanew
    refine ⟨q, hanew, ?_⟩
    obtain hq | rfl := Node.mem_of_commonPartition? hcommon
    · obtain ⟨r, -, hq⟩ := Node.mem_users.1 hq
      obtain ⟨hlt, -, rfl⟩ := hr.issued hp hq
      exact .inr ⟨r + 1, r.succ_pos, hlt, rfl⟩
    · exact .inl rfl

/-- A node that the rule did not use is in the right partition if it was. -/
theorem Removed.placesWell_of_unused (hm : base'.network.nodes[x]? = some m)
    (hn : base.network.nodes[x]? = some n) (hx : entry.id ∉ n.rules) (hwell : base.PlacesWell n) :
    base'.PlacesWell m := by
  obtain ⟨n', hn', -, hrules, hcases⟩ := hr.node_cases h he hm
  obtain rfl : n' = n := Option.some.inj (hn'.symm.trans hn)
  refine hwell.congr (fun r => (hrules r).trans (and_iff_right_of_imp ?_))
    (hcases.resolve_right fun h => hx h.1).2 fun r hr₁ => ?_
  · rintro hr₁ rfl
    exact hx hr₁
  · rw [hr.rulePartitions_eq, if_neg]
    rintro rfl
    exact hx hr₁

/-- A node that the rule did not use is placed as before; the partition of one
    that it used has been worked out anew. -/
theorem Removed.placesWell (hp : base.Parted O k) (h' : base'.Sound defs' inst')
    (hm : base'.network.nodes[x]? = some m) (hused : ∃ r, r ∈ m.rules)
    (ho : ¬ Orphans O base base' x) : base'.PlacesWell m := by
  obtain ⟨n, hn, -, hrules, ⟨hx, -⟩ | ⟨-, hanew⟩⟩ := hr.node_cases h he hm
  · have ho' : ¬ O x := fun ho' => ho (.inr ⟨ho', mt (hr.letGo_iff h he hn hm).1 hx⟩)
    have hused : ∃ r, r ∈ n.rules := hused.imp fun r hr => ((hrules r).1 hr).2
    exact hr.placesWell_of_unused h he hm hn hx (hp.lawful hn hused ho')
  · exact placesWell_of_eq hused (fun r hr => h'.mem_rules_of_uses hm hr) hanew

omit hr in
theorem Parted.removed (hp : base.Parted O k) (hr : base.Removed entry removal base')
    (h' : base'.Sound defs' inst') : base'.Parted (Orphans O base base') k where
  partitioning := by
    rw [hr.rest]
    exact hp.partitioning
  nextRule := by
    rw [hr.rest]
    exact hp.nextRule
  nextPartition := by
    rw [hr.rest]
    exact hp.nextPartition
  issued := hr.issued hp
  placed := hr.placed h he hp
  idle := .inl
  root {x} ho := by
    obtain ⟨m, hm, hidle⟩ | ⟨ho, -⟩ := ho
    · refine ⟨m, hm, ?_⟩
      by_contra hroot
      rw [NodeKind.isRoot, Option.not_isSome_iff_eq_none] at hroot
      obtain ⟨r, hr⟩ := h'.houses.used hm hroot
      exact hidle r hr
    · obtain ⟨n, hn, hroot⟩ := hp.root ho
      exact hr.keeps_root h he hn hroot
  lawful := hr.placesWell h he hp h'
  shared {x m} hm hused ho := by
    obtain ⟨r, hr₁⟩ := hused
    obtain ⟨m', hm', hidle⟩ | ⟨ho, hkept⟩ := ho
    · obtain rfl : m' = m := Option.some.inj (hm'.symm.trans hm)
      exact absurd hr₁ (hidle r)
    · obtain ⟨n, hn, -, hrules, hcases⟩ := hr.node_cases h he hm
      rw [hr.letGo_iff h he hn hm] at hkept
      rw [(hcases.resolve_right fun h => hkept h.1).2]
      obtain hshared | ⟨hk, hwell⟩ := hp.shared hn ⟨r, ((hrules r).1 hr₁).2⟩ ho
      · exact .inl hshared
      · exact .inr ⟨hk, hr.placesWell_of_unused h he hm hn hkept hwell⟩

end Removed

/-! ### Every command -/

/-- Working memories come and go. -/
theorem Parted.memories (hp : base.Parted O k) (memories : List MemoryId) :
    { base with memories }.Parted O k := by
  refine hp.congr ?_ (.of_eq ?_) ?_ ⟨hp.nextRule, hp.nextPartition⟩ le_rfl <;> rfl

/-- **Commands keep nodes in the partitions of the rules that use them**, but for
    orphans. -/
theorem Sound.parted (h : base.Sound defs inst) (hp : base.Parted O k) (c : Command) :
    ∃ k' ≤ k + c.brings.length, (c.run base).Parted (Orphans O base (c.run base)) k' := by
  refine h.run_cases (P := fun base' => ∃ k' ≤ _, base'.Parted (Orphans O base base') k') c ?_
    (fun _ he hr h' => ⟨k, Nat.le_add_right .., hp.removed h he hr h'⟩)
    (fun _ _ => ⟨k, Nat.le_add_right .., (hp.memories _).grown (.of_eq rfl)⟩)
    fun _ _ => ⟨k, Nat.le_add_right .., (hp.memories _).grown (.of_eq rfl)⟩
  obtain ⟨⟨k', hk', hp'⟩, hg⟩ := h.parted_all ⟨k, le_rfl, hp⟩ c.brings
  exact ⟨k', hk', hp'.grown hg⟩

/-- How many definitions the commands bring. -/
def brought (cs : List Command) : Nat := (cs.flatMap Command.brings).length

theorem reachable_history {config : Config} (plain : config.maker = .plain) (cs : List Command) :
    (history config cs).Reachable := by
  induction cs with
  | nil => exact .empty plain
  | cons c cs ih => exact ih.step c

/-- Nodes are in the partitions of the rules that use them, but for orphans,
    whatever commands led to the rule base. -/
theorem parted_history {config : Config} (plain : config.maker = .plain)
    (hp : config.partitioning) (cs : List Command) :
    ∃ k ≤ brought cs, (history config cs).Parted (Orphaned config cs) k := by
  induction cs with
  | nil => exact ⟨0, le_rfl, parted_empty hp⟩
  | cons c cs ih =>
    obtain ⟨defs, inst, hs⟩ := (reachable_history plain cs).sound
    obtain ⟨k, hk, ih⟩ := ih
    obtain ⟨k', hk', hparted⟩ := hs.parted ih c
    rw [brought, List.flatMap_cons, List.length_append]
    rw [show Orphaned config (c :: cs) = Orphans _ _ _ from funext fun _ => propext orphaned_cons]
    refine ⟨k', ?_, hparted⟩
    rw [brought] at hk
    omega

/-! ## Where rules are not partitioned -/

/-- All nodes and all rules are in the shared partition. -/
structure Unparted (base : RuleBase) : Prop where
  partitioning : ¬ base.config.partitioning
  rule : ∀ {id : RuleId} {p : PartitionId}, base.rulePartitions[id]? = some p → p = .shared
  node : ∀ {x : NodeId} {n : Node}, base.network.nodes[x]? = some n → n.partition? = some .shared

theorem unparted_empty {config : Config} (h : ¬ config.partitioning) : (empty config).Unparted where
  partitioning := h
  rule h := by
    rw [rulePartitions_eq] at h
    simp [empty] at h
  node h := by simp [empty, Network.empty] at h

/-- Only the situations of nodes and rules matter. -/
theorem Unparted.congr (h : base.Unparted) (hconfig : base'.config = base.config)
    (hnodes : base.SituatedAlike base') (hrules : base'.rules = base.rules) : base'.Unparted where
  partitioning := by
    rw [hconfig]
    exact h.partitioning
  rule hid := by
    rw [rulePartitions_eq, hrules, ← rulePartitions_eq] at hid
    exact h.rule hid
  node hm := by
    obtain ⟨n, hn, -, -, hpartition⟩ := hnodes.symm.exists_node hm
    rw [← hpartition]
    exact h.node hn

/-- A rule that is refused leaves nodes where they are. -/
theorem Unparted.situatedAlike (h : base.Unparted) (hk : base.Kept base') :
    base.SituatedAlike base' :=
  hk.situatedAlike fun _ _ hn _ => ⟨_, h.node hn, .inr rfl⟩

/-- A rule that is begun gets the shared partition. -/
theorem Unparted.begun_partition (h : base.Unparted) : base.begun.1 = .shared := by
  rw [begun, assignPartition, if_neg h.partitioning]

theorem Unparted.compiled {r : Rule} {b : Blueprint} {built : Session.Built} {I : Installation}
    (h : base.Sound defs inst) (hu : base.Unparted) (hc : base.Compiled r b built I base') :
    base'.Unparted where
  partitioning := by
    rw [hc.rest.1]
    exact hu.partitioning
  rule hid := by
    rw [hc.rulePartitions_eq, hu.begun_partition] at hid
    split at hid
    · exact (Option.some.inj hid).symm
    · exact hu.rule hid
  node {x m} hm := by
    rw [hc.partition?_eq h hm, hu.begun_partition]
    cases hn : base.network.nodes[x]? with
    | none =>
      rw [if_pos (hc.made h hm hn).1]
      rfl
    | some n =>
      rw [Option.bind_some, hu.node hn]
      split <;> rfl

theorem Unparted.removed {removal : Removal} (h : base.Sound defs inst)
    (he : base.rules[entry.id]? = some entry) (hu : base.Unparted)
    (hr : base.Removed entry removal base') : base'.Unparted := by
  have hrule : ∀ {id : RuleId} {p : PartitionId}, base'.rulePartitions[id]? = some p → p = .shared := by
    intro id p hid
    rw [hr.rulePartitions_eq] at hid
    split at hid
    · cases hid
    · exact hu.rule hid
  refine ⟨?_, hrule, fun {x m} hm => ?_⟩
  · rw [hr.rest]
    exact hu.partitioning
  · obtain ⟨n, hn, -, -, ⟨-, hsame⟩ | ⟨-, hanew⟩⟩ := hr.node_cases h he hm
    · rw [hsame, hu.node hn]
    · rw [hanew, hu.node hn]
      cases hcommon : Node.commonPartition? (m.rules.toList.filterMap (base'.rulePartitions[·]?)) with
      | none => rfl
      | some q =>
        obtain hq | rfl := Node.mem_of_commonPartition? hcommon
        · obtain ⟨r, -, hq⟩ := Node.mem_users.1 hq
          rw [hrule hq]
          rfl
        · rfl

theorem unparted_history {config : Config} (plain : config.maker = .plain)
    (h : ¬ config.partitioning) (cs : List Command) : (history config cs).Unparted := by
  induction cs with
  | nil => exact unparted_empty h
  | cons c cs ih =>
    obtain ⟨defs, inst, hs⟩ := (reachable_history plain cs).sound
    refine hs.run_induction ih c ?_ .compiled .removed ?_ ?_
    · intro base base' hu hk
      exact hu.congr (by rw [hk.rest]) (hu.situatedAlike hk) (by rw [hk.rest])
    · exact fun memory _ => ih.congr rfl (.of_eq rfl) rfl
    · exact fun memory _ => ih.congr rfl (.of_eq rfl) rfl

theorem Unparted.placesWell (h : base.Unparted) (hn : base.network.nodes[x]? = some n)
    (hused : ∃ r, r ∈ n.rules) : base.PlacesWell n where
  one p hall := by
    obtain ⟨r, hr⟩ := hused
    rw [h.node hn, h.rule (hall r hr)]
  several _ _ _ _ _ := h.node hn

/-! ## Whether or not rules are partitioned -/

theorem Reachable.exists_history (h : base.Reachable) :
    ∃ config cs, config.maker = .plain ∧ history config cs = base := by
  induction h with
  | @empty config plain => exact ⟨config, [], plain, rfl⟩
  | step _ c ih =>
    obtain ⟨config, cs, plain, rfl⟩ := ih
    exact ⟨config, c :: cs, plain, rfl⟩

/-- **A node that is no root is in the partition of the rules that use it**,
    whether or not rules are partitioned. -/
theorem Reachable.placesWell (h : base.Reachable) (hn : base.network.nodes[x]? = some n)
    (hroot : ¬ n.kind.isRoot) (hused : ∃ r, r ∈ n.rules) : base.PlacesWell n := by
  obtain ⟨config, cs, plain, rfl⟩ := h.exists_history
  by_cases hp : config.partitioning
  · obtain ⟨k, -, h⟩ := parted_history plain hp cs
    refine h.lawful hn hused fun ho => hroot ?_
    obtain ⟨n', hn', hroot'⟩ := h.root ho
    obtain rfl : n' = n := Option.some.inj (hn'.symm.trans hn)
    exact hroot'
  · exact (unparted_history plain hp cs).placesWell hn hused

/-- **A rule that is refused leaves nodes where they are**, even if it was to get
    the number of a registered one. -/
theorem Reachable.situatedAlike (h : base.Reachable) (hk : base.Kept base') :
    base.SituatedAlike base' := by
  obtain ⟨config, cs, plain, rfl⟩ := h.exists_history
  by_cases hp : config.partitioning
  · obtain ⟨defs, inst, hs⟩ := h.sound
    obtain ⟨k, -, hparted⟩ := parted_history plain hp cs
    exact hparted.situatedAlike hs hk
  · exact (unparted_history plain hp cs).situatedAlike hk

/-! ## Orphans alone are misplaced -/

/-- **Where rules are partitioned, a node is in the partition of the rules that
    use it**: in theirs if they have one, in the shared one if they have several.
    Only a root that was left without rules, and that no rule has stopped using
    since, is shared whatever rules use it, unless partitions have been given out
    again and it happened to be in the right one. -/
theorem partition_law {config : Config} (plain : config.maker = .plain)
    (hp : config.partitioning) (cs : List Command) {x : NodeId} {n : Node}
    (hn : (history config cs).network.nodes[x]? = some n) (hused : ∃ r, r ∈ n.rules) :
    (¬ Orphaned config cs x → (history config cs).PlacesWell n) ∧
      (Orphaned config cs x → n.kind.isRoot ∧ (n.partition? = some .shared ∨
        (2 ^ 32 < brought cs ∧ (history config cs).PlacesWell n))) := by
  obtain ⟨k, hk, h⟩ := parted_history plain hp cs
  refine ⟨h.lawful hn hused, fun ho => ⟨?_, ?_⟩⟩
  · obtain ⟨n', hn', hroot⟩ := h.root ho
    obtain rfl : n' = n := Option.some.inj (hn'.symm.trans hn)
    exact hroot
  · exact (h.shared hn hused ho).imp_right fun ⟨hmany, hwell⟩ => ⟨hmany.trans_le hk, hwell⟩

end RuleBase

/-- A rule about one fact. -/
def Rule.noticing (name : String) : Rule where
  name
  body := ⟨.and, [.pattern { offset := 0, type := 2 }]⟩

namespace RuleBase

/-- The root of an entry point that two of three rules still use. -/
theorem partition_law_shared :
    let cs : List Command := [.remove 0, .add (.relating "third" 0), .add (.relating "second" 0),
      .add (.noticing "first")]
    ∃ n, (history .partitioned cs).network.nodes[(0 : NodeId)]? = some n ∧ (∃ r, r ∈ n.rules) ∧
      ¬ Orphaned .partitioned cs 0 ∧ (history .partitioned cs).PlacesWell n := by
  intro cs
  have hused : ((history .partitioned cs).network.nodes[(0 : NodeId)]?).any (·.rules.contains 1) := by
    decide +kernel
  obtain ⟨n, hn, hmem⟩ := (Option.any_eq_true ..).1 hused
  have hrule : ∃ r, r ∈ n.rules := ⟨1, Std.ExtTreeSet.contains_iff_mem.1 hmem⟩
  have horphaned : ¬ Orphaned .partitioned cs 0 := by decide +kernel
  exact ⟨n, hn, hrule, horphaned, (partition_law rfl rfl cs hn hrule).1 horphaned⟩

/-- The root of an entry point that one rule has left behind is shared when
    another rule uses it, though no third one does. -/
theorem not_partitionLaw_renewed :
    ¬ (history .partitioned
      [.add (.noticing "second"), .remove 0, .add (.noticing "first")]).PartitionLaw := by
  intro h
  have hnode : (history .partitioned [.add (.noticing "second"), .remove 0,
      .add (.noticing "first")]).network.nodes[(0 : NodeId)]?.map
        (fun n => (n.partition?, n.rules.toList)) = some (some 0, [1]) := by decide +kernel
  have hrule : (history .partitioned [.add (.noticing "second"), .remove 0,
      .add (.noticing "first")]).rulePartitions[(1 : RuleId)]? = some 2 := by decide +kernel
  obtain ⟨n, hn, hsame⟩ := Option.map_eq_some_iff.1 hnode
  obtain ⟨hpartition, hrules⟩ := Prod.mk.inj hsame
  have hmem : ∀ r : RuleId, r ∈ n.rules ↔ r = 1 := fun r => by
    rw [← Std.ExtTreeSet.mem_toList, hrules, List.mem_singleton]
  have hone := (h 0 n hn ⟨1, (hmem 1).2 rfl⟩).one 2 fun r hr => by rw [(hmem r).1 hr, hrule]
  rw [hpartition] at hone
  cases hone

end RuleBase

end RuleNet