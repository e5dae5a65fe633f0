/-
  RuleNet — removing a rule undoes adding it.

  A rule that is removed right after it was added leaves the network housing the
  rules that it housed before, so the rules that use a node are the same again
  (`Houses.rules_eq`).  What a node is, what hung below it and what other rules
  demand of it were never touched (`Compiled.frame`).  The partition of a node is
  determined by the rules that use it, unless it is a root.  Just the roots that
  were made for the rule are left.
-/
import RuleNet.Proofs.Partitions

namespace RuleNet

/-! ## What is undone -/

/-- The node `m` is the node `n` again, but that some of the nodes `created`
    hang below it. -/
structure Node.Regained (created : List NodeId) (n m : Node) : Prop where
  id : m.id = n.id
  kind : m.kind = n.kind
  rules : m.rules = n.rules
  retention : m.retention = n.retention
  origin : m.origin? = n.origin?
  /-- The partition of a root may have been worked out anew. -/
  partition : ¬ n.kind.isRoot → m.partition? = n.partition?
  /-- What hung below it does, in the same order. -/
  sinks : m.sinks.filter (· ∉ created) = n.sinks

/-- The rule base `base'` is `base` again, but that there may be more roots, among
    the nodes `created`. -/
structure RuleBase.Reverted (created : List NodeId) (base base' : RuleBase) : Prop where
  rules : base'.rules = base.rules
  /-- The nodes that were created were not there. -/
  fresh : ∀ x ∈ created, base.network.nodes[x]? = none
  /-- The nodes that were there are there. -/
  old : ∀ {x : NodeId} {n : Node}, base.network.nodes[x]? = some n →
    ∃ m, base'.network.nodes[x]? = some m ∧ n.Regained created m
  /-- What hangs below such a node besides is the root of a type, and the node the
      root of its entry point. -/
  below : ∀ {x s : NodeId} {n m : Node}, base.network.nodes[x]? = some n →
    base'.network.nodes[x]? = some m → s ∈ m.sinks → s ∈ created →
    ∃ k entry type memory, base'.network.nodes[s]? = some k ∧
      k.kind = .objectType entry type memory ∧ n.kind = .entryPoint entry
  /-- All others are roots of no use. -/
  new : ∀ {x : NodeId} {m : Node}, base'.network.nodes[x]? = some m →
    base.network.nodes[x]? = none → x ∈ created ∧ m.kind.isRoot ∧ m.rules = ∅ ∧ m.retention = .none

/-- A root that hangs below a node is the root of a type, and hangs below the root
    of its entry point. -/
theorem Network.Wired.below_of_root {net : Network} {x s : NodeId} {n k : Node} (h : net.Wired)
    (hn : net.nodes[x]? = some n) (hk : net.nodes[s]? = some k) (hs : s ∈ n.sinks)
    (hroot : k.kind.isRoot) :
    ∃ entry type memory, k.kind = .objectType entry type memory ∧ n.kind = .entryPoint entry := by
  obtain ⟨k', hk', hbelow⟩ := (h.mem_sinks hn s).1 hs
  obtain rfl : k' = k := Option.some.inj (hk'.symm.trans hk)
  obtain hsource | ⟨key, hkey, hx⟩ := Network.mem_parentsOf.1 hbelow
  · obtain ⟨key, hkey⟩ := Option.isSome_iff_exists.1 hroot
    rw [NodeKind.sources_of_isRoot hkey] at hsource
    cases hsource
  · obtain ⟨n', hn', hentry⟩ := h.roots_iff.1 hx
    obtain rfl : n' = n := Option.some.inj (hn'.symm.trans hn)
    cases hkind : k'.kind with
    | objectType entry type memory =>
      rw [hkind] at hkey
      cases hkey
      refine ⟨entry, type, memory, rfl, ?_⟩
      cases hkind' : n'.kind <;> rw [hkind'] at hentry <;> cases hentry
      rfl
    | _ =>
      rw [hkind] at hkey
      cases hkey

/-! ## Networks that house the same rules -/

namespace Network.Houses

variable {net net' : Network} {config : Config} {inst : RuleId → Option Installation}
variable {x : NodeId} {n m : Node}

theorem rules_eq (h : net.Houses config inst) (h' : net'.Houses config inst)
    (hn : net.nodes[x]? = some n) (hm : net'.nodes[x]? = some m) : m.rules = n.rules := by
  ext r
  rw [h'.owners hm, h.owners hn]

theorem retention_eq (h : net.Houses config inst) (h' : net'.Houses config inst)
    (hn : net.nodes[x]? = some n) (hm : net'.nodes[x]? = some m)
    (hsame : ∀ r : RuleId, m.retention.demands[r]? = n.retention.demands[r]?) :
    m.retention = n.retention := by
  have hdemands : m.retention.demands = n.retention.demands := by
    ext r : 1
    exact hsame r
  have htotal : m.retention.total = n.retention.total := by
    rw [h'.totalled hm, h.totalled hn, hdemands]
  exact congrArg₂ Retention.mk hdemands htotal

/-- A node that is no part of what is built of any rule is a root of no use. -/
theorem idle (h : net.Houses config inst) (hn : net.nodes[x]? = some n)
    (hx : ∀ (r : RuleId) (I : Installation), inst r = some I → x ∉ I.nodes) :
    n.kind.isRoot ∧ n.rules = ∅ ∧ n.retention = .none := by
  have hrules : ∀ r, r ∉ n.rules := fun r hr => by
    obtain ⟨I, hI, hxI⟩ := (h.owners hn r).1 hr
    exact hx r I hI hxI
  refine ⟨?_, Std.ExtTreeSet.eq_empty_iff_forall_not_mem.2 hrules, ?_⟩
  · by_contra hroot
    rw [NodeKind.isRoot, Option.not_isSome_iff_eq_none] at hroot
    obtain ⟨r, hr⟩ := h.used hn hroot
    exact hrules r hr
  · have hdemands : n.retention.demands = Retention.none.demands := by
      ext r : 1
      rw [h.demanded hn r (hrules r)]
      simp [Retention.none]
    have htotal : n.retention.total = Retention.none.total := by
      rw [h.totalled hn, Retention.totalled_none, hdemands]
    exact congrArg₂ Retention.mk hdemands htotal

end Network.Houses

namespace RuleBase

variable {base base' : RuleBase} {defs : RuleId → Option Rule}
variable {inst : RuleId → Option Installation} {x : NodeId} {n m : Node} {id : RuleId}
variable {entry : RuleEntry}

/-! ## Where nodes belong -/

/-- The rules that use a node tell its partition. -/
theorem PlacesWell.partition?_eq (h : base.PlacesWell n) (h' : base.PlacesWell m)
    (hrules : m.rules = n.rules) {r : RuleId} (hr : r ∈ n.rules) (hreg : r ∈ base.rules) :
    m.partition? = n.partition? := by
  obtain ⟨p, hp⟩ : ∃ p, base.rulePartitions[r]? = some p := by
    obtain ⟨entry, he⟩ := Option.isSome_iff_exists.1 (Std.ExtTreeMap.mem_iff_isSome_getElem?.1 hreg)
    exact ⟨entry.partition, by rw [rulePartitions_eq, he]; rfl⟩
  by_cases hall : ∀ r' ∈ n.rules, base.rulePartitions[r']? = some p
  · rw [h.one p hall, h'.one p (by rwa [hrules])]
  · push Not at hall
    obtain ⟨r', hr', hne⟩ := hall
    rw [← hp] at hne
    rw [h.several r' hr' r hr hne, h'.several r' (hrules ▸ hr') r (hrules ▸ hr) hne]

/-! ## A rule that comes and goes -/

/-- Removing leaves what a node is, and takes the nodes that are gone from below
    it. -/
theorem Removed.frame {removal : Removal} (hr : base.Removed entry removal base')
    (hm : base'.network.nodes[x]? = some m) : ∃ n, base.network.nodes[x]? = some n ∧
      m.id = n.id ∧ m.kind = n.kind ∧ m.origin? = n.origin? ∧
        m.sinks = n.sinks.filter (· ∉ removal.removed) := by
  obtain ⟨n, hn, hnm⟩ := Option.bind_eq_some_iff.1 ((hr.nodes x).symm.trans hm)
  refine ⟨n, hn, ?_⟩
  by_cases hgone : x ∈ removal.removed
  · rw [Node.remnant_of_gone hgone] at hnm
    cases hnm
  · rw [Node.remnant_of_not_gone hgone, Option.map_some, Option.some.injEq] at hnm
    rw [← hnm]
    split_ifs <;> exact ⟨rfl, rfl, rfl, rfl⟩

section Added
variable {r : Rule} {b : Blueprint} {built : Session.Built} {I : Installation}
variable (h : base.Sound defs inst) (hc : base.Compiled r b built I base')
include h hc

/-- Every node can be traced back through the list of the nodes that the rule has
    taken into use. -/
theorem Compiled.traced : ∃ as : List Attached, built.created = createdIds as ∧
    as.map (·.id) = I.nodes.eraseDups ∧ ∀ x : NodeId, base.network.nodes[x]? =
      base'.network.nodes[x]?.bind (Node.former base.nextRule as x) := by
  obtain ⟨w, hruns, hcreated, -, hbase'⟩ := hc.served
  obtain ⟨p, hbegun⟩ := base.begun_eq
  have hsite := hc.site_sound h
  refine ⟨w.attached, hcreated, (hruns.sound hsite).recorded, fun x => ?_⟩
  have hformer := hruns.former hsite x
  have hnetwork : base.begun.2.network = base.network := by rw [hbegun]
  rw [hnetwork] at hformer
  rw [hbase']
  exact hformer

/-- The nodes made for the rule are those of its nodes that were not there, in the
    order in which the rule got them. -/
theorem Compiled.created_eq :
    built.created = I.nodes.eraseDups.filter (base.network.nodes[·]?.isNone) := by
  obtain ⟨as, hcreated, hnodes, hformer⟩ := hc.traced h
  have hnd : (as.map (·.id)).Nodup := hnodes ▸ Site.nodup_eraseDups _
  rw [hcreated, createdIds, ← hnodes, List.filter_map]
  refine congrArg (List.map _) (List.filter_congr fun a ha => ?_)
  have hids : a.id ∈ createdIds as ↔ a.created := by
    rw [mem_createdIds]
    constructor
    · rintro ⟨b, hb, hmade, hid⟩
      rwa [← List.inj_on_of_nodup_map hnd hb ha hid]
    · exact fun hmade => ⟨a, ha, hmade, rfl⟩
  obtain ⟨hhouses, -⟩ := hc.houses h
  have ha' : a.id ∈ I.nodes := by
    rw [← List.mem_eraseDups, ← hnodes]
    exact List.mem_map_of_mem ha
  obtain ⟨m, hm, -⟩ := hhouses.exists_node (Function.update_self ..) ha'
  rw [Function.comp, hformer, hm, Option.bind_some]
  by_cases hmade : a.created
  · rw [Node.former_of_created (hids.2 hmade), hmade]
    rfl
  · rw [Node.former_of_not_created (mt hids.1 hmade), Bool.eq_false_iff.2 hmade]
    rfl

/-- Compiling leaves what a node is and what other rules demand of it, and hangs
    new nodes below it. -/
theorem Compiled.frame (hn : base.network.nodes[x]? = some n) :
    ∃ m, base'.network.nodes[x]? = some m ∧ n.id = m.id ∧ n.kind = m.kind ∧
      n.origin? = m.origin? ∧ n.sinks = m.sinks.filter (· ∉ built.created) ∧
      ∀ r, r ≠ base.nextRule → n.retention.demands[r]? = m.retention.demands[r]? := by
  obtain ⟨as, hcreated, -, hformer⟩ := hc.traced h
  obtain ⟨m, hm, hmn⟩ := Option.bind_eq_some_iff.1 ((hformer x).symm.trans hn)
  refine ⟨m, hm, ?_⟩
  by_cases hx : x ∈ createdIds as
  · rw [Node.former_of_created hx] at hmn
    cases hmn
  · rw [Node.former_of_not_created hx, Option.some.injEq] at hmn
    rw [← hmn, hcreated]
    cases as.find? (·.id == x) with
    | none => exact ⟨rfl, rfl, rfl, rfl, fun _ _ => rfl⟩
    | some a =>
      refine ⟨rfl, rfl, rfl, rfl, fun r hr => ?_⟩
      exact (Std.ExtTreeMap.getElem?_erase).trans (if_neg (mt Std.compare_eq_iff_eq.1 hr.symm))

/-- Of the nodes of the rule, those that no other rule uses were not there, roots
    excepted. -/
theorem Compiled.yields_iff (hm : base'.network.nodes[x]? = some m) :
    m.yields base.nextRule ↔ base.network.nodes[x]? = none ∧ ¬ m.kind.isRoot := by
  rw [Node.yields_iff, NodeKind.isRoot, Option.not_isSome_iff_eq_none]
  cases hn : base.network.nodes[x]? with
  | none =>
    obtain ⟨-, hsole⟩ := hc.made h hm hn
    constructor
    · exact fun hy => ⟨rfl, hy.1⟩
    · exact fun hy => ⟨hy.2, fun r => (hsole r).1⟩
  | some n =>
    refine iff_of_false (fun hy => ?_) fun hy => absurd hy.1 (Option.some_ne_none n)
    obtain ⟨hroot, hsole⟩ := hy
    obtain ⟨m', hm', hkind, hrules⟩ := hc.keeps h hn
    obtain rfl : m' = m := Option.some.inj (hm'.symm.trans hm)
    -- a rule that used the node before uses it still
    obtain ⟨r, hr⟩ := h.houses.used hn (hkind ▸ hroot)
    exact h.ne_of_unnumbered hc.unnumbered hn hr (hsole r ((hrules r).2 (.inl hr)))

/-- Giving up the nodes of the rule, those that were made for it go, roots
    excepted. -/
theorem Compiled.yielding_eq : base'.network.yielding base.nextRule I.nodes.eraseDups.reverse =
    (built.created.filter fun x => base'.network.nodes[x]?.any (!·.kind.isRoot)).reverse := by
  obtain ⟨hhouses, -⟩ := hc.houses h
  rw [Network.yielding, List.filter_reverse, hc.created_eq h, List.filter_filter]
  refine congrArg List.reverse (List.filter_congr fun x hx => ?_)
  rw [List.mem_eraseDups] at hx
  obtain ⟨m, hm, -⟩ := hhouses.exists_node (Function.update_self ..) hx
  rw [hm, Option.any_some, Option.any_some, Bool.eq_iff_iff, hc.yields_iff h hm]
  simp [and_comm]

end Added

/-- A rule was compiled into the rule base `base`, which became `mid`, and removed
    again, which left `base'`. -/
structure Passed (base mid base' : RuleBase) (defs : RuleId → Option Rule)
    (inst : RuleId → Option Installation) (built : Session.Built) (I : Installation)
    (entry : RuleEntry) (removal : Removal) : Prop where
  before : base.Sound defs inst
  compiled : ∃ r b, r.blueprint base.config = .ok b ∧ base.Compiled r b built I mid
  /-- The rule was registered meanwhile. -/
  between : ∃ defs' inst', mid.Sound defs' inst'
  registered : mid.rules[entry.id]? = some entry
  id : entry.id = base.nextRule
  nodes : entry.nodes = I.nodes.eraseDups
  removed : mid.Removed entry removal base'
  /-- The rules that were built before are built. -/
  after : base'.Sound defs inst

namespace Passed

variable {mid : RuleBase} {built : Session.Built} {I : Installation} {removal : Removal}
variable (h : Passed base mid base' defs inst built I entry removal)
include h

theorem config_eq : base'.config = base.config := by
  obtain ⟨r, b, -, hc⟩ := h.compiled
  rw [h.removed.rest, ← hc.rest.1]

/-- The networks before and after house the same rules. -/
theorem houses : base'.network.Houses base.config inst := h.config_eq ▸ h.after.houses

theorem rules_eq : base'.rules = base.rules := by
  obtain ⟨r, b, hb, hc⟩ := h.compiled
  obtain ⟨entry', hid', -, hrules, -⟩ := hc.exists_entry h.before hb
  ext id : 1
  rw [h.removed.rest]
  simp only [Std.ExtTreeMap.getElem?_erase, Std.ExtTreeMap.getElem?_insert, Std.compare_eq_iff_eq,
    h.id, hrules, hid']
  by_cases hid : base.nextRule = id
  · rw [if_pos hid, ← hid, hc.unnumbered]
  · rw [if_neg hid, if_neg hid]

/-- The nodes that went with the rule are those that were made for it, roots
    excepted. -/
theorem removed_eq : removal.removed =
    (built.created.filter fun x => mid.network.nodes[x]?.any (!·.kind.isRoot)).reverse := by
  obtain ⟨r, b, -, hc⟩ := h.compiled
  rw [h.removed.removed, h.id, h.nodes, hc.yielding_eq h.before]

theorem mem_created_of_mem_removed (hx : x ∈ removal.removed) : x ∈ built.created := by
  rw [h.removed_eq, List.mem_reverse] at hx
  exact List.mem_of_mem_filter hx

theorem fresh (hx : x ∈ built.created) : base.network.nodes[x]? = none := by
  obtain ⟨r, b, -, hc⟩ := h.compiled
  rw [hc.created_eq h.before, List.mem_filter] at hx
  exact Option.isNone_iff_eq_none.1 hx.2

/-- A node that was there stays. -/
theorem stays (hn : base.network.nodes[x]? = some n) : ∃ m, base'.network.nodes[x]? = some m := by
  obtain ⟨r, b, -, hc⟩ := h.compiled
  obtain ⟨k, hk, -⟩ := hc.frame h.before hn
  have hgone : x ∉ removal.removed := fun hx => by
    rw [h.fresh (h.mem_created_of_mem_removed hx)] at hn
    cases hn
  rw [h.removed.nodes, hk, Option.bind_some, Node.remnant_of_not_gone hgone]
  exact ⟨_, rfl⟩

/-- The partition of a node that was in that of the rules using it is the same
    again. -/
theorem partition?_eq (hn : base.network.nodes[x]? = some n) (hm : base'.network.nodes[x]? = some m)
    (hused : ∃ r, r ∈ n.rules) (hwell : base.PlacesWell n) : m.partition? = n.partition? := by
  obtain ⟨r, b, -, hc⟩ := h.compiled
  obtain ⟨defs', inst', hs⟩ := h.between
  have hrules : m.rules = n.rules := h.before.houses.rules_eq h.houses hn hm
  obtain ⟨k, hk, -, -, ⟨hunused, hsame⟩ | ⟨-, hanew⟩⟩ := h.removed.node_cases hs h.registered hm
  · have hx : x ∉ I.nodes := fun hx => by
      obtain ⟨k', hk', -, huses⟩ := hc.keeps h.before hn
      obtain rfl : k' = k := Option.some.inj (hk'.symm.trans hk)
      exact hunused ((huses _).2 (.inr ⟨h.id, hx⟩))
    rw [hsame, hc.partition?_eq h.before hk, if_neg hx, hn, Option.bind_some]
  · have hreg : ∀ r ∈ m.rules, r ∈ base'.rules := fun r hr => h.after.mem_rules_of_uses hm hr
    have hm' : base'.PlacesWell m := placesWell_of_eq (by rwa [hrules]) hreg hanew
    have hn' : base'.PlacesWell n := hwell.congr (fun _ => .rfl) rfl fun r _ => by
      rw [rulePartitions_eq, rulePartitions_eq, h.rules_eq]
    obtain ⟨r, hr⟩ := hused
    exact hn'.partition?_eq hm' hrules hr (hreg r (hrules ▸ hr))

/-- Rules demand of a node that was there what they did. -/
theorem demands_eq (hn : base.network.nodes[x]? = some n) (hm : base'.network.nodes[x]? = some m)
    (r : RuleId) : m.retention.demands[r]? = n.retention.demands[r]? := by
  obtain ⟨_, _, -, hc⟩ := h.compiled
  obtain ⟨defs', inst', hs⟩ := h.between
  obtain ⟨-, _, J, -, hJ, hreg⟩ := hs.registered h.registered
  obtain ⟨k, hk, -, -, -, -, hframe⟩ := hc.frame h.before hn
  obtain ⟨k', hk', -, -, -, hdemands, -⟩ := h.removed.node hs.houses hJ hreg.nodes hm
  obtain rfl : k' = k := Option.some.inj (hk'.symm.trans hk)
  rw [hdemands, h.id]
  split
  · subst r
    have hunused : base.nextRule ∉ n.rules :=
      fun hr => h.before.ne_of_unnumbered hc.unnumbered hn hr rfl
    rw [h.before.houses.demanded hn _ hunused]
  · exact (hframe r ‹_›).symm

/-- **A node that was there is the same again.** -/
theorem regained (hn : base.network.nodes[x]? = some n)
    (hwell : ¬ n.kind.isRoot → (∃ r, r ∈ n.rules) → base.PlacesWell n) :
    ∃ m, base'.network.nodes[x]? = some m ∧ n.Regained built.created m := by
  obtain ⟨r, b, -, hc⟩ := h.compiled
  obtain ⟨k, hk, hid, hkind, horigin, hsinks, -⟩ := hc.frame h.before hn
  obtain ⟨m, hm⟩ := h.stays hn
  obtain ⟨k', hk', hid', hkind', horigin', hsinks'⟩ := h.removed.frame hm
  obtain rfl : k' = k := Option.some.inj (hk'.symm.trans hk)
  refine ⟨m, hm, hid'.trans hid.symm, hkind'.trans hkind.symm, h.before.houses.rules_eq h.houses hn hm,
    h.before.houses.retention_eq h.houses hn hm (h.demands_eq hn hm), horigin'.trans horigin.symm, fun hroot => ?_, ?_⟩
  · have hused : ∃ r, r ∈ n.rules := by
      rw [NodeKind.isRoot, Option.not_isSome_iff_eq_none] at hroot
      exact h.before.houses.used hn hroot
    exact h.partition?_eq hn hm hused (hwell hroot hused)
  · rw [hsinks', hsinks, List.filter_filter]
    refine List.filter_congr fun s _ => ?_
    by_cases hs : s ∈ built.created
    · simp [hs]
    · simp [hs, mt h.mem_created_of_mem_removed hs]

/-- A node that was not there is a root of no use. -/
theorem idle (hm : base'.network.nodes[x]? = some m) (hn : base.network.nodes[x]? = none) :
    x ∈ built.created ∧ m.kind.isRoot ∧ m.rules = ∅ ∧ m.retention = .none := by
  obtain ⟨r, b, -, hc⟩ := h.compiled
  refine ⟨?_, h.houses.idle hm fun r J hJ hx => ?_⟩
  · obtain ⟨k, hk, -⟩ := h.removed.frame hm
    rw [hc.created_eq h.before, List.mem_filter, List.mem_eraseDups, hn]
    exact ⟨(hc.made h.before hk hn).1, rfl⟩
  · obtain ⟨n, hn', -⟩ := h.before.houses.exists_node hJ hx
    rw [hn] at hn'
    cases hn'

/-- **All is the same again, but for roots.** -/
theorem reverted (hwell : ∀ (x : NodeId) (n : Node), base.network.nodes[x]? = some n →
    ¬ n.kind.isRoot → (∃ r, r ∈ n.rules) → base.PlacesWell n) :
    Reverted built.created base base' where
  rules := h.rules_eq
  fresh _ hx := h.fresh hx
  old hn := h.regained hn (hwell _ _ hn)
  below {x s n m} hn hm hs hcreated := by
    obtain ⟨k, hk⟩ := h.after.houses.wired.sink_mem hm hs
    obtain ⟨-, hroot, -⟩ := h.idle hk (h.fresh hcreated)
    obtain ⟨entry, type, memory, hkind, hentry⟩ :=
      h.after.houses.wired.below_of_root hm hk hs hroot
    obtain ⟨m', hm', hregained⟩ := h.regained hn (hwell _ _ hn)
    obtain rfl : m' = m := Option.some.inj (hm'.symm.trans hm)
    exact ⟨k, entry, type, memory, hk, hkind, hregained.kind ▸ hentry⟩
  new := h.idle

end Passed

/-- Removing the rule that was just added. -/
theorem Sound.passed (h : base.Sound defs inst) {r : Rule} {built : Session.Built}
    (hadd : (base.add r).result = .ok built) : ∃ I entry removal base',
      removeRule built.rule (base.add r).base = .ok removal base' ∧
      Passed base (base.add r).base base' defs inst built I entry removal := by
  obtain ⟨failure, t, ht, -⟩ | ⟨built', t, ht, -, b, I, hb, hc⟩ :=
    Session.compile_cases h.idle h r
  · rw [add, ht] at hadd
    cases hadd
  · rw [add, ht] at hadd ⊢
    cases hadd
    have hs := h.compiled hb hc
    obtain ⟨entry, hid, hreg, hrules, -⟩ := hc.exists_entry h hb
    have he : t.base.rules[entry.id]? = some entry := by
      rw [hrules, Std.ExtTreeMap.getElem?_insert_self]
    obtain ⟨removal, base', hremove, hr, h'⟩ := hs.remove he
    have hfree : base.rules[base.nextRule]? = none := hc.unnumbered
    obtain ⟨hdefs, hinst⟩ := h.unregistered hfree
    -- the new rule is all that the definitions and installations have gained and lost
    rw [hid, Function.update_idem, Function.update_idem, ← hdefs, Function.update_eq_self,
      ← hinst, Function.update_eq_self] at h'
    refine ⟨I, entry, removal, base', ?_, ?_⟩
    · have hrule : built.rule = entry.id := hc.rule.trans hid.symm
      rw [hrule]
      exact hremove
    · exact ⟨h, ⟨r, b, hb, hc⟩, ⟨_, _, hs⟩, he, hid, hreg.nodes, hr, h'⟩

/-- **Removing a rule undoes adding it.**  What was there is there again, and of
    what was made for the rule just the roots are left, which no rule uses.  The
    nodes that go are the others that were made, the newest one first. -/
theorem remove_reverts_add (h : base.Reachable) {r : Rule} {built : Session.Built}
    (hadd : (base.add r).result = .ok built) : ∃ removal base',
      removeRule built.rule (base.add r).base = .ok removal base' ∧
      Reverted built.created base base' ∧
      removal.removed = (built.created.filter fun x =>
        (base.add r).base.network.nodes[x]?.any (!·.kind.isRoot)).reverse := by
  obtain ⟨defs, inst, hs⟩ := h.sound
  obtain ⟨I, entry, removal, base', hremove, hpassed⟩ := hs.passed hadd
  exact ⟨removal, base', hremove, hpassed.reverted fun _ _ => h.placesWell, hpassed.removed_eq⟩

/-- A rule that shares two roots and the adapter below them with a rule of another
    partition: the root of its other type is all that is left of it. -/
theorem remove_reverts_add_relating :
    let base := history .partitioned [.add (.noticing "first")]
    let rule := Rule.relating "second" 0
    ∃ built, (base.add rule).result = .ok built ∧ built.created = [4, 5, 6] ∧
      ∃ removal base', removeRule built.rule (base.add rule).base = .ok removal base' ∧
        Reverted built.created base base' ∧
        removal.removed = (built.created.filter fun x =>
          (base.add rule).base.network.nodes[x]?.any (!·.kind.isRoot)).reverse := by
  intro base rule
  have hreach : base.Reachable := reachable_history rfl _
  have hcreated : (base.add rule).result.toOption.map (·.created) = some [4, 5, 6] := by
    decide +kernel
  -- only what has been computed counts from here on
  clear_value base rule
  cases hadd : (base.add rule).result with
  | error f =>
    rw [hadd] at hcreated
    cases hcreated
  | ok built =>
    rw [hadd] at hcreated
    exact ⟨built, rfl, Option.some.inj hcreated, remove_reverts_add hreach hadd⟩

end RuleBase

end RuleNet
