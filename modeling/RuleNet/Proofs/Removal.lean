/-
  RuleNet — what removing a rule does to a rule base.

  The nodes of a rule are given up in the reverse order of their attachment.
  Whatever hangs below a node that no other rule uses was attached after it and
  is used by the rule alone, so it has been given up before, and nothing hangs
  below the node when its turn comes (`below_done`).  So giving up never
  fails (`GaveUp.giveUps`), and a registered rule can be removed (`removeRule_ok`).
-/
import RuleNet.Editing
import RuleNet.Proofs.Agreement

namespace RuleNet

/-! ## The order of giving up -/

/-- The first time that something stands in a list, what stands before it are
    the things that stand before it without repetitions. -/
theorem take_eraseDups {l : List NodeId} {k : Nat} {x : NodeId} (h : l.eraseDups[k]? = some x) :
    ∃ i, l[i]? = some x ∧ ∀ y ∈ l.take i, y ∈ l.eraseDups.take k := by
  induction l using List.reverseRecOn generalizing k with
  | nil => simp at h
  | append_singleton l z ih =>
    -- a place in the shorter list
    have old : ∀ {k : Nat}, l.eraseDups[k]? = some x →
        ∃ i, (l ++ [z])[i]? = some x ∧ ∀ y ∈ (l ++ [z]).take i, y ∈ l.eraseDups.take k := by
      intro k hk
      obtain ⟨i, hi, hbefore⟩ := ih hk
      have hlt := (List.getElem?_eq_some_iff.1 hi).1
      refine ⟨i, by rw [List.getElem?_append_left hlt, hi], ?_⟩
      rwa [List.take_append_of_le_length hlt.le]
    rw [Site.eraseDups_concat] at h ⊢
    split at h
    · rw [if_pos ‹_›]
      exact old h
    · rw [if_neg ‹_›]
      rcases getElem?_concat_cases h with hk | ⟨rfl, rfl⟩
      · obtain ⟨i, hi, hbefore⟩ := old hk
        have hlt := (List.getElem?_eq_some_iff.1 hk).1
        refine ⟨i, hi, ?_⟩
        rwa [List.take_append_of_le_length hlt.le]
      · refine ⟨l.length, List.getElem?_concat_length, ?_⟩
        rw [List.take_left, List.take_left]
        exact fun y hy => List.mem_eraseDups.2 hy

namespace Network.Houses

variable {net : Network} {config : Config} {inst : RuleId → Option Installation}
variable {rule : RuleId} {I : Installation} {x y : NodeId} {n m : Node}

/-- What hangs below a node of a rule and is used by the rule as well stands
    after it among the nodes of the rule. -/
theorem below_after (h : net.Houses config inst) (hI : inst rule = some I)
    {before after : List NodeId} (hsplit : I.nodes.eraseDups = before ++ x :: after)
    (hm : net.nodes[y]? = some m) (hy : rule ∈ m.rules) (hx : x ∈ net.parentsOf m.kind) :
    y ∈ after := by
  have hnd := Site.nodup_eraseDups I.nodes
  rw [hsplit] at hnd
  have hxb : x ∉ before := fun hxb =>
    List.disjoint_of_nodup_append hnd hxb List.mem_cons_self
  obtain ⟨J, hJ, hyJ⟩ := (h.owners hm rule).1 hy
  obtain rfl : J = I := Option.some.inj (hJ.symm.trans hI)
  obtain ⟨k, hk⟩ := List.mem_iff_getElem?.1 (List.mem_eraseDups.2 hyJ)
  obtain ⟨i, hi, hbefore⟩ := take_eraseDups hk
  have hxk := hbefore x (h.parents_before hJ hi hm hx)
  rw [hsplit] at hk hxk
  by_contra hafter
  -- otherwise the node would stand before its own place
  have hle : k ≤ before.length := by
    by_contra hlt
    rw [List.getElem?_append_right (by omega),
      show k - before.length = (k - before.length - 1) + 1 by omega, List.getElem?_cons_succ] at hk
    exact hafter (List.mem_of_getElem? hk)
  rw [List.take_append_of_le_length hle] at hxk
  exact hxb (List.mem_of_mem_take hxk)

end Network.Houses

/-! ## Nodes that a rule gives up -/

namespace Node

variable {n : Node} {rule r : RuleId} {done gone : List NodeId} {x y : NodeId}

/-- A node that a rule has given up. -/
def freed (n : Node) (rule : RuleId) : Node := (n.disown rule).release rule

/-- Whether a node is gone once a rule has given it up. -/
def yields (n : Node) (rule : RuleId) : Bool := (n.freed rule).rules.isEmpty && !n.kind.isRoot

theorem mem_freed_rules : r ∈ (n.freed rule).rules ↔ r ≠ rule ∧ r ∈ n.rules := by
  simp only [freed, release, disown, Std.ExtTreeSet.mem_erase, ne_eq, Std.compare_eq_iff_eq,
    eq_comm (a := rule)]

theorem yields_iff : n.yields rule ↔ n.kind.rootKey? = none ∧ ∀ r ∈ n.rules, r = rule := by
  simp only [yields, Bool.and_eq_true, Std.ExtTreeSet.isEmpty_iff,
    Std.ExtTreeSet.eq_empty_iff_forall_not_mem, mem_freed_rules, NodeKind.isRoot,
    Bool.not_eq_true', Option.isSome_eq_false_iff, Option.isNone_iff_eq_none]
  refine and_comm.trans (and_congr_right fun _ => forall_congr' fun r => ?_)
  tauto

/-- The node in the partition that the rules using it give it. -/
def settled (n : Node) (partitions : Std.ExtTreeMap RuleId PartitionId) : Node :=
  { n with partition? := n.partitionFrom partitions }

/-- What is left of the node `n` under the number `x` after a rule has given up
    the nodes `done`, of which those in `gone` are gone. -/
def remnant (rule : RuleId) (done gone : List NodeId) (x : NodeId) (n : Node) : Option Node :=
  if x ∈ gone then none
  else some { (if x ∈ done then n.freed rule else n) with sinks := n.sinks.filter (· ∉ gone) }

theorem remnant_of_gone (h : x ∈ gone) : n.remnant rule done gone x = none := if_pos h

theorem remnant_of_not_gone (h : x ∉ gone) : n.remnant rule done gone x =
    some { (if x ∈ done then n.freed rule else n) with sinks := n.sinks.filter (· ∉ gone) } :=
  if_neg h

theorem partition?_of_remnant {m : Node} (h : n.remnant rule done gone x = some m) :
    m.partition? = n.partition? := by
  by_cases hx : x ∈ gone
  · rw [remnant_of_gone hx] at h
    cases h
  · rw [remnant_of_not_gone hx] at h
    cases h
    split <;> rfl

/-- A node that is not given up next, and stays. -/
theorem remnant_concat (h : x ≠ y) :
    n.remnant rule (done ++ [y]) gone x = n.remnant rule done gone x := by
  simp [remnant, h]

/-- Nodes below a node may go. -/
theorem remnant_dropSink (h : x ≠ y) : (n.remnant rule done gone x).map (·.dropSink y) =
    n.remnant rule (done ++ [y]) (gone ++ [y]) x := by
  by_cases hx : x ∈ gone
  · rw [remnant_of_gone hx, remnant_of_gone (List.mem_append_left _ hx)]
    rfl
  · have hx' : x ∉ gone ++ [y] := by simp [hx, h]
    have hsinks : (n.sinks.filter (· ∉ gone)).filter (· ≠ y) = n.sinks.filter (· ∉ gone ++ [y]) := by
      rw [List.filter_filter]
      refine List.filter_congr fun s _ => ?_
      simp [not_or, and_comm]
    rw [remnant_of_not_gone hx, remnant_of_not_gone hx', Option.map_some, dropSink, hsinks]
    simp [h]

end Node

/-- The nodes among `done` that are gone once a rule has given them up. -/
def Network.yielding (net : Network) (rule : RuleId) (done : List NodeId) : List NodeId :=
  done.filter fun x => net.nodes[x]?.any (·.yields rule)

theorem Network.not_mem_yielding {net : Network} {rule : RuleId} {done : List NodeId} {x : NodeId}
    (h : x ∉ done) : x ∉ net.yielding rule done :=
  fun hx => h (List.mem_of_mem_filter hx)

/-- The nodes among `done` that stay. -/
def Network.staying (net : Network) (rule : RuleId) (done : List NodeId) : List NodeId :=
  done.filter fun x => !net.nodes[x]?.any (·.yields rule)

theorem Network.mem_staying {net : Network} {rule : RuleId} {done : List NodeId} {x : NodeId} :
    x ∈ net.staying rule done ↔ x ∈ done ∧ x ∉ net.yielding rule done := by
  simp only [staying, yielding, List.mem_filter, Bool.not_eq_true', Bool.eq_false_iff]
  tauto

/-- What becomes of a node when a rule gives it up. -/
def Network.fate (net : Network) (rule : RuleId) (x : NodeId) : RuleBase.Fate :=
  if net.nodes[x]?.any (·.yields rule) then .removed x else .stays x

namespace RuleBase

/-! ## Giving up -/

/-- A rule of `base₀` has given up the nodes `done`, in this order. -/
structure GaveUp (base₀ base : RuleBase) (rule : RuleId) (done : List NodeId) : Prop where
  /-- Only the network and the numbers have changed. -/
  rest : base = { base₀ with network := base.network, ids := base.ids }
  wired : base.network.Wired
  numbered : base.Numbered
  /-- Nodes that no other rule uses are gone, roots excepted. -/
  nodes : ∀ x : NodeId, base.network.nodes[x]? =
    base₀.network.nodes[x]?.bind (Node.remnant rule done (base₀.network.yielding rule done) x)
  /-- Their numbers were returned, one after the other. -/
  ids : base.ids = (base₀.network.yielding rule done).foldl IdPool.recycle base₀.ids

variable {base₀ base base' : RuleBase} {rule : RuleId} {done todo : List NodeId} {x : NodeId}
variable {n m : Node}

theorem GaveUp.start (hw : base.network.Wired) (hn : base.Numbered) : GaveUp base base rule [] where
  rest := rfl
  wired := hw
  numbered := hn
  nodes x := by
    cases base.network.nodes[x]? with
    | none => rfl
    | some n => simp [Node.remnant, Network.yielding]
  ids := rfl

theorem take_eq {α : Type} {f : RuleBase → Except Fault (α × RuleBase)} {a : α}
    (h : f base = .ok (a, base')) : take f base = .ok a base' := by
  rw [take, Session.get_bind, h]
  rfl

theorem take_error {α : Type} {f : RuleBase → Except Fault (α × RuleBase)} {fault : Fault}
    (h : f base = .error fault) : take f base = .error fault base := by
  rw [take, Session.get_bind, h]
  rfl

theorem takeNetwork_eq {α : Type} {f : Network → Except Fault (α × Network)} {a : α} {net : Network}
    (h : f base.network = .ok (a, net)) : takeNetwork f base = .ok a { base with network := net } := by
  refine take_eq ?_
  rw [h]
  rfl

/-! ### One node -/

/-- What a change makes of the one node counts. -/
theorem modify_congr {net : Network} {f g : Node → Node} (hn : net.nodes[x]? = some n)
    (hfg : f n = g n) : net.modify x f = net.modify x g := by
  have hnodes : (net.modify x f).nodes = (net.modify x g).nodes := by
    refine Std.ExtTreeMap.ext_getElem? fun y => ?_
    rw [Network.getElem?_modify_nodes, Network.getElem?_modify_nodes]
    split
    · subst y
      rw [hn, Option.map_some, Option.map_some, hfg]
    · rfl
  exact congrArg (Network.mk · net.roots net.size) hnodes

/-- A node that is given up is freed first. -/
theorem giveUp_eq (hn : base.network.nodes[x]? = some n) : giveUp rule x base =
    (if n.yields rule then do
        let _ ← takeNetwork (·.remove x)
        take fun base => return ((), ← base.releaseId x)
        return .removed x
      else return .stays x : Edit Fate)
      { base with network := base.network.modify x (·.freed rule) } := by
  refine Session.bind_ok (takeNetwork_eq ?_)
  have hfreed : base.network.modify x (fun _ => n.freed rule) =
      base.network.modify x (·.freed rule) := modify_congr hn rfl
  rw [Network.require, hn, ← hfreed]
  rfl

/-- Giving up a node that others use, or a root. -/
theorem giveUp_stays (hn : base.network.nodes[x]? = some n) (hy : ¬ n.yields rule) :
    giveUp rule x base =
      .ok (.stays x) { base with network := base.network.modify x (·.freed rule) } := by
  rw [giveUp_eq hn, if_neg hy]
  rfl

/-- Giving up a node that no other rule uses and that nothing hangs below. -/
theorem giveUp_removed (hn : base.network.nodes[x]? = some n) (hy : n.yields rule)
    (hbare : n.sinks = []) (hlive : base.ids.isLive x) :
    giveUp rule x base = .ok (.removed x) { base with
      network := (base.network.modify x (·.freed rule)).unlink (n.freed rule)
      ids := base.ids.recycle x } := by
  have hfreed : (base.network.modify x (·.freed rule)).nodes[x]? = some (n.freed rule) := by
    rw [Network.getElem?_modify_nodes, if_pos rfl, hn]
    rfl
  rw [giveUp_eq hn, if_pos hy]
  refine Eq.trans (Session.bind_ok (takeNetwork_eq (Network.remove_eq hfreed hbare))) ?_
  refine Session.bind_ok (a := ()) (take_eq ?_)
  rw [releaseId, IdPool.release_eq hlive]
  rfl

namespace GaveUp
variable (h : GaveUp base₀ base rule done) (hn : base₀.network.nodes[x]? = some n)
variable (hnew : x ∉ done)
include h hn hnew

/-- The node that is given up next is as it was, but for its sinks. -/
theorem node : base.network.nodes[x]? =
    some { n with sinks := n.sinks.filter (· ∉ base₀.network.yielding rule done) } := by
  rw [h.nodes, hn, Option.bind_some, Node.remnant_of_not_gone (Network.not_mem_yielding hnew),
    if_neg hnew]

/-- A node that stays has been given up. -/
theorem stays (hy : ¬ n.yields rule) : giveUp rule x base =
      .ok (.stays x) { base with network := base.network.modify x (·.freed rule) } ∧
    GaveUp base₀ { base with network := base.network.modify x (·.freed rule) } rule
      (done ++ [x]) := by
  have hgone : base₀.network.yielding rule (done ++ [x]) = base₀.network.yielding rule done := by
    simp [Network.yielding, List.filter_append, hn, hy]
  refine ⟨giveUp_stays (h.node hn hnew) hy, ?_⟩
  have hlook := Network.getElem?_modify_nodes base.network x (·.freed rule)
  exact {
    rest := by rw [h.rest]
    wired := h.wired.modify fun n => ⟨rfl, rfl, rfl⟩
    numbered := by
      refine ⟨h.numbered.valid, fun y => (h.numbered.live y).trans ?_⟩
      rw [hlook]
      split <;> simp [Option.map_eq_some_iff]
    nodes := by
      intro y
      rw [hlook, hgone]
      split
      · subst y
        rw [h.node hn hnew, hn, Option.bind_some, Option.map_some,
          Node.remnant_of_not_gone (Network.not_mem_yielding hnew)]
        simp [Node.freed, Node.disown, Node.release]
      · rename_i hy
        rw [h.nodes]
        exact Option.bind_congr fun m _ => (Node.remnant_concat hy).symm
    ids := by
      rw [hgone]
      exact h.ids }

/-- A node that goes has been given up. -/
theorem removed (hy : n.yields rule)
    (hbare : ∀ s ∈ n.sinks, s ∈ base₀.network.yielding rule done) :
    ∃ base', giveUp rule x base = .ok (.removed x) base' ∧ GaveUp base₀ base' rule (done ++ [x]) := by
  have hgone : base₀.network.yielding rule (done ++ [x]) =
      base₀.network.yielding rule done ++ [x] := by
    simp [Network.yielding, List.filter_append, hn, hy]
  have hnode := h.node hn hnew
  have hsinks : n.sinks.filter (· ∉ base₀.network.yielding rule done) = [] :=
    List.filter_eq_nil_iff.2 fun s hs => by simpa using hbare s hs
  have hlive : base.ids.isLive x := (h.numbered.live x).2 ⟨_, hnode⟩
  rw [hsinks] at hnode
  refine ⟨_, giveUp_removed hnode hy rfl hlive, ?_⟩
  have hlook := Network.getElem?_modify_nodes base.network x (·.freed rule)
  have hwired : (base.network.modify x (·.freed rule)).Wired :=
    h.wired.modify fun n => ⟨rfl, rfl, rfl⟩
  have hfreed := hlook x
  rw [if_pos rfl, hnode] at hfreed
  have hlook' := hwired.getElem?_unlink_nodes hfreed
  exact {
    rest := by rw [h.rest]
    wired := hwired.unlink hfreed rfl
    numbered := by
      refine ⟨h.numbered.valid.recycle hlive, fun y => (IdPool.isLive_recycle hlive).trans ?_⟩
      rw [h.numbered.live]
      refine Iff.trans ?_ (exists_congr fun m => iff_of_eq (congrArg (· = some m) (hlook' y).symm))
      split
      · rename_i hy
        exact iff_of_false (fun h => h.1 hy) (by simp)
      · rename_i hy
        rw [hlook, if_neg hy]
        simp [hy, Option.map_eq_some_iff]
    nodes := by
      intro y
      refine (hlook' y).trans ?_
      rw [hgone]
      split
      · subst y
        rw [hn, Option.bind_some, Node.remnant_of_gone (by simp)]
      · rename_i hy
        rw [hlook, if_neg hy, h.nodes, Option.map_bind]
        exact Option.bind_congr fun m _ => Node.remnant_dropSink hy
    ids := by
      rw [hgone, List.foldl_append, ← h.ids]
      rfl }

/-- A node whose turn has come has been given up. -/
theorem giveUp (hbare : n.yields rule → ∀ s ∈ n.sinks, s ∈ base₀.network.yielding rule done) :
    ∃ base', RuleBase.giveUp rule x base = .ok (base₀.network.fate rule x) base' ∧
      GaveUp base₀ base' rule (done ++ [x]) := by
  by_cases hy : n.yields rule
  · obtain ⟨base', hgive, h'⟩ := h.removed hn hnew hy (hbare hy)
    refine ⟨base', hgive.trans ?_, h'⟩
    simp [Network.fate, hn, hy]
  · obtain ⟨hgive, h'⟩ := h.stays hn hnew hy
    refine ⟨_, hgive.trans ?_, h'⟩
    simp [Network.fate, hn, hy]

end GaveUp

/-! ### All nodes of a rule -/

section All
variable {inst : RuleId → Option Installation} {config : Config} {I : Installation}
variable (h : base₀.network.Houses config inst) (hI : inst rule = some I)
include h hI

/-- Whatever hangs below a node that goes has gone before. -/
theorem below_done (hsplit : I.nodes.eraseDups.reverse = done ++ x :: todo)
    (hn : base₀.network.nodes[x]? = some n) (hy : n.yields rule) {s : NodeId} (hs : s ∈ n.sinks) :
    s ∈ base₀.network.yielding rule done := by
  obtain ⟨hroot, hsole⟩ := Node.yields_iff.1 hy
  obtain ⟨m, hm, hp⟩ := (h.wired.mem_sinks hn s).1 hs
  have hmroot : m.kind.rootKey? = none := by
    rcases Network.mem_parentsOf.1 hp with hsrc | ⟨key, -, hkey⟩
    · refine Option.eq_none_iff_forall_ne_some.2 fun key hkey => ?_
      rw [NodeKind.sources_of_isRoot hkey] at hsrc
      exact absurd hsrc List.not_mem_nil
    · -- only roots are found by their address
      obtain ⟨n', hn', hkey'⟩ := h.wired.roots_iff.1 hkey
      obtain rfl : n' = n := Option.some.inj (hn'.symm.trans hn)
      rw [hroot] at hkey'
      cases hkey'
  have hmsole : ∀ r ∈ m.rules, r = rule := by
    intro r hr
    obtain ⟨n', hn', hr'⟩ := h.uses_parent hm hr hp
    obtain rfl : n' = n := Option.some.inj (hn'.symm.trans hn)
    exact hsole r hr'
  obtain ⟨r, hr⟩ := h.used hm hmroot
  obtain rfl := hmsole r hr
  have hsplit' : I.nodes.eraseDups = todo.reverse ++ x :: done.reverse := by
    rw [← I.nodes.eraseDups.reverse_reverse, hsplit]
    simp
  have hdone := h.below_after hI hsplit' hm hr hp
  refine List.mem_filter.2 ⟨List.mem_reverse.1 hdone, ?_⟩
  rw [hm]
  exact Node.yields_iff.2 ⟨hmroot, hmsole⟩

/-- All nodes of a rule can be given up, the one got last first. -/
theorem GaveUp.giveUps (hg : GaveUp base₀ base rule done)
    (hsplit : I.nodes.eraseDups.reverse = done ++ todo) :
    ∃ base', todo.mapM (RuleBase.giveUp rule) base = .ok (todo.map (base₀.network.fate rule)) base' ∧
      GaveUp base₀ base' rule (done ++ todo) := by
  induction todo generalizing base done with
  | nil => exact ⟨base, rfl, by rwa [List.append_nil]⟩
  | cons x todo ih =>
    have hnd := Site.nodup_eraseDups I.nodes
    rw [← List.nodup_reverse, hsplit] at hnd
    have hnew : x ∉ done := fun hx => List.disjoint_of_nodup_append hnd hx List.mem_cons_self
    have hx : x ∈ I.nodes := by
      rw [← List.mem_eraseDups, ← List.mem_reverse, hsplit]
      simp
    obtain ⟨n, hn, -⟩ := h.exists_node hI hx
    obtain ⟨base₁, hgive, hg₁⟩ := hg.giveUp hn hnew fun hy s hs => below_done h hI hsplit hn hy hs
    obtain ⟨base₂, hgives, hg₂⟩ := ih hg₁ (by rw [hsplit]; simp)
    refine ⟨base₂, ?_, by simpa using hg₂⟩
    rw [List.mapM_cons, Session.bind_ok hgive, Session.bind_ok hgives]
    rfl

end All

/-! ## Partitions -/

/-- A node gets its partition, and is listed if that is another one. -/
theorem repartition_eq (hn : base.network.nodes[x]? = some n) : repartition x base =
    .ok (if n.partitionFrom base.rulePartitions = n.partition? then none else some x)
      { base with network := base.network.modify x (·.settled base.rulePartitions) } := by
  refine Eq.trans (Session.get_bind _) (takeNetwork_eq ?_)
  have hsettled : base.network.modify x
      ({ · with partition? := n.partitionFrom base.rulePartitions }) =
      base.network.modify x (·.settled base.rulePartitions) := modify_congr hn rfl
  simp only [Network.require, hn, Network.repartition, ← hsettled]
  rfl

/-- The nodes `done` of `base₀` have got their partitions. -/
structure Settled (base₀ base : RuleBase) (done : List NodeId) : Prop where
  rest : base = { base₀ with network := base.network }
  wired : base.network.Wired
  /-- The nodes have got the partitions of the rules that use them. -/
  nodes : ∀ x : NodeId, base.network.nodes[x]? =
    if x ∈ done then base₀.network.nodes[x]?.map (·.settled base₀.rulePartitions)
    else base₀.network.nodes[x]?

theorem Settled.start (hw : base.network.Wired) : Settled base base [] where
  rest := rfl
  wired := hw
  nodes _ := (if_neg List.not_mem_nil).symm

/-- Whether a node is in another partition than the rules using it give it. -/
def unsettled (base : RuleBase) (x : NodeId) : Bool :=
  base.network.nodes[x]?.any fun n => n.partitionFrom base.rulePartitions ≠ n.partition?

/-- One more node has got its partition. -/
theorem Settled.snoc (h : Settled base₀ base done) (hnew : x ∉ done) : Settled base₀
    { base with network := base.network.modify x (·.settled base.rulePartitions) } (done ++ [x]) where
  rest := by rw [h.rest]
  wired := h.wired.modify fun n => ⟨rfl, rfl, rfl⟩
  nodes y := by
    have hpartitions : base.rulePartitions = base₀.rulePartitions := by rw [h.rest]; rfl
    refine (Network.getElem?_modify_nodes base.network x _ y).trans ?_
    by_cases hy : y = x
    · subst hy
      rw [if_pos rfl, if_pos (by simp), h.nodes, if_neg hnew, hpartitions]
    · rw [if_neg hy, h.nodes]
      simp [hy]

theorem Settled.repartitions (h : Settled base₀ base done) (hnd : (done ++ todo).Nodup)
    (hthere : ∀ x ∈ todo, ∃ n, base₀.network.nodes[x]? = some n) :
    ∃ base', todo.filterMapM repartition base = .ok (todo.filter base₀.unsettled) base' ∧
      Settled base₀ base' (done ++ todo) := by
  induction todo generalizing base done with
  | nil => exact ⟨base, rfl, by rwa [List.append_nil]⟩
  | cons x todo ih =>
    have hnew : x ∉ done := fun hx => List.disjoint_of_nodup_append hnd hx List.mem_cons_self
    obtain ⟨n, hn⟩ := hthere x List.mem_cons_self
    have hn' : base.network.nodes[x]? = some n := by rw [h.nodes, if_neg hnew, hn]
    have hpartitions : base.rulePartitions = base₀.rulePartitions := by rw [h.rest]; rfl
    obtain ⟨base₂, hrest, h₂⟩ := ih (h.snoc hnew) (by simpa using hnd)
      fun y hy => hthere y (List.mem_cons_of_mem _ hy)
    refine ⟨base₂, ?_, by simpa using h₂⟩
    have hnext := repartition_eq hn'
    rw [List.filterMapM_cons]
    by_cases hsame : n.partitionFrom base₀.rulePartitions = n.partition?
    · have hx : ¬ base₀.unsettled x := by simp [unsettled, hn, hsame]
      rw [hpartitions, if_pos hsame, ← hpartitions] at hnext
      rw [Session.bind_ok hnext, List.filter_cons_of_neg hx]
      exact hrest
    · have hx : base₀.unsettled x := by simp [unsettled, hn, hsame]
      rw [hpartitions, if_neg hsame, ← hpartitions] at hnext
      rw [Session.bind_ok hnext, List.filter_cons_of_pos hx]
      exact Session.bind_ok hrest

/-- The nodes listed are those that are in another partition than before any
    node was given up. -/
theorem Settled.mem_unsettled {base₁ : RuleBase} {stays : List NodeId}
    (h : Settled base₁ base stays) (hg : GaveUp base₀ base₁ rule done) :
    x ∈ stays.filter base₁.unsettled ↔ ∃ n n', base₀.network.nodes[x]? = some n ∧
      base.network.nodes[x]? = some n' ∧ n.partition? ≠ n'.partition? := by
  have hlook := h.nodes x
  rw [List.mem_filter, unsettled, Option.any_eq_true]
  constructor
  · rintro ⟨hstays, n₁, hn₁, hne⟩
    obtain ⟨n, hn, hremnant⟩ := Option.bind_eq_some_iff.1 ((hg.nodes x).symm.trans hn₁)
    rw [if_pos hstays, hn₁] at hlook
    rw [Node.partition?_of_remnant hremnant] at hne
    exact ⟨n, _, hn, hlook, Ne.symm (of_decide_eq_true hne)⟩
  · rintro ⟨n, n', hn, hn', hne⟩
    rw [hn'] at hlook
    have hbefore := hg.nodes x
    rw [hn, Option.bind_some] at hbefore
    split at hlook
    · rename_i hstays
      obtain ⟨n₁, hn₁, rfl⟩ := Option.map_eq_some_iff.1 hlook.symm
      rw [hn₁] at hbefore
      refine ⟨hstays, n₁, hn₁, ?_⟩
      rw [Node.partition?_of_remnant hbefore.symm]
      exact decide_eq_true (Ne.symm hne)
    · rw [← hlook] at hbefore
      exact absurd (Node.partition?_of_remnant hbefore.symm).symm hne

/-- Nodes that have been given up, and got their partitions if they stay. -/
theorem GaveUp.nodes_settled {base₁ : RuleBase} (hg : GaveUp base₀ base₁ rule done)
    (h : Settled base₁ base (base₀.network.staying rule done)) (x : NodeId) :
    base.network.nodes[x]? = base₀.network.nodes[x]?.bind fun n =>
      (n.remnant rule done (base₀.network.yielding rule done) x).map fun n =>
        if x ∈ done then n.settled base.rulePartitions else n := by
  have hpartitions : base.rulePartitions = base₁.rulePartitions := by rw [h.rest]; rfl
  rw [h.nodes, hg.nodes, hpartitions]
  by_cases hgone : x ∈ base₀.network.yielding rule done
  · rw [if_neg fun hx => (Network.mem_staying.1 hx).2 hgone]
    refine Option.bind_congr fun n _ => ?_
    rw [Node.remnant_of_gone hgone]
    rfl
  by_cases hx : x ∈ done
  · rw [if_pos (Network.mem_staying.2 ⟨hx, hgone⟩), Option.map_bind]
    refine Option.bind_congr fun n _ => ?_
    simp only [hx, if_true]
    rfl
  · rw [if_neg fun hstays => hx (Network.mem_staying.1 hstays).1]
    refine Option.bind_congr fun n _ => ?_
    simp only [hx, if_false, Option.map_id']

/-! ## Removing -/

/-- What removing the rule registered as `entry` leaves behind. -/
structure Removed (base : RuleBase) (entry : RuleEntry) (removal : Removal) (base' : RuleBase) :
    Prop where
  /-- The rule is gone, and the working memories have been told. -/
  rest : base' = { base with
    network := base'.network
    ids := base'.ids
    rules := base.rules.erase entry.id
    names := base.names.erase entry.name
    journal := base.journal ++ base.memories.map fun memory =>
      ⟨memory, .detached, entry.id, removal.removed⟩ }
  wired : base'.network.Wired
  numbered : base'.Numbered
  /-- Nodes that no other rule uses are gone, roots excepted; the rule no longer
      counts for the others. -/
  nodes : ∀ x : NodeId, base'.network.nodes[x]? = base.network.nodes[x]?.bind fun n =>
    (n.remnant entry.id entry.nodes.reverse removal.removed x).map fun n =>
      if x ∈ entry.nodes then n.settled base'.rulePartitions else n
  /-- The nodes that are gone. -/
  removed : removal.removed = base.network.yielding entry.id entry.nodes.reverse
  /-- Their numbers were returned, one after the other. -/
  ids : base'.ids = removal.removed.foldl IdPool.recycle base.ids
  /-- The nodes in another partition than before. -/
  repartitioned : ∀ x, x ∈ removal.repartitioned ↔ ∃ n n',
    base.network.nodes[x]? = some n ∧ base'.network.nodes[x]? = some n' ∧
      n.partition? ≠ n'.partition?
  nodup : removal.repartitioned.Nodup

theorem removeRule_error (h : base.rules[rule]? = none) :
    removeRule rule base = .error (.ruleNotFound rule) base := by
  refine Session.bind_error (take_error ?_)
  rw [unregisterRule, h]

/-- Removing by name is removing by number. -/
theorem removeNamed_eq (name : String) : removeNamed name base =
    match base.ruleNamed? name with
    | some entry => removeRule entry.id base
    | none => .error (.breach (.noRuleNamed name)) base := by
  rw [removeNamed]
  refine (Session.bind_ok (m := get) (a := base) (t := base) rfl).trans ?_
  cases base.ruleNamed? name <;> rfl

theorem fates_removed (net : Network) (rule : RuleId) (done : List NodeId) :
    (done.map (net.fate rule)).filterMap Fate.removed? = net.yielding rule done := by
  rw [List.filterMap_map, Network.yielding, ← List.filterMap_eq_filter]
  refine List.filterMap_congr fun x _ => ?_
  simp only [Function.comp, Network.fate, Option.guard]
  split <;> rfl

theorem fates_stays (net : Network) (rule : RuleId) (done : List NodeId) :
    (done.map (net.fate rule)).filterMap Fate.stays? = net.staying rule done := by
  rw [List.filterMap_map, Network.staying, ← List.filterMap_eq_filter]
  refine List.filterMap_congr fun x _ => ?_
  simp only [Function.comp, Network.fate, Option.guard]
  split <;> simp_all [Fate.stays?]

section Remove
variable {inst : RuleId → Option Installation} {config : Config} {I : Installation}
variable {entry : RuleEntry}

/-- A node of the rule that stays is there when the rule's nodes have been given
    up. -/
theorem GaveUp.exists_staying {base₁ : RuleBase}
    (hg : GaveUp base base₁ rule done) (h : base.network.Houses config inst) (hI : inst rule = some I)
    (hdone : ∀ x ∈ done, x ∈ I.nodes) (hx : x ∈ base.network.staying rule done) :
    ∃ n, base₁.network.nodes[x]? = some n := by
  obtain ⟨hused, hgone⟩ := Network.mem_staying.1 hx
  obtain ⟨n, hn, -⟩ := h.exists_node hI (hdone x hused)
  have hlook := hg.nodes x
  rw [hn, Option.bind_some, Node.remnant_of_not_gone hgone] at hlook
  exact ⟨_, hlook⟩

/-- A rule is removed when its nodes have been given up, those that stay have got
    their partitions, and the working memories have been told. -/
theorem GaveUp.removed_notify {base₁ base₂ : RuleBase} {gone stays : List NodeId}
    (hgone : gone = base.network.yielding entry.id entry.nodes.reverse)
    (hstays : stays = base.network.staying entry.id entry.nodes.reverse)
    (hg : GaveUp { base with
      rules := base.rules.erase entry.id, names := base.names.erase entry.name } base₁ entry.id
        entry.nodes.reverse)
    (hs : Settled base₁ base₂ stays) (hnd : entry.nodes.Nodup) :
    base.Removed entry ⟨gone, stays.filter base₁.unsettled⟩
      (base₂.notify base₂.memories .detached entry.id gone) := by
  subst hgone hstays
  have hids : base₂.ids = base₁.ids := by rw [hs.rest]
  have hrest : base₂ = { base with
      rules := base.rules.erase entry.id, names := base.names.erase entry.name, network := base₂.network, ids := base₂.ids } := by
    rw [hs.rest, hg.rest]
  exact {
    rest := by
      rw [hrest]
      rfl
    wired := hs.wired
    numbered := by
      refine ⟨hids ▸ hg.numbered.valid, fun x => ?_⟩
      change base₂.ids.isLive x ↔ ∃ n, base₂.network.nodes[x]? = some n
      rw [hids, hg.numbered.live, hs.nodes]
      split <;> simp [Option.map_eq_some_iff]
    nodes := by
      intro x
      have hlook := hg.nodes_settled hs x
      simp only [List.mem_reverse] at hlook
      exact hlook
    removed := rfl
    ids := hids.trans hg.ids
    repartitioned := fun x => (hs.mem_unsettled hg :)
    nodup := ((List.nodup_reverse.2 hnd).filter _).filter _ }

/-- **A registered rule can be removed.** -/
theorem removeRule_ok (h : base.network.Houses config inst) (hn : base.Numbered)
    (hI : inst entry.id = some I) (hentry : base.rules[entry.id]? = some entry)
    (hnodes : entry.nodes = I.nodes.eraseDups) :
    ∃ removal base', removeRule entry.id base = .ok removal base' ∧
      base.Removed entry removal base' := by
  let base₀ := { base with
    rules := base.rules.erase entry.id, names := base.names.erase entry.name }
  have hunregister : take (·.unregisterRule entry.id) base = .ok entry base₀ := by
    refine take_eq ?_
    rw [unregisterRule, hentry]
  have hsplit : I.nodes.eraseDups.reverse = [] ++ entry.nodes.reverse := by
    rw [hnodes, List.nil_append]
  have h₀ : base₀.network.Houses config inst := h
  have hstart : GaveUp base₀ base₀ entry.id [] := .start h.wired ⟨hn.valid, hn.live⟩
  obtain ⟨base₁, hgive, hg⟩ := GaveUp.giveUps h₀ hI hstart hsplit
  rw [List.nil_append] at hg
  have hnd : entry.nodes.Nodup := by
    rw [hnodes]
    exact Site.nodup_eraseDups _
  have hmem : ∀ x ∈ entry.nodes.reverse, x ∈ I.nodes := fun x hx => by
    rwa [List.mem_reverse, hnodes, List.mem_eraseDups] at hx
  obtain ⟨base₂, hsettle, hs⟩ := (Settled.start hg.wired).repartitions
    ((List.nodup_reverse.2 hnd).filter _) fun x hx => hg.exists_staying h₀ hI hmem hx
  rw [List.nil_append] at hs
  refine ⟨_, _, ?_, hg.removed_notify rfl rfl hs hnd⟩
  rw [removeRule, Session.bind_ok hunregister, Session.bind_ok hgive, fates_stays, fates_removed]
  exact Session.bind_ok hsettle

end Remove

/-! ### The network without the rule -/

namespace Removed

variable {inst : RuleId → Option Installation} {config : Config} {I : Installation}
variable {entry : RuleEntry} {removal : Removal}
variable (h : base.network.Houses config inst) (hI : inst entry.id = some I)
variable (hnodes : entry.nodes = I.nodes.eraseDups) (hr : base.Removed entry removal base')
include h hI hnodes hr

omit hr in
/-- The nodes of the rule are those that it uses. -/
theorem mem_nodes (hn : base.network.nodes[x]? = some n) : x ∈ entry.nodes ↔ entry.id ∈ n.rules := by
  rw [hnodes, List.mem_eraseDups, h.owners hn, hI]
  simp

/-- **The nodes that go are those that only the rule used, roots excepted.** -/
theorem mem_removed : x ∈ removal.removed ↔ ∃ n, base.network.nodes[x]? = some n ∧
    n.kind.rootKey? = none ∧ ∀ r : RuleId, r ∈ n.rules ↔ r = entry.id := by
  rw [hr.removed, Network.yielding, List.mem_filter, List.mem_reverse, Option.any_eq_true]
  constructor
  · rintro ⟨hx, n, hn, hy⟩
    obtain ⟨hroot, hsole⟩ := Node.yields_iff.1 hy
    refine ⟨n, hn, hroot, fun r => ⟨hsole r, ?_⟩⟩
    rintro rfl
    exact (mem_nodes h hI hnodes hn).1 hx
  · rintro ⟨n, hn, hroot, hsole⟩
    exact ⟨(mem_nodes h hI hnodes hn).2 ((hsole _).2 rfl), n, hn,
      Node.yields_iff.2 ⟨hroot, fun r => (hsole r).1⟩⟩

/-- Whether a node goes. -/
theorem mem_removed_iff (hn : base.network.nodes[x]? = some n) : x ∈ removal.removed ↔
    n.kind.rootKey? = none ∧ ∀ r : RuleId, r ∈ n.rules ↔ r = entry.id := by
  rw [hr.mem_removed h hI hnodes]
  constructor
  · rintro ⟨n', hn', hyields⟩
    obtain rfl : n' = n := Option.some.inj (hn'.symm.trans hn)
    exact hyields
  · exact fun hyields => ⟨n, hn, hyields⟩

/-- **A node that the rule did not use only loses sinks.** -/
theorem unused (hn : base.network.nodes[x]? = some n) (hx : entry.id ∉ n.rules) :
    base'.network.nodes[x]? =
      some { n with sinks := n.sinks.filter (· ∉ removal.removed) } := by
  have hused := mt (mem_nodes h hI hnodes hn).1 hx
  have hgone : x ∉ removal.removed := by
    rw [hr.mem_removed_iff h hI hnodes hn]
    exact fun hyields => hx ((hyields.2 _).2 rfl)
  have hlook := hr.nodes x
  rw [hn, Option.bind_some, Node.remnant_of_not_gone hgone, Option.map_some, if_neg hused,
    if_neg (mt List.mem_reverse.1 hused)] at hlook
  exact hlook

/-- A node of the rule that stays is freed, and gets its partition. -/
theorem used (hn : base.network.nodes[x]? = some n) (hx : entry.id ∈ n.rules)
    (hgone : x ∉ removal.removed) : base'.network.nodes[x]? =
      some { (n.freed entry.id).settled base'.rulePartitions with
        sinks := n.sinks.filter (· ∉ removal.removed) } := by
  have hused := (mem_nodes h hI hnodes hn).2 hx
  have hlook := hr.nodes x
  rw [hn, Option.bind_some, Node.remnant_of_not_gone hgone, Option.map_some, if_pos hused,
    if_pos (List.mem_reverse.2 hused)] at hlook
  exact hlook

omit h hI hnodes in
theorem gone (hx : x ∈ removal.removed) : base'.network.nodes[x]? = none := by
  rw [hr.nodes]
  refine Option.bind_eq_none_iff.2 fun n _ => ?_
  rw [Node.remnant_of_gone hx]
  rfl

/-- Whoever used it, a node that stays does the same and loses the sinks that go. -/
theorem stays (hn : base.network.nodes[x]? = some n) (hgone : x ∉ removal.removed) :
    ∃ m, base'.network.nodes[x]? = some m ∧ m.kind = n.kind ∧
      m.sinks = n.sinks.filter (· ∉ removal.removed) := by
  by_cases hx : entry.id ∈ n.rules
  · exact ⟨_, hr.used h hI hnodes hn hx hgone, rfl, rfl⟩
  · exact ⟨_, hr.unused h hI hnodes hn hx, rfl, rfl⟩

/-- A node is gone just if it is one of those that go. -/
theorem gone_iff (hn : base.network.nodes[x]? = some n) :
    base'.network.nodes[x]? = none ↔ x ∈ removal.removed := by
  refine ⟨fun hnone => ?_, hr.gone⟩
  by_contra hgone
  obtain ⟨m, hm, -⟩ := hr.stays h hI hnodes hn hgone
  rw [hm] at hnone
  cases hnone

/-- What a node that stays was like before. -/
theorem node (hm : base'.network.nodes[x]? = some m) : ∃ n, base.network.nodes[x]? = some n ∧
    x ∉ removal.removed ∧ m.kind = n.kind ∧ (∀ r : RuleId, r ∈ m.rules ↔ r ≠ entry.id ∧ r ∈ n.rules) ∧
    (∀ r : RuleId, m.retention.demands[r]? =
      if r = entry.id then none else n.retention.demands[r]?) ∧ m.retention.Totalled := by
  have hgone : x ∉ removal.removed := fun hx => by
    rw [hr.gone hx] at hm
    cases hm
  obtain ⟨n, hn, -⟩ := Option.bind_eq_some_iff.1 ((hr.nodes x).symm.trans hm)
  refine ⟨n, hn, hgone, ?_⟩
  by_cases hx : entry.id ∈ n.rules
  · obtain rfl := Option.some.inj (hm.symm.trans (hr.used h hI hnodes hn hx hgone))
    exact ⟨rfl, fun r => Node.mem_freed_rules, fun r => Retention.release_demands _ _ _,
      (h.totalled hn).release _⟩
  · obtain rfl := Option.some.inj (hm.symm.trans (hr.unused h hI hnodes hn hx))
    refine ⟨rfl, fun r => (and_iff_right_of_imp ?_).symm, fun r => ?_, (h.totalled hn :)⟩
    · rintro hr rfl
      exact hx hr
    · split
      · subst r
        exact h.demanded hn _ hx
      · rfl

/-- A node that another rule uses stays. -/
theorem keeps {r : RuleId} (hn : base.network.nodes[x]? = some n) (hrule : r ∈ n.rules)
    (hne : r ≠ entry.id) : ∃ m, base'.network.nodes[x]? = some m ∧ m.kind = n.kind := by
  have hgone : x ∉ removal.removed := by
    rw [hr.mem_removed_iff h hI hnodes hn]
    exact fun hyields => hne ((hyields.2 r).1 hrule)
  obtain ⟨m, hm, hkind, -⟩ := hr.stays h hI hnodes hn hgone
  exact ⟨m, hm, hkind⟩

/-- The node of a request of another rule stays. -/
theorem keeps_placed {r : RuleId} {J : Installation} {i : Nat} {q : Request}
    (hJ : Function.update inst entry.id none r = some J) (hq : J.steps[i]? = some q)
    (hx : J.nodes[i]? = some x) : ∃ m, base'.network.nodes[x]? = some m ∧
      m.kind.serves q.guardsOut (J.wanted r q) := by
  obtain ⟨hne, hJ⟩ := Network.update_none_cases hJ
  obtain ⟨n, hn, hserves⟩ := h.placed hJ hq hx
  obtain ⟨m, hm, hkind⟩ := hr.keeps h hI hnodes hn
    ((h.owners hn r).2 ⟨J, hJ, List.mem_of_getElem? hx⟩) hne
  exact ⟨m, hm, by rwa [hkind]⟩

/-- A node that stays is a root, or another rule uses it. -/
theorem exists_user (hm : base'.network.nodes[x]? = some m) (hroot : m.kind.rootKey? = none) :
    ∃ r, r ∈ m.rules := by
  obtain ⟨n, hn, hgone, hkind, hrules, -⟩ := hr.node h hI hnodes hm
  rw [hkind] at hroot
  by_contra hnone
  -- otherwise the node would be one of those that are gone
  obtain ⟨r, hr₀⟩ := h.used hn hroot
  have hsole : ∀ r ∈ n.rules, r = entry.id := fun r hr =>
    not_not.1 fun hne => hnone ⟨r, (hrules r).2 ⟨hne, hr⟩⟩
  refine hgone ((hr.mem_removed_iff h hI hnodes hn).2 ⟨hroot, fun r' => ⟨hsole r', ?_⟩⟩)
  rintro rfl
  exact hsole r hr₀ ▸ hr₀

/-- Sinks keep their order when a rule is removed. -/
theorem evolves : base.network.Evolves base'.network where
  wired := h.wired
  wired' := hr.wired
  kind {x n m} hn hm := by
    obtain ⟨n', hn', -, hkind, -⟩ := hr.node h hI hnodes hm
    rw [hkind, Option.some.inj (hn.symm.trans hn')]
  sinks {x n m} hn hm := by
    refine ⟨fun y => decide (y ∉ removal.removed), [], ?_, by simp⟩
    obtain ⟨-, -, hgone, -⟩ := hr.node h hI hnodes hm
    obtain ⟨m', hm', -, hsinks⟩ := hr.stays h hI hnodes hn hgone
    rw [List.append_nil, Option.some.inj (hm.symm.trans hm'), hsinks]

/-- **Without the rule, the network houses the other rules.** -/
theorem houses : base'.network.Houses config (Function.update inst entry.id none) where
  wired := hr.wired
  lengths hJ := h.lengths (Network.update_none_cases hJ).2
  orderly hJ := h.orderly (Network.update_none_cases hJ).2
  placed hJ hq hx := hr.keeps_placed h hI hnodes hJ hq hx
  owners {x m} hm r := by
    obtain ⟨n, hn, -, -, hrules, -⟩ := hr.node h hI hnodes hm
    rw [hrules, h.owners hn]
    by_cases hre : r = entry.id
    · subst hre
      simp
    · rw [Function.update_of_ne hre]
      exact and_iff_right hre
  used hm hroot := hr.exists_user h hI hnodes hm hroot
  demanded {x m} hm r hr' := by
    obtain ⟨n, hn, -, -, hrules, hdemands, -⟩ := hr.node h hI hnodes hm
    rw [hdemands]
    split
    · rfl
    · rename_i hne
      exact h.demanded hn r fun hmem => hr' ((hrules r).2 ⟨hne, hmem⟩)
  totalled {x m} hm := by
    obtain ⟨n, hn, -, -, -, -, htotalled⟩ := hr.node h hI hnodes hm
    exact htotalled
  memory {x m entry' type memory} hm hk := by
    obtain ⟨n, hn, -, hkind, -⟩ := hr.node h hI hnodes hm
    exact h.memory hn (hkind ▸ hk)
  cross {x m j} hm hk := by
    obtain ⟨n, hn, -, hkind, -⟩ := hr.node h hI hnodes hm
    exact h.cross hn (hkind ▸ hk)
  maximal {x y m m'} hm hm' hshares hserves := by
    obtain ⟨n, hn, -, hkind, -⟩ := hr.node h hI hnodes hm
    obtain ⟨n', hn', -, hkind', -⟩ := hr.node h hI hnodes hm'
    rw [hkind] at hshares hserves
    rw [hkind'] at hserves
    exact h.maximal hn hn' hshares hserves
  alone hJ hJ' hq hshares hx hx' :=
    h.alone (Network.update_none_cases hJ).2 (Network.update_none_cases hJ').2 hq hshares hx hx'
  chosen hJ hq hx hshares := by
    obtain ⟨m, hm, -⟩ := hr.keeps_placed h hI hnodes hJ hq hx
    obtain ⟨-, hJ⟩ := Network.update_none_cases hJ
    exact (hr.evolves h hI hnodes).existing_stays (h.chosen hJ hq hx hshares) hm
  made {r J i q x m} hJ hq hx hshares hm := by
    obtain ⟨n, hn, -, hkind, -⟩ := hr.node h hI hnodes hm
    rw [hkind]
    exact h.made (Network.update_none_cases hJ).2 hq hx hshares hn

/-- Without the rule, the nodes keep facts for as long as the other rules ask. -/
theorem heeds (hh : base.network.Heeds inst) :
    base'.network.Heeds (Function.update inst entry.id none) := by
  intro x m hm r
  obtain ⟨n, hn, -, -, -, hdemands, -⟩ := hr.node h hI hnodes hm
  rw [hdemands, hh hn]
  split
  · subst r
    rw [Function.update_self]
    rfl
  · rw [Function.update_of_ne ‹_›]

end Removed

end RuleBase

end RuleNet
