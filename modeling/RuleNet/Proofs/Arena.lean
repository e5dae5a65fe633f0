/-
  RuleNet — a network under any use.

  Nothing keeps a caller from asking for nodes to be added and removed in any
  order, under numbers of its own choice, with a join that reads twice from
  one node or a second root for an address that has one.  Such a network need
  not be wired, but it is `Grounded`: no node is there without its sources,
  each of them knows the node, and no node takes input from itself, however
  far around.  Adding a node can close no circle, since nothing can name a node
  as its source before it is there; removing one can leave none behind without
  its source, since the source knows it.

  The changes that make up an addition or a removal are made one after the
  other, and a call that fails could leave some of them behind: `InPlace.insert`
  and `InPlace.remove` carry them out in this order, and come to the same
  (`InPlace.insert_run`, `InPlace.remove_run`).
-/
import RuleNet.Proofs.Agreement

namespace RuleNet

/-! ## Writing the same sink several times -/

namespace Node

variable (n : Node) (x y : NodeId) (k : Nat)

/-- What a change leaves of a node is left by making it again. -/
theorem iterate_eq {β : Type} {g : Node → Node} (p : Node → β) (hg : ∀ n, p (g n) = p n) :
    p (g^[k] n) = p n := by
  induction k generalizing n with
  | zero => rfl
  | succ k ih => rw [Function.iterate_succ_apply, ih, hg]

theorem mem_iterate_addSink :
    y ∈ ((·.addSink x)^[k] n).sinks ↔ y ∈ n.sinks ∨ (y = x ∧ k ≠ 0) := by
  induction k generalizing n with
  | zero => simp
  | succ k ih =>
    rw [Function.iterate_succ_apply, ih]
    simp [addSink]
    tauto

theorem mem_iterate_dropSink :
    y ∈ ((·.dropSink x)^[k] n).sinks ↔ y ∈ n.sinks ∧ (y = x → k = 0) := by
  induction k generalizing n with
  | zero => simp
  | succ k ih =>
    rw [Function.iterate_succ_apply, ih]
    simp
    tauto

end Node

namespace Network

variable {net net' : Network} {n m : Node} {x y s : NodeId}

/-- Each time a number is among those changed, the node under it is changed. -/
theorem getElem?_foldl_modify_count (g : Node → Node) (ps : List NodeId)
    (nodes : Std.ExtTreeMap NodeId Node) (x : NodeId) :
    (ps.foldl (fun nodes p => nodes.modify p g) nodes)[x]? = nodes[x]?.map g^[ps.count x] := by
  induction ps generalizing nodes with
  | nil => simp
  | cons p ps ih =>
    rw [List.foldl_cons, ih, Std.ExtTreeMap.getElem?_modify]
    by_cases hx : p = x
    · subst hx
      simp [Option.map_map, Function.comp_def]
    · simp [hx]

theorem getElem?_link (net : Network) (n : Node) (x : NodeId) :
    (net.link n).nodes[x]? = if x = n.id then some n
      else net.nodes[x]?.map (·.addSink n.id)^[(net.parentsOf n.kind).count x] := by
  simp only [link, Std.ExtTreeMap.getElem?_insert, Std.compare_eq_iff_eq, eq_comm (a := n.id),
    getElem?_foldl_modify_count]

theorem getElem?_unlink (net : Network) (n : Node) (x : NodeId) :
    (net.unlink n).nodes[x]? = if x = n.id then none
      else net.nodes[x]?.map (·.dropSink n.id)^[(net.parentsOf n.kind).count x] := by
  simp only [unlink, getElem?_foldl_modify_count, Std.ExtTreeMap.getElem?_erase,
    Std.compare_eq_iff_eq, eq_comm (a := n.id)]
  split <;> rfl

/-- A node after another one has been hung up is the new one, or was there and
    has the new one among its sinks if the new one hangs below it. -/
theorem link_inv (hm : (net.link n).nodes[x]? = some m) :
    (x = n.id ∧ m = n) ∨ x ≠ n.id ∧ ∃ m₀, net.nodes[x]? = some m₀ ∧ m.id = m₀.id ∧
      m.kind = m₀.kind ∧
      ∀ y, y ∈ m.sinks ↔ y ∈ m₀.sinks ∨ (y = n.id ∧ x ∈ net.parentsOf n.kind) := by
  rw [getElem?_link] at hm
  split at hm
  · cases hm
    exact .inl ⟨‹_›, rfl⟩
  · obtain ⟨m₀, h₀, rfl⟩ := Option.map_eq_some_iff.1 hm
    refine .inr ⟨‹_›, m₀, h₀, Node.iterate_eq _ _ Node.id fun _ => rfl,
      Node.iterate_eq _ _ Node.kind fun _ => rfl, fun y => ?_⟩
    rw [Node.mem_iterate_addSink, ne_eq, List.count_eq_zero, not_not]

/-- A node after one has been taken down is another one that was there, and no
    longer has that one among its sinks if that one hung below it. -/
theorem unlink_inv (hm : (net.unlink n).nodes[x]? = some m) :
    x ≠ n.id ∧ ∃ m₀, net.nodes[x]? = some m₀ ∧ m.id = m₀.id ∧ m.kind = m₀.kind ∧
      ∀ y, y ∈ m.sinks ↔ y ∈ m₀.sinks ∧ (y = n.id → x ∉ net.parentsOf n.kind) := by
  rw [getElem?_unlink] at hm
  split at hm
  · cases hm
  · obtain ⟨m₀, h₀, rfl⟩ := Option.map_eq_some_iff.1 hm
    refine ⟨‹_›, m₀, h₀, Node.iterate_eq _ _ Node.id fun _ => rfl,
      Node.iterate_eq _ _ Node.kind fun _ => rfl, fun y => ?_⟩
    rw [Node.mem_iterate_dropSink, List.count_eq_zero]

theorem contains_iff : net.contains x = true ↔ ∃ m, net.nodes[x]? = some m := by
  rw [contains, Std.ExtTreeMap.contains_eq_isSome_getElem?, Option.isSome_iff_exists]

/-- A node that is not refused has a number that is free, and sources that are
    there. -/
theorem insert_inv (h : net.insert n = .ok net') : net.nodes[n.id]? = none ∧
    (∀ s ∈ n.kind.sources, ∃ m, net.nodes[s]? = some m) ∧ net' = net.link n := by
  unfold insert at h
  split at h
  · cases h
  rename_i hfresh
  split at h
  · cases h
  rename_i hsource
  cases h
  refine ⟨?_, fun s hs => ?_, rfl⟩
  · rw [contains_iff, not_exists] at hfresh
    exact Option.eq_none_iff_forall_not_mem.2 hfresh
  · have hs := List.find?_eq_none.1 hsource s hs
    rwa [Bool.not_eq_true', Bool.not_eq_false, contains_iff] at hs

/-- A node that has been removed was there and had no sinks. -/
theorem remove_inv (h : net.remove x = .ok (n, net')) :
    net.nodes[x]? = some n ∧ n.sinks = [] ∧ net' = net.unlink n := by
  cases hn : net.nodes[x]? with
  | none => simp [remove, require, hn, bind, Except.bind] at h
  | some m =>
    by_cases hbare : m.sinks = []
    · rw [remove_eq hn hbare] at h
      cases h
      exact ⟨rfl, hbare, rfl⟩
    · simp [remove, require, hn, bind, Except.bind, hbare] at h

/-- A node that is there stays when another one is hung up. -/
theorem exists_link (hx : x ≠ n.id) (hm : net.nodes[x]? = some m) :
    ∃ m', (net.link n).nodes[x]? = some m' := by
  rw [getElem?_link, if_neg hx, hm]
  exact ⟨_, rfl⟩

/-- A node that is there stays when another one is taken down. -/
theorem exists_unlink (hx : x ≠ n.id) (hm : net.nodes[x]? = some m) :
    ∃ m', (net.unlink n).nodes[x]? = some m' := by
  rw [getElem?_unlink, if_neg hx, hm]
  exact ⟨_, rfl⟩

/-! ## Grounded networks -/

/-- One node takes input from another. -/
def Feeds (net : Network) (s x : NodeId) : Prop :=
  ∃ n, net.nodes[x]? = some n ∧ s ∈ n.kind.sources

/-- No node of a network goes without its sources, and none feeds itself. -/
structure Grounded (net : Network) : Prop where
  counted : net.Counted
  /-- A node is kept under its number. -/
  id_eq : ∀ {x : NodeId} {n : Node}, net.nodes[x]? = some n → n.id = x
  /-- The sources of a node are there, and know it. -/
  source : ∀ {x : NodeId} {n : Node}, net.nodes[x]? = some n → ∀ s ∈ n.kind.sources,
    ∃ m, net.nodes[s]? = some m ∧ x ∈ m.sinks
  /-- Going from nodes to their sources ends. -/
  wellFounded : WellFounded net.Feeds

theorem grounded_empty : empty.Grounded where
  counted := counted_empty
  id_eq h := by simp [empty] at h
  source h := by simp [empty] at h
  wellFounded := ⟨fun x => ⟨x, by rintro s ⟨n, hn, -⟩; simp [empty] at hn⟩⟩

namespace Grounded
variable (h : net.Grounded)
include h

/-- No node takes input from itself, however far around. -/
theorem acyclic (x : NodeId) : ¬ Relation.TransGen net.Feeds x x :=
  fun hx => h.wellFounded.transGen.irrefl.irrefl x hx

/-- A node that feeds one that is there is there itself. -/
theorem exists_of_feeds (hs : net.Feeds s x) : ∃ m, net.nodes[s]? = some m := by
  obtain ⟨n, hn, hs⟩ := hs
  obtain ⟨m, hm, -⟩ := h.source hn s hs
  exact ⟨m, hm⟩

omit h in
/-- What feeds a node that was there is what fed it before another was hung up. -/
theorem feeds_of_link (hx : x ≠ n.id) (hs : (net.link n).Feeds s x) : net.Feeds s x := by
  obtain ⟨m, hm, hs⟩ := hs
  obtain ⟨rfl, -⟩ | ⟨-, m₀, h₀, -, hkind, -⟩ := link_inv hm
  · exact absurd rfl hx
  · exact ⟨m₀, h₀, hkind ▸ hs⟩

section Link
variable (hfresh : net.nodes[n.id]? = none)
include hfresh

/-- A new node feeds none. -/
theorem ne_of_feeds (hs : net.Feeds s x) : s ≠ n.id := by
  rintro rfl
  obtain ⟨m, hm⟩ := h.exists_of_feeds hs
  rw [hfresh] at hm
  cases hm

variable (hsource : ∀ s ∈ n.kind.sources, ∃ m, net.nodes[s]? = some m)
include hsource

/-- No circle closes when a node is hung up below nodes that are there. -/
theorem wellFounded_link : WellFounded (net.link n).Feeds := by
  -- below a node that was there nothing is new
  have old : ∀ x, x ≠ n.id → Acc (net.link n).Feeds x := by
    intro x
    induction x using h.wellFounded.induction with
    | h x ih =>
      intro hx
      refine ⟨x, fun s hs => ?_⟩
      have hs := feeds_of_link hx hs
      exact ih s hs (h.ne_of_feeds hfresh hs)
  refine ⟨fun x => ?_⟩
  by_cases hx : x = n.id
  · subst hx
    refine ⟨_, fun s ⟨m, hm, hs⟩ => old s ?_⟩
    obtain ⟨-, rfl⟩ | ⟨hne, -⟩ := link_inv hm
    · rintro rfl
      obtain ⟨k, hk⟩ := hsource _ hs
      rw [hfresh] at hk
      cases hk
    · exact absurd rfl hne
  · exact old x hx

/-- **A network stays grounded when a node is hung up under a free number and
    below nodes that are there.** -/
theorem link : (net.link n).Grounded where
  counted := h.counted.link hfresh
  id_eq {x m} hm := by
    obtain ⟨rfl, rfl⟩ | ⟨-, m₀, h₀, hid, -⟩ := link_inv hm
    · rfl
    · rw [hid, h.id_eq h₀]
  source {x m} hm s hs := by
    -- the source was there; it learns of a new node, and keeps the others
    have known : ∃ k₀, net.nodes[s]? = some k₀ ∧
        (x ∈ k₀.sinks ∨ (x = n.id ∧ s ∈ net.parentsOf n.kind)) := by
      obtain ⟨rfl, rfl⟩ | ⟨-, m₀, h₀, -, hkind, -⟩ := link_inv hm
      · obtain ⟨k₀, hk₀⟩ := hsource s hs
        exact ⟨k₀, hk₀, .inr ⟨rfl, mem_parentsOf.2 (.inl hs)⟩⟩
      · obtain ⟨k₀, hk₀, hx⟩ := h.source h₀ s (hkind ▸ hs)
        exact ⟨k₀, hk₀, .inl hx⟩
    obtain ⟨k₀, hk₀, hx⟩ := known
    have hne : s ≠ n.id := by
      rintro rfl
      rw [hfresh] at hk₀
      cases hk₀
    obtain ⟨k, hk⟩ := exists_link (n := n) hne hk₀
    obtain ⟨rfl, -⟩ | ⟨-, k₁, hk₁, -, -, hsinks⟩ := link_inv hk
    · exact absurd rfl hne
    · obtain rfl : k₀ = k₁ := Option.some.inj (hk₀.symm.trans hk₁)
      exact ⟨k, hk, (hsinks x).2 hx⟩
  wellFounded := h.wellFounded_link hfresh hsource

end Link

/-- **A network stays grounded when a node is taken down that has no sinks.** -/
theorem unlink (hn : net.nodes[n.id]? = some n) (hbare : n.sinks = []) :
    (net.unlink n).Grounded where
  counted := h.counted.unlink hn
  id_eq {x m} hm := by
    obtain ⟨-, m₀, h₀, hid, -⟩ := unlink_inv hm
    rw [hid, h.id_eq h₀]
  source {x m} hm s hs := by
    obtain ⟨hx, m₀, h₀, -, hkind, -⟩ := unlink_inv hm
    obtain ⟨k₀, hk₀, hmem⟩ := h.source h₀ s (hkind ▸ hs)
    -- a node without sinks is no one's source
    have hne : s ≠ n.id := by
      rintro rfl
      obtain rfl : n = k₀ := Option.some.inj (hn.symm.trans hk₀)
      rw [hbare] at hmem
      exact List.not_mem_nil hmem
    obtain ⟨k, hk⟩ := exists_unlink (n := n) hne hk₀
    obtain ⟨-, k₁, hk₁, -, -, hsinks⟩ := unlink_inv hk
    obtain rfl : k₀ = k₁ := Option.some.inj (hk₀.symm.trans hk₁)
    exact ⟨k, hk, (hsinks x).2 ⟨hmem, fun e => absurd e hx⟩⟩
  wellFounded := by
    refine Subrelation.wf ?_ h.wellFounded
    rintro s x ⟨m, hm, hs⟩
    obtain ⟨-, m₀, h₀, -, hkind, -⟩ := unlink_inv hm
    exact ⟨m₀, h₀, hkind ▸ hs⟩

end Grounded

end Network

/-! ## Changes in place -/

namespace InPlace

/-- A node is added, one change after the other: it is checked against what is
    there, its sources take it among their sinks, it is entered under its
    address, the root found under its parent's address takes it among its
    sinks, it is put in its place, and it is counted. -/
def insert (n : Node) : EStateM Fault Network NodeId := do
  if (← get).contains n.id then throw (.breach (.slotTaken n.id))
  n.kind.sources.forM fun source => do
    unless (← get).contains source do throw (.nodeNotFound source)
  n.kind.sources.forM fun source => modify (·.modify source (·.addSink n.id))
  n.kind.rootKey?.toList.forM fun key =>
    modify fun net => { net with roots := net.roots.insert key n.id }
  let root? := n.kind.parentKey?.bind ((← get).roots[·]?)
  root?.toList.forM fun root => modify (·.modify root (·.addSink n.id))
  modify fun net => { net with nodes := net.nodes.insert n.id n }
  modify fun net => { net with size := net.size + 1 }
  return n.id

/-- A node is removed, one change after the other: it must be there and have no
    sinks; it is taken from its place and no longer counted, its sources forget
    it, its address is given up, and the root found under its parent's address
    forgets it. -/
def remove (id : NodeId) : EStateM Fault Network Node := do
  match (← get).nodes[id]? with
  | none => throw (.nodeNotFound id)
  | some n =>
    unless n.sinks.isEmpty do throw (.breach (.sinksLeft id n.sinks.length))
    modify fun net => { net with nodes := net.nodes.erase id }
    modify fun net => { net with size := net.size - 1 }
    n.kind.sources.forM fun source => modify (·.modify source (·.dropSink id))
    n.kind.rootKey?.toList.forM fun key =>
      modify fun net => { net with roots := net.roots.erase key }
    let root? := n.kind.parentKey?.bind ((← get).roots[·]?)
    root?.toList.forM fun root => modify (·.modify root (·.dropSink id))
    return n

open Session (bind_ok bind_error get_bind)

variable {net : Network}

/-- A change for each entry of a list. -/
theorem forM_modify {α : Type} (u : α → Network → Network) (l : List α) (net : Network) :
    (l.forM fun a => modify (u a) : EStateM Fault Network PUnit) net =
      .ok ⟨⟩ (l.foldl (fun net a => u a net) net) := by
  induction l generalizing net with
  | nil => rfl
  | cons a l ih => exact ih (u a net)

/-- A check of each entry of a list stops at the first one that fails. -/
theorem forM_check {α : Type} (p : Network → α → Bool) (fault : α → Fault) (l : List α)
    (net : Network) :
    (l.forM fun a => do unless p (← get) a do throw (fault a) :
      EStateM Fault Network PUnit) net =
      match l.find? fun a => !p net a with
      | some a => .error (fault a) net
      | none => .ok ⟨⟩ net := by
  induction l with
  | nil => rfl
  | cons a l ih =>
    have hhead : (do unless p (← get) a do throw (fault a) : EStateM Fault Network PUnit) net =
        if p net a then .ok ⟨⟩ net else .error (fault a) net := by
      rw [get_bind]
      split <;> rfl
    cases hp : p net a with
    | false =>
      rw [hp, if_neg Bool.false_ne_true] at hhead
      rw [List.find?_cons_of_pos (by rw [hp]; rfl)]
      exact bind_error hhead
    | true =>
      rw [hp, if_pos rfl] at hhead
      rw [List.find?_cons_of_neg (by rw [hp]; exact Bool.false_ne_true), ← ih]
      exact bind_ok hhead

/-- Nodes are changed one by one. -/
theorem forM_modify_node (g : Node → Node) (ps : List NodeId) (net : Network) :
    (ps.forM fun p => modify (·.modify p g) : EStateM Fault Network PUnit) net =
      .ok ⟨⟩ { net with nodes := ps.foldl (fun nodes p => nodes.modify p g) net.nodes } := by
  rw [forM_modify]
  congr 1
  induction ps generalizing net with
  | nil => rfl
  | cons p ps ih => exact ih _

/-- The root that a node hangs below is found whether or not the node has been
    entered under its own address. -/
theorem parent?_insert (k : NodeKind) (roots : Std.ExtTreeMap RootKey NodeId) (x : NodeId) :
    (k.parentKey?.bind fun key => ((match k.rootKey? with
      | some key => roots.insert key x
      | none => roots))[key]?) = k.parentKey?.bind (roots[·]?) := by
  cases k <;> simp [NodeKind.parentKey?, NodeKind.rootKey?, Std.ExtTreeMap.getElem?_insert]

/-- The same holds once the address has been given up. -/
theorem parent?_erase (k : NodeKind) (roots : Std.ExtTreeMap RootKey NodeId) :
    (k.parentKey?.bind fun key => ((match k.rootKey? with
      | some key => roots.erase key
      | none => roots))[key]?) = k.parentKey?.bind (roots[·]?) := by
  cases k <;> simp [NodeKind.parentKey?, NodeKind.rootKey?, Std.ExtTreeMap.getElem?_erase]

/-- A change of the roots for the address of a node. -/
theorem forM_modify_root
    (u : Std.ExtTreeMap RootKey NodeId → RootKey → Std.ExtTreeMap RootKey NodeId)
    (key? : Option RootKey) (net : Network) :
    (key?.toList.forM fun key => modify fun net => { net with roots := u net.roots key } :
      EStateM Fault Network PUnit) net = .ok ⟨⟩ { net with roots := match key? with
        | some key => u net.roots key
        | none => net.roots } := by
  cases key? <;> rfl

/-- **Adding a node in place comes to the same as adding it at once**, and
    changes nothing if it fails. -/
theorem insert_run (n : Node) (net : Network) :
    insert n net = match net.insert n with
      | .ok net' => .ok n.id net'
      | .error fault => .error fault net := by
  unfold insert Network.insert
  rw [get_bind]
  cases hslot : net.contains n.id with
  | true => rfl
  | false =>
    have hcheck := forM_check Network.contains Fault.nodeNotFound n.kind.sources net
    simp only [Bool.false_eq_true, if_false]
    change (_ >>= _ : EStateM Fault Network NodeId) net = _
    cases hfind : n.kind.sources.find? fun source => !net.contains source with
    | some source =>
      rw [hfind] at hcheck
      rw [bind_error hcheck]
    | none =>
      rw [hfind] at hcheck
      rw [bind_ok hcheck, bind_ok (forM_modify_node _ _ _),
        bind_ok (forM_modify_root (·.insert · n.id) _ _), get_bind]
      simp only [parent?_insert]
      rw [bind_ok (forM_modify_node _ _ _)]
      simp only [Network.link, Network.parentsOf, List.foldl_append]
      rfl

/-- **Removing a node in place comes to the same as removing it at once**, and
    changes nothing if it fails. -/
theorem remove_run (id : NodeId) (h : net.Grounded) :
    remove id net = match net.remove id with
      | .ok (n, net') => .ok n net'
      | .error fault => .error fault net := by
  rw [remove, get_bind]
  cases hn : net.nodes[id]? with
  | none =>
    simp only [Network.remove, Network.require, hn]
    rfl
  | some n =>
    obtain rfl := h.id_eq hn
    by_cases hbare : n.sinks = []
    · rw [Network.remove_eq hn hbare]
      simp only [hbare, List.isEmpty_nil, if_true]
      change ((n.kind.sources.forM fun source => modify (·.modify source (·.dropSink n.id))) >>= _ :
        EStateM Fault Network Node)
          { net with nodes := net.nodes.erase n.id, size := net.size - 1 } = _
      rw [bind_ok (forM_modify_node _ _ _), bind_ok (forM_modify_root (·.erase ·) _ _), get_bind]
      simp only [parent?_erase]
      rw [bind_ok (forM_modify_node _ _ _)]
      simp only [Network.unlink, Network.parentsOf, List.foldl_append]
      rfl
    · have hremove : net.remove n.id = .error (.breach (.sinksLeft n.id n.sinks.length)) := by
        simp only [Network.remove, Network.require, hn, bind, Except.bind, List.isEmpty_iff, hbare,
          if_false]
        rfl
      rw [hremove]
      simp only [List.isEmpty_iff, hbare, if_false]
      rfl

end InPlace

/-! ## Calls -/

/-- A call on a network. -/
inductive Call where
  /-- A new node is to be added. -/
  | insert (id : NodeId) (kind : NodeKind)
  /-- A node is to be removed. -/
  | remove (id : NodeId)
  deriving DecidableEq

namespace Call

/-- A call is carried out. -/
def perform : Call → EStateM Fault Network Unit
  | insert id kind => do let _ ← InPlace.insert { id, kind }
  | remove id => do let _ ← InPlace.remove id

/-- The network as a call leaves it, whether or not it fails. -/
def leave (net : Network) (c : Call) : Network :=
  match c.perform net with
  | .ok _ net' | .error _ net' => net'

/-- The network that some calls make of an empty one. -/
def network (calls : List Call) : Network := calls.foldl leave .empty

variable {net net' : Network}

/-- How a call can end: a new node hangs below nodes that are there, a node
    without sinks is gone, or the call has failed and changed nothing. -/
inductive Ends (net : Network) : Call → EStateM.Result Fault Network Unit → Prop where
  | linked {n : Node} (bare : n.sinks = []) (fresh : net.nodes[n.id]? = none)
      (source : ∀ s ∈ n.kind.sources, ∃ m, net.nodes[s]? = some m) :
      Ends net (.insert n.id n.kind) (.ok () (net.link n))
  | unlinked {n : Node} (here : net.nodes[n.id]? = some n) (bare : n.sinks = []) :
      Ends net (.remove n.id) (.ok () (net.unlink n))
  | failed {c : Call} (fault : Fault) : Ends net c (.error fault net)

theorem ends_perform (h : net.Grounded) (c : Call) : Ends net c (c.perform net) := by
  cases c with
  | insert id kind =>
    have hrun := InPlace.insert_run { id, kind } net
    rw [perform]
    cases hins : net.insert { id, kind } with
    | error fault =>
      rw [hins] at hrun
      rw [Session.bind_error hrun]
      exact .failed fault
    | ok net' =>
      rw [hins] at hrun
      rw [Session.bind_ok hrun]
      obtain ⟨hfresh, hsource, rfl⟩ := Network.insert_inv hins
      exact .linked rfl hfresh hsource
  | remove id =>
    have hrun := InPlace.remove_run id h
    rw [perform]
    cases hrem : net.remove id with
    | error fault =>
      rw [hrem] at hrun
      rw [Session.bind_error hrun]
      exact .failed fault
    | ok res =>
      rw [hrem] at hrun
      rw [Session.bind_ok hrun]
      obtain ⟨hn, hbare, hnet⟩ := Network.remove_inv hrem
      obtain rfl := h.id_eq hn
      rw [hnet]
      exact .unlinked hn hbare

/-- **One call keeps a network grounded**, whether or not it fails. -/
theorem grounded_leave (h : net.Grounded) (c : Call) : (leave net c).Grounded := by
  have hends := ends_perform h c
  unfold leave
  generalize c.perform net = r at hends ⊢
  cases hends with
  | linked _ fresh source => exact h.link fresh source
  | unlinked here bare => exact h.unlink here bare
  | failed _ => exact h

/-- **Any calls make a grounded network.** -/
theorem grounded_network (calls : List Call) : (network calls).Grounded := by
  induction calls using List.reverseRecOn with
  | nil => exact Network.grounded_empty
  | append_singleton calls c ih =>
    rw [network, List.foldl_append]
    exact grounded_leave ih c

end Call

namespace Network

variable {net : Network} {n : Node}

/-- The nodes that are listed are those that are there. -/
theorem Grounded.mem_toList (h : net.Grounded) : n ∈ net.toList ↔ net.nodes[n.id]? = some n := by
  simp only [toList, List.mem_map, Prod.exists, Std.ExtTreeMap.mem_toList_iff_getElem?_eq_some]
  constructor
  · rintro ⟨x, m, hm, rfl⟩
    rwa [h.id_eq hm]
  · exact fun hn => ⟨n.id, n, hn, rfl⟩

/-- The nodes are listed by ascending number. -/
theorem Grounded.pairwise_toList (h : net.Grounded) : net.toList.Pairwise (·.id < ·.id) := by
  rw [toList, List.pairwise_map]
  have hkey : ∀ p ∈ net.nodes.toList, p.2.id = p.1 := fun p hp =>
    h.id_eq (Std.ExtTreeMap.mem_toList_iff_getElem?_eq_some.1 hp)
  refine Std.ExtTreeMap.ordered_keys_toList.imp_of_mem fun {p q} hp hq hpq => ?_
  rw [hkey p hp, hkey q hq]
  exact Nat.compare_eq_lt.1 hpq

/-- As many nodes are listed as are counted. -/
theorem Counted.size_eq_length (h : net.Counted) : net.size = net.toList.length := by
  rw [h, toList, List.length_map, Std.ExtTreeMap.length_toList]

end Network

/-- **Whatever calls have been made on it, a network rests on its sources.**
    Every node is kept under its number; each of its sources is there and has
    the node among its sinks; no node takes input from itself, however far
    around.  The nodes that are there are listed by ascending number, as many as
    have been counted, and a call that fails leaves the network as it was. -/
theorem Call.network_wellFounded (calls : List Call) :
    (∀ (x : NodeId) (n : Node), (network calls).nodes[x]? = some n → n.id = x ∧
      ∀ s ∈ n.kind.sources, ∃ m, (network calls).nodes[s]? = some m ∧ x ∈ m.sinks) ∧
    (∀ x, ¬ Relation.TransGen (network calls).Feeds x x) ∧
    (∀ n : Node, n ∈ (network calls).toList ↔ (network calls).nodes[n.id]? = some n) ∧
    (network calls).toList.Pairwise (·.id < ·.id) ∧
    (network calls).size = (network calls).toList.length ∧
    ∀ (c : Call) fault net', c.perform (network calls) = .error fault net' →
      net' = network calls := by
  have h := grounded_network calls
  refine ⟨fun x n hn => ⟨h.id_eq hn, h.source hn⟩, h.acyclic, fun n => h.mem_toList,
    h.pairwise_toList, h.counted.size_eq_length, fun c fault net' hc => ?_⟩
  have hends := ends_perform h c
  rw [hc] at hends
  cases hends
  rfl

end RuleNet
