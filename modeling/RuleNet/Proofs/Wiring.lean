/-
  RuleNet — how the nodes of a network hang together.

  In a wired network every node is kept under its number and counted, the roots
  are found under their addresses, every node's parents are there, and a node's
  sinks are just the nodes below it, each once.  Hanging up a fitting node, taking
  down a node with nothing below it, and changing what is written on a node
  all keep a network wired (`Wired.link`, `Wired.unlink`, `Wired.modify`).
-/
import Mathlib
import RuleNet.Network

namespace RuleNet

theorem NodeKind.sources_of_isRoot {k : NodeKind} {key : RootKey} (h : k.rootKey? = some key) :
    k.sources = [] := by
  cases k <;> simp_all [rootKey?, sources]

@[simp] theorem Node.dropSink_kind (n : Node) (x : NodeId) : (n.dropSink x).kind = n.kind := rfl

@[simp] theorem Node.dropSink_sinks (n : Node) (x : NodeId) :
    (n.dropSink x).sinks = n.sinks.filter (· ≠ x) := rfl

theorem Node.dropSink_of_not_mem {n : Node} {x : NodeId} (h : x ∉ n.sinks) : n.dropSink x = n := by
  have : n.sinks.filter (· ≠ x) = n.sinks :=
    List.filter_eq_self.2 fun y hy => by simpa using fun e : y = x => h (e ▸ hy)
  rw [dropSink, this]

theorem Node.dropSink_addSink {n : Node} {x : NodeId} (h : x ∉ n.sinks) :
    (n.addSink x).dropSink x = n := by
  have hdrop := congrArg Node.sinks (dropSink_of_not_mem h)
  simp only [dropSink] at hdrop
  simp only [addSink, dropSink, List.filter_append, hdrop]
  simp

namespace Network

variable {net : Network} {n m : Node} {x y p : NodeId} {key : RootKey}

/-! ## Looking up after a change -/

theorem getElem?_foldl_modify (f : Node → Node) {ps : List NodeId} (hps : ps.Nodup)
    (nodes : Std.ExtTreeMap NodeId Node) (x : NodeId) :
    (ps.foldl (fun nodes p => nodes.modify p f) nodes)[x]? =
      if x ∈ ps then nodes[x]?.map f else nodes[x]? := by
  induction ps generalizing nodes with
  | nil => simp
  | cons p ps ih =>
    obtain ⟨hp, hps⟩ := List.nodup_cons.1 hps
    simp only [List.foldl_cons, ih hps, Std.ExtTreeMap.getElem?_modify, Std.compare_eq_iff_eq,
      List.mem_cons]
    by_cases hx : x = p
    · subst hx; simp [hp]
    · simp [hx, Ne.symm hx]

theorem getElem?_modify_nodes (net : Network) (id : NodeId) (f : Node → Node) (x : NodeId) :
    (net.modify id f).nodes[x]? = if x = id then net.nodes[x]?.map f else net.nodes[x]? := by
  simp only [modify, Std.ExtTreeMap.getElem?_modify, Std.compare_eq_iff_eq, eq_comm (a := id)]
  split <;> simp_all

@[simp] theorem modify_roots (net : Network) (id : NodeId) (f : Node → Node) :
    (net.modify id f).roots = net.roots := rfl

@[simp] theorem modify_parentsOf (net : Network) (id : NodeId) (f : Node → Node) (k : NodeKind) :
    (net.modify id f).parentsOf k = net.parentsOf k := rfl

theorem mem_parentsOf {k : NodeKind} :
    p ∈ net.parentsOf k ↔
      p ∈ k.sources ∨ ∃ key, k.parentKey? = some key ∧ net.roots[key]? = some p := by
  simp [parentsOf, Option.mem_toList, Option.bind_eq_some_iff]

section Modify
variable {id : NodeId} {f : Node → Node}
variable (hf : ∀ n, (f n).id = n.id ∧ (f n).kind = n.kind ∧ (f n).sinks = n.sinks)
include hf

/-- What `f` does not change about a node was so before. -/
theorem modify_cases (hn : (net.modify id f).nodes[x]? = some n) : ∃ n₀, net.nodes[x]? = some n₀ ∧
    n.id = n₀.id ∧ n.kind = n₀.kind ∧ n.sinks = n₀.sinks := by
  rw [getElem?_modify_nodes] at hn
  split at hn
  · obtain ⟨n₀, h₀, rfl⟩ := Option.map_eq_some_iff.1 hn
    exact ⟨n₀, h₀, hf n₀⟩
  · exact ⟨n, hn, rfl, rfl, rfl⟩

theorem exists_modify (hn : net.nodes[x]? = some n) :
    ∃ m, (net.modify id f).nodes[x]? = some m ∧ m.kind = n.kind := by
  rw [getElem?_modify_nodes]
  split
  · exact ⟨f n, by rw [hn]; rfl, (hf n).2.1⟩
  · exact ⟨n, hn, rfl⟩

end Modify

/-! ## Counting -/

/-- The size of a network is the number of its nodes. -/
def Counted (net : Network) : Prop := net.size = net.nodes.size

theorem size_foldl_modify (f : Node → Node) (ps : List NodeId)
    (nodes : Std.ExtTreeMap NodeId Node) :
    (ps.foldl (fun nodes p => nodes.modify p f) nodes).size = nodes.size := by
  induction ps generalizing nodes with
  | nil => rfl
  | cons p ps ih => rw [List.foldl_cons, ih, Std.ExtTreeMap.size_modify]

theorem contains_foldl_modify (f : Node → Node) (ps : List NodeId)
    (nodes : Std.ExtTreeMap NodeId Node) (x : NodeId) :
    (ps.foldl (fun nodes p => nodes.modify p f) nodes).contains x = nodes.contains x := by
  induction ps generalizing nodes with
  | nil => rfl
  | cons p ps ih => rw [List.foldl_cons, ih, Std.ExtTreeMap.contains_modify]

theorem counted_empty : empty.Counted := rfl

namespace Counted
variable (h : net.Counted)
include h

theorem modify (id : NodeId) (f : Node → Node) : (net.modify id f).Counted := by
  rw [Counted, Network.modify, Std.ExtTreeMap.size_modify]
  exact h

/-- One more node is counted when it is hung up under a free number. -/
theorem link (hfresh : net.nodes[n.id]? = none) : (net.link n).Counted := by
  have hfree : net.nodes.contains n.id = false := by
    rw [Std.ExtTreeMap.contains_eq_isSome_getElem?, hfresh]
    rfl
  rw [Counted, Network.link, Std.ExtTreeMap.size_insert, contains_foldl_modify, hfree,
    if_neg Bool.false_ne_true, size_foldl_modify, h]

/-- One node less is counted when one that was there is taken down. -/
theorem unlink (hn : net.nodes[n.id]? = some m) : (net.unlink n).Counted := by
  have hthere : net.nodes.contains n.id = true := by
    rw [Std.ExtTreeMap.contains_eq_isSome_getElem?, hn]
    rfl
  rw [Counted, Network.unlink, size_foldl_modify, Std.ExtTreeMap.size_erase, if_pos hthere, h]

end Counted

/-! ## Wired networks -/

/-- The nodes of a network hang together. -/
structure Wired (net : Network) : Prop where
  counted : net.Counted
  /-- A node is kept under its number. -/
  id_eq : ∀ {x : NodeId} {n : Node}, net.nodes[x]? = some n → n.id = x
  /-- A root is found under its address. -/
  roots_iff : ∀ {key : RootKey} {x : NodeId}, net.roots[key]? = some x ↔
    ∃ n, net.nodes[x]? = some n ∧ n.kind.rootKey? = some key
  /-- The sources of a node are there. -/
  source : ∀ {x : NodeId} {n : Node}, net.nodes[x]? = some n → ∀ s ∈ n.kind.sources, ∃ m, net.nodes[s]? = some m
  /-- The root that a node hangs below is there. -/
  parent : ∀ {x : NodeId} {n : Node} {key : RootKey}, net.nodes[x]? = some n → n.kind.parentKey? = some key →
    ∃ p, net.roots[key]? = some p
  /-- A node hangs below each of its parents once. -/
  parents_nodup : ∀ {x : NodeId} {n : Node}, net.nodes[x]? = some n → (net.parentsOf n.kind).Nodup
  sinks_nodup : ∀ {x : NodeId} {n : Node}, net.nodes[x]? = some n → n.sinks.Nodup
  /-- The sinks of a node are the nodes that hang below it. -/
  mem_sinks : ∀ {p : NodeId} {n : Node}, net.nodes[p]? = some n → ∀ x : NodeId,
    x ∈ n.sinks ↔ ∃ m, net.nodes[x]? = some m ∧ p ∈ net.parentsOf m.kind

theorem wired_empty : empty.Wired where
  counted := counted_empty
  id_eq h := by simp [empty] at h
  roots_iff := by simp [empty]
  source h := by simp [empty] at h
  parent h := by simp [empty] at h
  parents_nodup h := by simp [empty] at h
  sinks_nodup h := by simp [empty] at h
  mem_sinks h := by simp [empty] at h

namespace Wired
variable (h : net.Wired)
include h

theorem sink_mem (hn : net.nodes[p]? = some n) (hx : x ∈ n.sinks) : ∃ m, net.nodes[x]? = some m := by
  obtain ⟨m, hm, -⟩ := (h.mem_sinks hn x).1 hx
  exact ⟨m, hm⟩

/-- What the nodes of a wired network do tells where its roots are, and how many
    nodes it has. -/
theorem eq_of_kinds {net' : Network} (h' : net'.Wired) (hkinds : ∀ x : NodeId,
    net.nodes[x]?.map (·.kind) = net'.nodes[x]?.map (·.kind)) :
    net = { net' with nodes := net.nodes } := by
  have hroots : ∀ key : RootKey, net.roots[key]? = net'.roots[key]? := by
    intro key
    refine Option.ext fun x => ?_
    have hx := congrArg (·.bind NodeKind.rootKey? = some key) (hkinds x)
    simpa [h.roots_iff, h'.roots_iff, Option.bind_eq_some_iff] using hx
  have hkeys : net.nodes.keys.Perm net'.nodes.keys := by
    refine (List.perm_ext_iff_of_nodup Std.ExtTreeMap.nodup_keys Std.ExtTreeMap.nodup_keys).2
      fun x => ?_
    have hx := congrArg Option.isSome (hkinds x)
    simp only [Option.isSome_map] at hx
    rw [Std.ExtTreeMap.mem_keys, Std.ExtTreeMap.mem_keys, Std.ExtTreeMap.mem_iff_isSome_getElem?,
      Std.ExtTreeMap.mem_iff_isSome_getElem?, hx]
  have hsize : net.size = net'.size := by
    rw [h.counted, h'.counted, ← Std.ExtTreeMap.length_keys, ← Std.ExtTreeMap.length_keys,
      hkeys.length_eq]
  obtain ⟨nodes, roots, size⟩ := net
  obtain rfl : roots = net'.roots := Std.ExtTreeMap.ext_getElem? fun key => hroots key
  obtain rfl : size = net'.size := hsize
  rfl

/-! ## Changing what is written on a node -/

/-- A network stays wired when a node is changed but for its number, what it
    does and its sinks. -/
theorem modify {id : NodeId} {f : Node → Node}
    (hf : ∀ n, (f n).id = n.id ∧ (f n).kind = n.kind ∧ (f n).sinks = n.sinks) :
    (net.modify id f).Wired where
  counted := h.counted.modify id f
  id_eq {x n} hn := by
    obtain ⟨n₀, h₀, hid, -, -⟩ := modify_cases hf hn
    rw [hid, h.id_eq h₀]
  roots_iff {key x} := by
    rw [modify_roots, h.roots_iff]
    constructor
    · rintro ⟨n₀, h₀, hk⟩
      obtain ⟨n, hn, hkind⟩ := exists_modify hf h₀
      exact ⟨n, hn, by rw [hkind, hk]⟩
    · rintro ⟨n, hn, hk⟩
      obtain ⟨n₀, h₀, -, hkind, -⟩ := modify_cases hf hn
      exact ⟨n₀, h₀, by rw [← hkind, hk]⟩
  source {x n} hn s hs := by
    obtain ⟨n₀, h₀, -, hkind, -⟩ := modify_cases hf hn
    obtain ⟨m₀, hm₀⟩ := h.source h₀ s (hkind ▸ hs)
    obtain ⟨m, hm, -⟩ := exists_modify hf hm₀
    exact ⟨m, hm⟩
  parent {x n key} hn hk := by
    obtain ⟨n₀, h₀, -, hkind, -⟩ := modify_cases hf hn
    exact h.parent h₀ (hkind ▸ hk)
  parents_nodup {x n} hn := by
    obtain ⟨n₀, h₀, -, hkind, -⟩ := modify_cases hf hn
    rw [modify_parentsOf, hkind]
    exact h.parents_nodup h₀
  sinks_nodup {x n} hn := by
    obtain ⟨n₀, h₀, -, -, hsinks⟩ := modify_cases hf hn
    rw [hsinks]
    exact h.sinks_nodup h₀
  mem_sinks {p n} hn x := by
    obtain ⟨n₀, h₀, -, -, hsinks⟩ := modify_cases hf hn
    rw [hsinks, h.mem_sinks h₀]
    constructor
    · rintro ⟨m₀, hm₀, hp⟩
      obtain ⟨m, hm, hkind⟩ := exists_modify hf hm₀
      exact ⟨m, hm, by rwa [modify_parentsOf, hkind]⟩
    · rintro ⟨m, hm, hp⟩
      obtain ⟨m₀, hm₀, -, hkind, -⟩ := modify_cases hf hm
      exact ⟨m₀, hm₀, by rwa [modify_parentsOf, hkind] at hp⟩

end Wired

/-! ## Hanging up a node -/

/-- A node can be hung up: its number and its address are free, and its parents
    are there. -/
structure Fits (net : Network) (n : Node) : Prop where
  fresh : net.nodes[n.id]? = none
  /-- The sources are there. -/
  source : ∀ s ∈ n.kind.sources, ∃ m, net.nodes[s]? = some m
  /-- The root to hang below is there. -/
  parent : ∀ key, n.kind.parentKey? = some key → ∃ p, net.roots[key]? = some p
  parents_nodup : (net.parentsOf n.kind).Nodup
  /-- The address is free. -/
  root : ∀ key, n.kind.rootKey? = some key → net.roots[key]? = none
  bare : n.sinks = []

/-- A node that fits is not refused. -/
theorem Fits.insert_eq (hf : net.Fits n) : net.insert n = .ok (net.link n) := by
  have hfresh : net.contains n.id = false := by
    rw [contains, Std.ExtTreeMap.contains_eq_isSome_getElem?, hf.fresh]
    rfl
  have hsource : (n.kind.sources.find? fun source => !net.contains source) = none := by
    refine List.find?_eq_none.2 fun s hs => ?_
    obtain ⟨m, hm⟩ := hf.source s hs
    simp [contains, Std.ExtTreeMap.contains_eq_isSome_getElem?, hm]
  simp only [insert, hfresh, hsource]
  rfl

theorem getElem?_link_nodes (hnd : (net.parentsOf n.kind).Nodup) (x : NodeId) :
    (net.link n).nodes[x]? =
      if x = n.id then some n
      else if x ∈ net.parentsOf n.kind then net.nodes[x]?.map (·.addSink n.id)
      else net.nodes[x]? := by
  simp only [link, Std.ExtTreeMap.getElem?_insert, Std.compare_eq_iff_eq, eq_comm (a := n.id),
    getElem?_foldl_modify _ hnd]

theorem getElem?_link_roots (net : Network) (n : Node) (key : RootKey) :
    (net.link n).roots[key]? =
      if n.kind.rootKey? = some key then some n.id else net.roots[key]? := by
  unfold link
  cases hk : n.kind.rootKey? with
  | none => simp
  | some k =>
    simp only [Std.ExtTreeMap.getElem?_insert, Std.compare_eq_iff_eq, Option.some.injEq]

/-- A node after another one has been hung up: it is the new one, or it was
    there. -/
theorem Fits.link_cases (hf : net.Fits n) (hm : (net.link n).nodes[x]? = some m) :
    (x = n.id ∧ m = n) ∨ ∃ m₀, net.nodes[x]? = some m₀ ∧ m₀.id = m.id ∧ m₀.kind = m.kind ∧
      m = if x ∈ net.parentsOf n.kind then m₀.addSink n.id else m₀ := by
  rw [getElem?_link_nodes hf.parents_nodup] at hm
  split at hm
  · cases hm
    exact .inl ⟨‹_›, rfl⟩
  split at hm
  · obtain ⟨m₀, h₀, rfl⟩ := Option.map_eq_some_iff.1 hm
    exact .inr ⟨m₀, h₀, rfl, rfl, (if_pos ‹_›).symm⟩
  · exact .inr ⟨m, hm, rfl, rfl, (if_neg ‹_›).symm⟩

theorem Fits.exists_link (hf : net.Fits n) (hm : net.nodes[x]? = some m) :
    ∃ m', (net.link n).nodes[x]? = some m' ∧ m'.kind = m.kind := by
  have hx : x ≠ n.id := by rintro rfl; rw [hf.fresh] at hm; cases hm
  rw [getElem?_link_nodes hf.parents_nodup, if_neg hx]
  split
  · exact ⟨m.addSink n.id, by rw [hm]; rfl, rfl⟩
  · exact ⟨m, hm, rfl⟩

theorem Fits.getElem?_link_self (hf : net.Fits n) : (net.link n).nodes[n.id]? = some n := by
  rw [getElem?_link_nodes hf.parents_nodup, if_pos rfl]

/-- Hanging up a node moves no root that is there. -/
theorem Fits.roots_link (hf : net.Fits n) (hp : net.roots[key]? = some p) :
    (net.link n).roots[key]? = some p := by
  rw [getElem?_link_roots, if_neg, hp]
  intro hk
  rw [hf.root key hk] at hp
  cases hp

section Link
variable (h : net.Wired) (hf : net.Fits n)
include h hf

theorem Wired.link_source (hm : (net.link n).nodes[x]? = some m) {s : NodeId}
    (hs : s ∈ m.kind.sources) : ∃ k, net.nodes[s]? = some k := by
  obtain ⟨rfl, rfl⟩ | ⟨m₀, h₀, -, hkind, -⟩ := hf.link_cases hm
  · exact hf.source s hs
  · exact h.source h₀ s (hkind ▸ hs)

theorem Wired.link_parent (hm : (net.link n).nodes[x]? = some m) (hk : m.kind.parentKey? = some key) :
    ∃ p, net.roots[key]? = some p := by
  obtain ⟨rfl, rfl⟩ | ⟨m₀, h₀, -, hkind, -⟩ := hf.link_cases hm
  · exact hf.parent key hk
  · exact h.parent h₀ (hkind ▸ hk)

/-- What a node hangs below is what it would have hung below before. -/
theorem Wired.link_parentsOf (hm : (net.link n).nodes[x]? = some m) :
    (net.link n).parentsOf m.kind = net.parentsOf m.kind := by
  unfold parentsOf
  cases hkey : m.kind.parentKey? with
  | none => rfl
  | some key =>
    obtain ⟨p, hp⟩ := h.link_parent hf hm hkey
    simp only [Option.bind_some, hp, hf.roots_link hp]

theorem Wired.link_parent_mem (hm : (net.link n).nodes[x]? = some m)
    (hp : p ∈ net.parentsOf m.kind) : ∃ k, net.nodes[p]? = some k := by
  rcases mem_parentsOf.1 hp with hp | ⟨key, -, hp⟩
  · exact h.link_source hf hm hp
  · obtain ⟨k, hk, -⟩ := h.roots_iff.1 hp
    exact ⟨k, hk⟩

theorem Wired.link_not_mem_sinks (hm : net.nodes[p]? = some m) : n.id ∉ m.sinks := fun hx => by
  obtain ⟨k, hk⟩ := h.sink_mem hm hx
  rw [hf.fresh] at hk
  cases hk

theorem Wired.link_mem_sinks (hm : (net.link n).nodes[p]? = some m) (x : NodeId) :
    x ∈ m.sinks ↔ ∃ k, (net.link n).nodes[x]? = some k ∧ p ∈ (net.link n).parentsOf k.kind := by
  obtain ⟨rfl, rfl⟩ | ⟨m₀, h₀, -, -, rfl⟩ := hf.link_cases hm
  · -- the new node's number is none of those that nodes hang below
    rw [hf.bare]
    refine iff_of_false List.not_mem_nil ?_
    rintro ⟨k, hk, hp⟩
    rw [h.link_parentsOf hf hk] at hp
    obtain ⟨k', hk'⟩ := h.link_parent_mem hf hk hp
    rw [hf.fresh] at hk'
    cases hk'
  · have hfresh := h.link_not_mem_sinks hf h₀
    by_cases hx : x = n.id
    · subst hx
      have hself := hf.getElem?_link_self
      rw [hself]
      simp only [Option.some.injEq, exists_eq_left', h.link_parentsOf hf hself]
      split
      · exact iff_of_true (by simp [Node.addSink]) ‹_›
      · exact iff_of_false hfresh ‹_›
    · have hsinks : x ∈ (if p ∈ net.parentsOf n.kind then m₀.addSink n.id else m₀).sinks ↔
          x ∈ m₀.sinks := by
        split <;> simp [Node.addSink, hx]
      rw [hsinks, h.mem_sinks h₀]
      constructor
      · rintro ⟨k₀, hk₀, hp⟩
        obtain ⟨k, hk, hkind⟩ := hf.exists_link hk₀
        exact ⟨k, hk, by rwa [h.link_parentsOf hf hk, hkind]⟩
      · rintro ⟨k, hk, hp⟩
        rw [h.link_parentsOf hf hk] at hp
        obtain ⟨rfl, -⟩ | ⟨k₀, hk₀, -, hkind, -⟩ := hf.link_cases hk
        · exact absurd rfl hx
        · exact ⟨k₀, hk₀, by rwa [hkind]⟩

/-- **A network stays wired when a node is hung up that fits.** -/
theorem Wired.link : (net.link n).Wired where
  counted := h.counted.link hf.fresh
  id_eq {x m} hm := by
    obtain ⟨rfl, rfl⟩ | ⟨m₀, h₀, hid, -, -⟩ := hf.link_cases hm
    · rfl
    · rw [← hid, h.id_eq h₀]
  roots_iff {key x} := by
    constructor
    · rw [getElem?_link_roots]
      split
      · rintro ⟨⟩
        exact ⟨n, hf.getElem?_link_self, ‹_›⟩
      · intro hx
        obtain ⟨m₀, h₀, hk⟩ := h.roots_iff.1 hx
        obtain ⟨m, hm, hkind⟩ := hf.exists_link h₀
        exact ⟨m, hm, by rw [hkind, hk]⟩
    · rintro ⟨m, hm, hk⟩
      obtain ⟨rfl, rfl⟩ | ⟨m₀, h₀, -, hkind, -⟩ := hf.link_cases hm
      · rw [getElem?_link_roots, if_pos hk]
      · exact hf.roots_link (h.roots_iff.2 ⟨m₀, h₀, by rw [hkind, hk]⟩)
  source {x m} hm s hs := by
    obtain ⟨k₀, hk₀⟩ := h.link_source hf hm hs
    obtain ⟨k, hk, -⟩ := hf.exists_link hk₀
    exact ⟨k, hk⟩
  parent {x m key} hm hk := by
    obtain ⟨p, hp⟩ := h.link_parent hf hm hk
    exact ⟨p, hf.roots_link hp⟩
  parents_nodup {x m} hm := by
    rw [h.link_parentsOf hf hm]
    obtain ⟨rfl, rfl⟩ | ⟨m₀, h₀, -, hkind, -⟩ := hf.link_cases hm
    · exact hf.parents_nodup
    · rw [← hkind]
      exact h.parents_nodup h₀
  sinks_nodup {x m} hm := by
    obtain ⟨rfl, rfl⟩ | ⟨m₀, h₀, -, -, rfl⟩ := hf.link_cases hm
    · rw [hf.bare]
      exact List.nodup_nil
    · split
      · refine List.nodup_append'.2 ⟨h.sinks_nodup h₀, List.nodup_singleton _, ?_⟩
        exact List.disjoint_singleton.2 (h.link_not_mem_sinks hf h₀)
      · exact h.sinks_nodup h₀
  mem_sinks hm x := h.link_mem_sinks hf hm x

end Link

/-! ## Taking down a node -/

theorem getElem?_unlink_roots (net : Network) (n : Node) (key : RootKey) :
    (net.unlink n).roots[key]? = if n.kind.rootKey? = some key then none else net.roots[key]? := by
  unfold unlink
  cases hk : n.kind.rootKey? with
  | none => simp
  | some k =>
    simp only [Std.ExtTreeMap.getElem?_erase, Std.compare_eq_iff_eq, Option.some.injEq]

/-- A node with nothing below it can be removed. -/
theorem remove_eq (hn : net.nodes[x]? = some n) (hbare : n.sinks = []) :
    net.remove x = .ok (n, net.unlink n) := by
  simp only [remove, require, hn, bind, Except.bind, hbare, List.isEmpty_nil, if_true]
  rfl

section Unlink
variable (h : net.Wired) (hn : net.nodes[x]? = some n)
include h hn

theorem Wired.getElem?_unlink_nodes (y : NodeId) :
    (net.unlink n).nodes[y]? = if y = x then none else net.nodes[y]?.map (·.dropSink x) := by
  obtain rfl := h.id_eq hn
  simp only [unlink, getElem?_foldl_modify _ (h.parents_nodup hn), Std.ExtTreeMap.getElem?_erase,
    Std.compare_eq_iff_eq, eq_comm (a := n.id)]
  by_cases hy : y = n.id
  · simp [hy]
  · simp only [hy, if_false]
    split
    · rfl
    · rename_i hpar
      cases hm : net.nodes[y]? with
      | none => rfl
      | some m =>
        -- nothing changes on a node that is no parent of the one taken down
        have : n.id ∉ m.sinks := fun hs => by
          obtain ⟨n', hn', hp⟩ := (h.mem_sinks hm n.id).1 hs
          obtain rfl : n = n' := Option.some.inj (hn.symm.trans hn')
          exact hpar hp
        rw [Option.map_some, Node.dropSink_of_not_mem this]

theorem Wired.unlink_cases (hm : (net.unlink n).nodes[y]? = some m) :
    y ≠ x ∧ ∃ m₀, net.nodes[y]? = some m₀ ∧ m = m₀.dropSink x := by
  rw [h.getElem?_unlink_nodes hn] at hm
  split at hm
  · cases hm
  · obtain ⟨m₀, h₀, rfl⟩ := Option.map_eq_some_iff.1 hm
    exact ⟨‹_›, m₀, h₀, rfl⟩

theorem Wired.getElem?_unlink_of_ne (hy : y ≠ x) (hm : net.nodes[y]? = some m) :
    (net.unlink n).nodes[y]? = some (m.dropSink x) := by
  rw [h.getElem?_unlink_nodes hn, if_neg hy, hm]
  rfl

variable (hbare : n.sinks = [])
include hbare

theorem Wired.not_parent_of_bare (hm : net.nodes[y]? = some m) : x ∉ net.parentsOf m.kind := by
  intro hp
  have hy := (h.mem_sinks hn y).2 ⟨m, hm, hp⟩
  rw [hbare] at hy
  exact List.not_mem_nil hy

/-- A node with nothing below it is no root that another node hangs below. -/
theorem Wired.unlink_parent (hm : net.nodes[y]? = some m) (hk : m.kind.parentKey? = some key) :
    (net.unlink n).roots[key]? = net.roots[key]? := by
  rw [getElem?_unlink_roots, if_neg]
  intro hroot
  refine h.not_parent_of_bare hn hbare hm (mem_parentsOf.2 (Or.inr ⟨key, hk, ?_⟩))
  exact h.roots_iff.2 ⟨n, hn, hroot⟩

theorem Wired.unlink_parentsOf (hm : net.nodes[y]? = some m) :
    (net.unlink n).parentsOf m.kind = net.parentsOf m.kind := by
  unfold parentsOf
  cases hk : m.kind.parentKey? with
  | none => rfl
  | some key => simp only [Option.bind_some, h.unlink_parent hn hbare hm hk]

theorem Wired.unlink_mem_sinks (hm : (net.unlink n).nodes[p]? = some m) (y : NodeId) :
    y ∈ m.sinks ↔ ∃ k, (net.unlink n).nodes[y]? = some k ∧ p ∈ (net.unlink n).parentsOf k.kind := by
  obtain ⟨hp, m₀, h₀, rfl⟩ := h.unlink_cases hn hm
  rw [Node.dropSink_sinks, List.mem_filter, h.mem_sinks h₀, decide_eq_true_eq]
  constructor
  · rintro ⟨⟨k₀, hk₀, hpar⟩, hy⟩
    exact ⟨_, h.getElem?_unlink_of_ne hn hy hk₀, (h.unlink_parentsOf hn hbare hk₀).symm ▸ hpar⟩
  · rintro ⟨k, hk, hpar⟩
    obtain ⟨hy, k₀, hk₀, rfl⟩ := h.unlink_cases hn hk
    rw [Node.dropSink_kind, h.unlink_parentsOf hn hbare hk₀] at hpar
    exact ⟨⟨k₀, hk₀, hpar⟩, hy⟩

/-- **A network stays wired when a node with nothing below it is taken down.** -/
theorem Wired.unlink : (net.unlink n).Wired where
  counted := by
    obtain rfl := h.id_eq hn
    exact h.counted.unlink hn
  id_eq {y m} hm := by
    obtain ⟨-, m₀, h₀, rfl⟩ := h.unlink_cases hn hm
    exact (h.id_eq h₀ :)
  roots_iff {key y} := by
    rw [getElem?_unlink_roots]
    constructor
    · split
      · intro hy
        cases hy
      · intro hy
        obtain ⟨m₀, h₀, hk⟩ := h.roots_iff.1 hy
        refine ⟨_, h.getElem?_unlink_of_ne hn ?_ h₀, hk⟩
        rintro rfl
        obtain rfl : n = m₀ := Option.some.inj (hn.symm.trans h₀)
        contradiction
    · rintro ⟨m, hm, hk⟩
      obtain ⟨hy, m₀, h₀, rfl⟩ := h.unlink_cases hn hm
      have hroot := h.roots_iff.2 ⟨m₀, h₀, hk⟩
      rw [if_neg, hroot]
      intro hkey
      rw [h.roots_iff.2 ⟨n, hn, hkey⟩] at hroot
      exact hy (Option.some.inj hroot).symm
  source {y m} hm s hs := by
    obtain ⟨hy, m₀, h₀, rfl⟩ := h.unlink_cases hn hm
    obtain ⟨k, hk⟩ := h.source h₀ s hs
    refine ⟨_, h.getElem?_unlink_of_ne hn ?_ hk⟩
    rintro rfl
    exact h.not_parent_of_bare hn hbare h₀ (mem_parentsOf.2 (Or.inl hs))
  parent {y m key} hm hk := by
    obtain ⟨hy, m₀, h₀, rfl⟩ := h.unlink_cases hn hm
    rw [h.unlink_parent hn hbare h₀ hk]
    exact h.parent h₀ hk
  parents_nodup {y m} hm := by
    obtain ⟨hy, m₀, h₀, rfl⟩ := h.unlink_cases hn hm
    rw [Node.dropSink_kind, h.unlink_parentsOf hn hbare h₀]
    exact h.parents_nodup h₀
  sinks_nodup {y m} hm := by
    obtain ⟨hy, m₀, h₀, rfl⟩ := h.unlink_cases hn hm
    exact (h.sinks_nodup h₀).filter _
  mem_sinks hm y := h.unlink_mem_sinks hn hbare hm y

end Unlink

end Network

end RuleNet
