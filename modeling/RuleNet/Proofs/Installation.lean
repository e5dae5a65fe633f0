/-
  RuleNet — rules built into a network.

  An installation is a rule's series of requests together with the node that
  each of them got.  An installation stands in a network if every request got a
  node that does what was asked for (`Network.Stands`), whoever else uses it.

  A network houses some installations if they stand in it, every node is used by
  just the rules that got it (`owners`) and keeps facts for those alone
  (`demanded`), nodes that may be shared do not stand there twice (`maximal`),
  and nodes that may not be shared serve one request (`alone`) and are just what
  was asked for (`made`).  Whoever asks again for what may be shared gets the
  same node (`chosen`).  It heeds the installations if each node keeps facts for
  just as long as the rules asked for (`Network.Heeds`).

  A rule that uses a node uses the nodes above it, and got them before
  (`parents_before`).
-/
import RuleNet.Proofs.Choosing
import RuleNet.Proofs.Longest

namespace RuleNet

/-- A rule built into a network. -/
structure Installation where
  steps : List Request
  /-- The node that each request got. -/
  nodes : List NodeId

namespace Installation

/-- The node that a step got. -/
def nodeAt (I : Installation) (i : Nat) : NodeId := I.nodes.getD i 0

/-- The kind of node that a request asks for, in terms of the network. -/
def wanted (I : Installation) (rule : RuleId) (q : Request) : NodeKind :=
  q.kind.map I.nodeAt fun _ => rule

/-- How long the rule wants the facts of a node kept: the longest time that it
    asked for when it got the node. -/
def demand (I : Installation) (x : NodeId) : Option Expiration :=
  Expiration.longest?
    ((I.steps.zip I.nodes).filterMap fun (q, y) => if y = x then q.expiration? else none)

/-- The installation before any request. -/
def empty : Installation := ⟨[], []⟩

/-- One more request got a node. -/
def snoc (I : Installation) (q : Request) (x : NodeId) : Installation :=
  ⟨I.steps ++ [q], I.nodes ++ [x]⟩

variable {I : Installation} {q p : Request} {x y : NodeId} {i : Nat} {rule : RuleId}

theorem nodeAt_eq (h : I.nodes[i]? = some x) : I.nodeAt i = x := by
  rw [nodeAt, List.getD_eq_getElem?_getD, h]; rfl

theorem getElem?_nodeAt (h : i < I.nodes.length) : I.nodes[i]? = some (I.nodeAt i) := by
  rw [nodeAt, List.getD_eq_getElem?_getD, List.getElem?_eq_getElem h]; rfl

theorem nodeAt_snoc (h : i < I.nodes.length) : (I.snoc q x).nodeAt i = I.nodeAt i := by
  refine nodeAt_eq ?_
  rw [snoc, List.getElem?_append_left h, getElem?_nodeAt h]

/-- Later steps do not change what an earlier one asked for. -/
theorem wanted_snoc (h : ∀ s ∈ p.kind.sources, s < I.nodes.length) :
    (I.snoc q x).wanted rule p = I.wanted rule p :=
  NodeKind.map_congr fun s hs => nodeAt_snoc (h s hs)

@[simp] theorem rootKey?_wanted : (I.wanted rule q).rootKey? = q.kind.rootKey? :=
  NodeKind.rootKey?_map

@[simp] theorem shares_wanted (config : Config) :
    config.shares (I.wanted rule q) = config.shares q.kind :=
  Config.shares_map

@[simp] theorem demand_empty (x : NodeId) : empty.demand x = none := rfl

theorem demand_snoc (hlen : I.nodes.length = I.steps.length) :
    (I.snoc q x).demand y = if y = x then
      q.expiration?.elim (I.demand y) (Expiration.mergeInto (I.demand y)) else I.demand y := by
  unfold demand snoc
  rw [List.zip_append hlen.symm, List.filterMap_append]
  by_cases hy : y = x
  · subst hy
    cases he : q.expiration? with
    | none => simp [he]
    | some e =>
      simpa [List.filterMap_cons, he] using Expiration.longest?_append_singleton _ e
  · simp [hy, Ne.symm hy]

/-- A root that is asked for keeps facts as configured. -/
theorem wanted_memory {memory m : Bool} {entry : EntryPoint} {type : Symbol}
    (hq : q.Follows memory I.steps) (hk : I.wanted rule q = .objectType entry type m) :
    m = memory := by
  rw [wanted] at hk
  cases hk' : q.kind <;> rw [hk'] at hk <;> cases hk
  exact hq.memory _ _ _ hk'

/-- A join that is asked for is noted as a cross product if none of its tests
    counts. -/
theorem wanted_cross {memory : Bool} {j : Join} (hq : q.Follows memory I.steps)
    (hk : I.wanted rule q = .join j) : ∃ g, j.crossProduct = JoinTest.noneCounts g j.tests := by
  rw [wanted] at hk
  cases hk' : q.kind <;> rw [hk'] at hk <;> cases hk
  have hcross := hq.cross _ hk'
  exact ⟨q.guardsOut, hcross⟩

theorem demand_eq_none (h : x ∉ I.nodes) : I.demand x = none := by
  refine Expiration.longest?_eq_none_iff.2 (List.filterMap_eq_nil_iff.2 ?_)
  rintro ⟨q, y⟩ hy
  refine if_neg ?_
  rintro rfl
  exact h (List.of_mem_zip hy).2

end Installation

theorem getElem?_concat_cases {α : Type} {l : List α} {a b : α} {i : Nat}
    (h : (l ++ [a])[i]? = some b) : l[i]? = some b ∨ (i = l.length ∧ b = a) := by
  rw [List.getElem?_append] at h
  split at h
  · exact Or.inl h
  · have hi : i - l.length = 0 := by
      by_contra h0
      rw [List.getElem?_eq_none (by simp; omega)] at h
      cases h
    rw [hi] at h
    exact Or.inr ⟨by omega, (Option.some.inj h).symm⟩

/-! ## Installations that stand in a network -/

/-- A rule is built into a network. -/
structure Network.Stands (net : Network) (config : Config) (rule : RuleId) (I : Installation) :
    Prop where
  wired : net.Wired
  /-- Every request got a node. -/
  lengths : I.nodes.length = I.steps.length
  /-- Requests stand in order. -/
  orderly : Orderly config.objectTypeMemory I.steps
  /-- Every request got a node that does what was asked for. -/
  placed : ∀ {i : Nat} {q : Request} {x : NodeId}, I.steps[i]? = some q → I.nodes[i]? = some x →
    ∃ n, net.nodes[x]? = some n ∧ n.kind.serves q.guardsOut (I.wanted rule q)
  /-- Roots keep facts as configured. -/
  memory : ∀ {x : NodeId} {n : Node} {entry : EntryPoint} {type : Symbol} {m : Bool},
    net.nodes[x]? = some n → n.kind = .objectType entry type m → m = config.objectTypeMemory

namespace Network.Stands

variable {net : Network} {config : Config} {rule : RuleId} {I : Installation}
variable {x y p : NodeId} {n : Node} {i : Nat} {q o : Request}
variable (h : net.Stands config rule I)
include h

theorem step_of_node (hx : I.nodes[i]? = some x) : ∃ q, I.steps[i]? = some q := by
  have hi := (List.getElem?_eq_some_iff.1 hx).1
  rw [h.lengths] at hi
  exact ⟨_, List.getElem?_eq_getElem hi⟩

theorem node_of_step (hq : I.steps[i]? = some q) : I.nodes[i]? = some (I.nodeAt i) := by
  have hi := (List.getElem?_eq_some_iff.1 hq).1
  rw [← h.lengths] at hi
  exact Installation.getElem?_nodeAt hi

/-- A source of a step got its node before the step. -/
theorem source_before (hq : I.steps[i]? = some q) {s : NodeId} (hs : s ∈ q.kind.sources) :
    s < i ∧ I.nodes[s]? = some (I.nodeAt s) := by
  have hsi := h.orderly.source_lt hq hs
  refine ⟨hsi, Installation.getElem?_nodeAt (lt_trans hsi ?_)⟩
  rw [h.lengths]
  exact (List.getElem?_eq_some_iff.1 hq).1

/-- A rule gets a node after the nodes that it hangs below. -/
theorem parents_before (hx : I.nodes[i]? = some x) (hn : net.nodes[x]? = some n)
    (hp : p ∈ net.parentsOf n.kind) : p ∈ I.nodes.take i := by
  obtain ⟨q, hq⟩ := h.step_of_node hx
  obtain ⟨n', hn', hserves⟩ := h.placed hq hx
  obtain rfl : n = n' := Option.some.inj (hn.symm.trans hn')
  rw [NodeKind.parentsOf_eq_of_serves hserves, mem_parentsOf] at hp
  rcases hp with hp | ⟨key, hkey, hp⟩
  · rw [Installation.wanted, NodeKind.sources_map, List.mem_map] at hp
    obtain ⟨s, hs, rfl⟩ := hp
    obtain ⟨hlt, hnode⟩ := h.source_before hq hs
    refine List.mem_iff_getElem?.2 ⟨s, ?_⟩
    rw [List.getElem?_take_of_lt hlt, hnode]
  · rw [Installation.wanted, NodeKind.parentKey?_map] at hkey
    obtain ⟨p', hp', hroot⟩ := (h.orderly i q hq).parent key hkey
    obtain ⟨j, hj⟩ := List.mem_iff_getElem?.1 hp'
    have hji : j < i := by
      have := (List.getElem?_eq_some_iff.1 hj).1
      rw [List.length_take] at this
      exact lt_of_lt_of_le this (min_le_left _ _)
    rw [List.getElem?_take_of_lt hji] at hj
    have hnode := h.node_of_step hj
    obtain ⟨m, hm, hserves'⟩ := h.placed hj hnode
    have hkey' : m.kind.rootKey? = some key := by
      rw [NodeKind.rootKey?_eq_of_serves hserves', Installation.wanted, NodeKind.rootKey?_map, hroot]
    obtain rfl : p = I.nodeAt j :=
      Option.some.inj (hp.symm.trans (h.wired.roots_iff.2 ⟨m, hm, hkey'⟩))
    refine List.mem_iff_getElem?.2 ⟨j, ?_⟩
    rw [List.getElem?_take_of_lt hji, hnode]

theorem wanted_snoc (hq : I.steps[i]? = some q) :
    (I.snoc o x).wanted rule q = I.wanted rule q :=
  Installation.wanted_snoc fun _ hs => (List.getElem?_eq_some_iff.1 (h.source_before hq hs).2).1

theorem wanted_snoc_self (hq : q.Follows config.objectTypeMemory I.steps) :
    (I.snoc q x).wanted rule q = I.wanted rule q := by
  refine Installation.wanted_snoc fun s hs => ?_
  rw [NodeKind.sources_eq_inputs, List.mem_map] at hs
  obtain ⟨i, hi, rfl⟩ := hs
  obtain ⟨p, hp, -⟩ := hq.input i hi
  rw [h.lengths]
  exact (List.getElem?_eq_some_iff.1 hp).1

/-- A step and its node are the new ones, or they were there before. -/
theorem snoc_cases (hq : (I.snoc o x).steps[i]? = some q) (hy : (I.snoc o x).nodes[i]? = some y) :
    (I.steps[i]? = some q ∧ I.nodes[i]? = some y) ∨ (i = I.steps.length ∧ q = o ∧ y = x) := by
  have hlen := h.lengths
  rcases getElem?_concat_cases hq with hq | ⟨rfl, rfl⟩
  · rcases getElem?_concat_cases hy with hy | ⟨rfl, -⟩
    · exact Or.inl ⟨hq, hy⟩
    · rw [hlen, List.getElem?_eq_none le_rfl] at hq; cases hq
  · rcases getElem?_concat_cases hy with hy | ⟨-, rfl⟩
    · rw [List.getElem?_eq_none hlen.le] at hy; cases hy
    · exact Or.inr ⟨rfl, rfl, rfl⟩

end Network.Stands

/-! ## Networks that house installations -/

/-- Some rules are built into a network, and nothing else is. -/
structure Network.Houses (net : Network) (config : Config)
    (inst : RuleId → Option Installation) : Prop where
  wired : net.Wired
  /-- Every request got a node. -/
  lengths : ∀ {r : RuleId} {I : Installation}, inst r = some I →
    I.nodes.length = I.steps.length
  /-- Requests stand in order. -/
  orderly : ∀ {r : RuleId} {I : Installation}, inst r = some I →
    Orderly config.objectTypeMemory I.steps
  /-- Every request got a node that does what was asked for. -/
  placed : ∀ {r : RuleId} {I : Installation} {i : Nat} {q : Request} {x : NodeId},
    inst r = some I → I.steps[i]? = some q → I.nodes[i]? = some x →
      ∃ n, net.nodes[x]? = some n ∧ n.kind.serves q.guardsOut (I.wanted r q)
  /-- A node is used by the rules that got it. -/
  owners : ∀ {x : NodeId} {n : Node}, net.nodes[x]? = some n → ∀ r : RuleId,
    r ∈ n.rules ↔ ∃ I, inst r = some I ∧ x ∈ I.nodes
  /-- Only roots stay when no rule uses them. -/
  used : ∀ {x : NodeId} {n : Node}, net.nodes[x]? = some n → n.kind.rootKey? = none →
    ∃ r, r ∈ n.rules
  /-- Only a rule that uses a node demands that it keep facts. -/
  demanded : ∀ {x : NodeId} {n : Node}, net.nodes[x]? = some n → ∀ r : RuleId,
    r ∉ n.rules → n.retention.demands[r]? = none
  /-- The longest demand counts. -/
  totalled : ∀ {x : NodeId} {n : Node}, net.nodes[x]? = some n → n.retention.Totalled
  /-- Roots keep facts as configured. -/
  memory : ∀ {x : NodeId} {n : Node} {entry : EntryPoint} {type : Symbol} {m : Bool},
    net.nodes[x]? = some n → n.kind = .objectType entry type m → m = config.objectTypeMemory
  /-- A join is noted as a cross product if none of its tests counts. -/
  cross : ∀ {x : NodeId} {n : Node} {j : Join}, net.nodes[x]? = some n → n.kind = .join j →
    ∃ g, j.crossProduct = JoinTest.noneCounts g j.tests
  /-- No two nodes that may be shared do the same work. -/
  maximal : ∀ {x y : NodeId} {n m : Node}, net.nodes[x]? = some n → net.nodes[y]? = some m →
    config.shares n.kind → n.kind.serves false m.kind → x = y
  /-- A node that may not be shared serves one request. -/
  alone : ∀ {r r' : RuleId} {I I' : Installation} {i j : Nat} {q : Request} {x : NodeId},
    inst r = some I → inst r' = some I' → I.steps[i]? = some q → ¬ config.shares q.kind →
      I.nodes[i]? = some x → I'.nodes[j]? = some x → r = r' ∧ i = j
  /-- Who asks again for what may be shared gets the same node. -/
  chosen : ∀ {r : RuleId} {I : Installation} {i : Nat} {q : Request} {x : NodeId},
    inst r = some I → I.steps[i]? = some q → I.nodes[i]? = some x → config.shares q.kind →
      net.existing config q.guardsOut (I.wanted r q) = some x
  /-- A node that may not be shared is just what was asked for. -/
  made : ∀ {r : RuleId} {I : Installation} {i : Nat} {q : Request} {x : NodeId} {n : Node},
    inst r = some I → I.steps[i]? = some q → I.nodes[i]? = some x → ¬ config.shares q.kind →
      net.nodes[x]? = some n → n.kind = I.wanted r q

namespace Network

variable {net : Network} {config : Config} {inst : RuleId → Option Installation}
variable {r : RuleId} {I : Installation} {x p : NodeId} {n : Node} {i : Nat} {q : Request}

theorem houses_empty (config : Config) : empty.Houses config fun _ => none where
  wired := wired_empty
  lengths h := by cases h
  orderly h := by cases h
  placed h := by cases h
  owners h := by simp [empty] at h
  used h := by simp [empty] at h
  demanded h := by simp [empty] at h
  totalled h := by simp [empty] at h
  memory h := by simp [empty] at h
  cross h := by simp [empty] at h
  maximal h := by simp [empty] at h
  alone h := by cases h
  chosen h := by cases h
  made h := by cases h

namespace Houses
variable (h : net.Houses config inst)
include h

/-- Each of the installations stands in the network. -/
theorem stands (hI : inst r = some I) : net.Stands config r I where
  wired := h.wired
  lengths := h.lengths hI
  orderly := h.orderly hI
  placed := h.placed hI
  memory := h.memory

theorem step_of_node (hI : inst r = some I) (hx : I.nodes[i]? = some x) :
    ∃ q, I.steps[i]? = some q :=
  (h.stands hI).step_of_node hx

theorem node_of_step (hI : inst r = some I) (hq : I.steps[i]? = some q) :
    I.nodes[i]? = some (I.nodeAt i) :=
  (h.stands hI).node_of_step hq

/-- The nodes that a rule got are there, and the rule uses them. -/
theorem exists_node (hI : inst r = some I) (hx : x ∈ I.nodes) :
    ∃ n, net.nodes[x]? = some n ∧ r ∈ n.rules := by
  obtain ⟨i, hi⟩ := List.mem_iff_getElem?.1 hx
  obtain ⟨q, hq⟩ := h.step_of_node hI hi
  obtain ⟨n, hn, -⟩ := h.placed hI hq hi
  exact ⟨n, hn, (h.owners hn r).2 ⟨I, hI, hx⟩⟩

/-- A source of a step got its node before the step. -/
theorem source_before (hI : inst r = some I) (hq : I.steps[i]? = some q) {s : NodeId}
    (hs : s ∈ q.kind.sources) : s < i ∧ I.nodes[s]? = some (I.nodeAt s) :=
  (h.stands hI).source_before hq hs

/-- A rule gets a node after the nodes that it hangs below. -/
theorem parents_before (hI : inst r = some I) (hx : I.nodes[i]? = some x)
    (hn : net.nodes[x]? = some n) (hp : p ∈ net.parentsOf n.kind) : p ∈ I.nodes.take i :=
  (h.stands hI).parents_before hx hn hp

/-- A rule that uses a node uses the nodes that it hangs below. -/
theorem uses_parent (hn : net.nodes[x]? = some n) (hr : r ∈ n.rules) (hp : p ∈ net.parentsOf n.kind) :
    ∃ m, net.nodes[p]? = some m ∧ r ∈ m.rules := by
  obtain ⟨I, hI, hx⟩ := (h.owners hn r).1 hr
  obtain ⟨i, hi⟩ := List.mem_iff_getElem?.1 hx
  exact h.exists_node hI (List.mem_of_mem_take (h.parents_before hI hi hn hp))

end Houses

end Network

/-! ## One more request -/

/-- What the nodes around a node do not change: what it does, who uses it and
    how long it keeps facts. -/
def Node.core (n : Node) : NodeKind × Std.ExtTreeSet RuleId × Retention :=
  (n.kind, n.rules, n.retention)

/-- What becomes of a network when a request of `rule` gets the node `x`, which
    is `n` afterwards. -/
structure Network.Gains (net net' : Network) (config : Config) (rule : RuleId) (I : Installation)
    (q : Request) (x : NodeId) (n : Node) : Prop where
  wired : net'.Wired
  /-- Other nodes change their sinks only. -/
  frame : ∀ y : NodeId, y ≠ x → net'.nodes[y]?.map Node.core = net.nodes[y]?.map Node.core
  node : net'.nodes[x]? = some n
  /-- It does what was asked for. -/
  serves : n.kind.serves q.guardsOut (I.wanted rule q)
  /-- If it was there before, it did the same, and it may be shared. -/
  before : ∀ m, net.nodes[x]? = some m → m.kind = n.kind ∧ config.shares q.kind
  /-- It is used by the rule as well. -/
  rules : ∀ r : RuleId, r ∈ n.rules ↔ r = rule ∨ ∃ m, net.nodes[x]? = some m ∧ r ∈ m.rules
  /-- It keeps facts for the rule as well. -/
  demands : ∀ r : RuleId, n.retention.demands[r]? =
    let before := net.nodes[x]?.bind (·.retention.demands[r]?)
    if r = rule then q.expiration?.elim before (Expiration.mergeInto before) else before
  totalled : (∀ m, net.nodes[x]? = some m → m.retention.Totalled) → n.retention.Totalled
  /-- If it was not there before, it is just what was asked for, and no other
      node does the same work. -/
  fresh : net.nodes[x]? = none → n.kind = I.wanted rule q ∧
    ∀ (y : NodeId) (m : Node), net.nodes[y]? = some m → config.shares n.kind →
      ¬ n.kind.serves false m.kind
  /-- Sinks keep their order. -/
  evolves : net.Evolves net'
  /-- Who asks again gets the same node, if it may be shared. -/
  chosen : config.shares q.kind → net'.existing config q.guardsOut (I.wanted rule q) = some x

namespace Network

section Gains
variable {net net' : Network} {config : Config} {inst : RuleId → Option Installation}
variable {rule r : RuleId} {I J : Installation} {q p : Request} {x y z : NodeId} {n m m' : Node}
variable {i : Nat}

theorem core_eq {o o' : Option Node} (h : o'.map Node.core = o.map Node.core) (hn : o' = some n) :
    ∃ m, o = some m ∧ n.kind = m.kind ∧ n.rules = m.rules ∧ n.retention = m.retention := by
  rw [hn, Option.map_some] at h
  obtain ⟨m, hm, hcore⟩ := Option.map_eq_some_iff.1 h.symm
  simp only [Node.core, Prod.mk.injEq] at hcore
  exact ⟨m, hm, hcore.1.symm, hcore.2.1.symm, hcore.2.2.symm⟩

theorem mem_snoc_nodes : y ∈ (I.snoc q x).nodes ↔ y ∈ I.nodes ∨ y = x := by
  simp [Installation.snoc]

/-- The installations after one more request of `rule`. -/
theorem update_cases {K : Installation} (hr : Function.update inst rule (some K) r = some J) :
    (r = rule ∧ J = K) ∨ (r ≠ rule ∧ inst r = some J) := by
  by_cases h : r = rule
  · subst h
    rw [Function.update_self] at hr
    exact Or.inl ⟨rfl, (Option.some.inj hr).symm⟩
  · rw [Function.update_of_ne h] at hr
    exact Or.inr ⟨h, hr⟩

/-- The installations without that of `rule`. -/
theorem update_none_cases (hr : Function.update inst rule none r = some J) :
    r ≠ rule ∧ inst r = some J := by
  by_cases h : r = rule
  · subst h
    rw [Function.update_self] at hr
    cases hr
  · rw [Function.update_of_ne h] at hr
    exact ⟨h, hr⟩

variable (h : net.Houses config inst) (hI : inst rule = some I)
variable (hg : net.Gains net' config rule I q x n)

section
include hg

/-- The node is the given one, and any other was there before. -/
theorem Gains.node_cases (hm : net'.nodes[y]? = some m) :
    (y = x ∧ m = n) ∨ (y ≠ x ∧ ∃ m₀, net.nodes[y]? = some m₀ ∧ m.kind = m₀.kind ∧
      m.rules = m₀.rules ∧ m.retention = m₀.retention) := by
  by_cases hy : y = x
  · subst hy
    exact Or.inl ⟨rfl, Option.some.inj (hm.symm.trans hg.node)⟩
  · exact Or.inr ⟨hy, core_eq (hg.frame y hy) hm⟩

/-- A node that was there before still does the same. -/
theorem Gains.keeps (hm : net.nodes[y]? = some m) :
    ∃ m', net'.nodes[y]? = some m' ∧ m'.kind = m.kind := by
  by_cases hy : y = x
  · subst hy
    exact ⟨n, hg.node, (hg.before m hm).1.symm⟩
  · obtain ⟨m', hm', hk, -, -⟩ := core_eq (hg.frame y hy).symm hm
    exact ⟨m', hm', hk.symm⟩

end

include hg in
/-- A node that may not be shared is new. -/
theorem Gains.new (hshares : ¬ config.shares q.kind) : net.nodes[x]? = none :=
  Option.eq_none_iff_forall_ne_some.2 fun m hm => hshares (hg.before m hm).2

include hg in
/-- The new node keeps facts as configured, if it is the root of a type. -/
theorem Gains.memory (hs : net.Stands config rule I) (hq : q.Follows config.objectTypeMemory I.steps)
    {entry : EntryPoint} {type : Symbol} {b : Bool} (hm : net'.nodes[y]? = some m)
    (hk : m.kind = .objectType entry type b) : b = config.objectTypeMemory := by
  obtain ⟨rfl, rfl⟩ | ⟨-, m₀, hm₀, hk₀, -, -⟩ := hg.node_cases hm
  · cases ho : net.nodes[y]? with
    | none => exact Installation.wanted_memory hq ((hg.fresh ho).1.symm.trans hk)
    | some o => exact hs.memory ho ((hg.before o ho).1.trans hk)
  · exact hs.memory hm₀ (hk₀ ▸ hk)

/-- **An installation stands in a network with one more request.** -/
theorem Stands.snoc (hs : net.Stands config rule I) (hg : net.Gains net' config rule I q x n)
    (hq : q.Follows config.objectTypeMemory I.steps) :
    net'.Stands config rule (I.snoc q x) where
  wired := hg.wired
  lengths := by simp [Installation.snoc, hs.lengths]
  orderly := hs.orderly.snoc hq
  placed hp hy := by
    rcases hs.snoc_cases hp hy with ⟨hp, hy⟩ | ⟨rfl, rfl, rfl⟩
    · obtain ⟨m, hm, hserves⟩ := hs.placed hp hy
      obtain ⟨m', hm', hk⟩ := hg.keeps hm
      exact ⟨m', hm', by rwa [hk, hs.wanted_snoc hp]⟩
    · exact ⟨n, hg.node, by rw [hs.wanted_snoc_self hq]; exact hg.serves⟩
  memory := hg.memory hs hq

include h hI

include hg

theorem Gains.placed (hq : q.Follows config.objectTypeMemory I.steps)
    (hJ : Function.update inst rule (some (I.snoc q x)) r = some J)
    (hp : J.steps[i]? = some p) (hy : J.nodes[i]? = some y) :
    ∃ m, net'.nodes[y]? = some m ∧ m.kind.serves p.guardsOut (J.wanted r p) := by
  obtain ⟨rfl, rfl⟩ | ⟨-, hJ⟩ := update_cases hJ
  · exact ((h.stands hI).snoc hg hq).placed hp hy
  · obtain ⟨m, hm, hserves⟩ := h.placed hJ hp hy
    obtain ⟨m', hm', hk⟩ := hg.keeps hm
    exact ⟨m', hm', by rwa [hk]⟩

theorem Gains.owners (hm : net'.nodes[y]? = some m) (r : RuleId) :
    r ∈ m.rules ↔ ∃ J, Function.update inst rule (some (I.snoc q x)) r = some J ∧ y ∈ J.nodes := by
  obtain ⟨rfl, rfl⟩ | ⟨hy, m₀, hm₀, -, hr, -⟩ := hg.node_cases hm
  · rw [hg.rules]
    by_cases hr : r = rule
    · subst hr
      exact iff_of_true (Or.inl rfl) ⟨_, Function.update_self .., mem_snoc_nodes.2 (Or.inr rfl)⟩
    · rw [Function.update_of_ne hr, or_iff_right hr]
      constructor
      · rintro ⟨o, ho, hro⟩
        exact (h.owners ho r).1 hro
      · rintro ⟨J, hJ, hy⟩
        exact h.exists_node hJ hy
  · rw [hr, h.owners hm₀ r]
    by_cases hrr : r = rule
    · subst hrr
      rw [Function.update_self, hI]
      simp [mem_snoc_nodes, hy]
    · rw [Function.update_of_ne hrr]

omit hI in
theorem Gains.demanded (hm : net'.nodes[y]? = some m) (r : RuleId) (hr : r ∉ m.rules) :
    m.retention.demands[r]? = none := by
  obtain ⟨rfl, rfl⟩ | ⟨-, m₀, hm₀, -, hrules, hret⟩ := hg.node_cases hm
  · rw [hg.rules, not_or, not_exists] at hr
    simp only [hg.demands, if_neg hr.1]
    cases ho : net.nodes[y]? with
    | none => rfl
    | some o => exact h.demanded ho r fun hro => hr.2 o ⟨ho, hro⟩
  · rw [hret]
    exact h.demanded hm₀ r (hrules ▸ hr)

omit hI in
theorem Gains.totalled_snoc (hm : net'.nodes[y]? = some m) : m.retention.Totalled := by
  obtain ⟨rfl, rfl⟩ | ⟨-, m₀, hm₀, -, -, hret⟩ := hg.node_cases hm
  · exact hg.totalled fun _ => h.totalled
  · rw [hret]
    exact h.totalled hm₀

omit hI in
theorem Gains.cross (hq : q.Follows config.objectTypeMemory I.steps) {j : Join}
    (hm : net'.nodes[y]? = some m) (hk : m.kind = .join j) :
    ∃ g, j.crossProduct = JoinTest.noneCounts g j.tests := by
  obtain ⟨rfl, rfl⟩ | ⟨-, m₀, hm₀, hk₀, -, -⟩ := hg.node_cases hm
  · cases ho : net.nodes[y]? with
    | none => exact Installation.wanted_cross hq ((hg.fresh ho).1.symm.trans hk)
    | some o => exact h.cross ho ((hg.before o ho).1.trans hk)
  · exact h.cross hm₀ (hk₀ ▸ hk)

omit hI in
/-- No other node does the same work. -/
theorem Gains.maximal (hm : net.nodes[y]? = some m) (hy : y ≠ x) (hshares : config.shares n.kind) :
    ¬ n.kind.serves false m.kind := by
  cases ho : net.nodes[x]? with
  | none => exact (hg.fresh ho).2 y m hm hshares
  | some o =>
    rw [← (hg.before o ho).1] at hshares ⊢
    exact fun hserves => hy (h.maximal ho hm hshares hserves).symm

omit hI in
theorem Gains.maximal_snoc (hm : net'.nodes[y]? = some m) (hm' : net'.nodes[z]? = some m')
    (hshare : config.shares m.kind) (hserves : m.kind.serves false m'.kind) : y = z := by
  obtain ⟨rfl, rfl⟩ | ⟨hy, m₀, hm₀, hk, -, -⟩ := hg.node_cases hm
  · obtain ⟨rfl, -⟩ | ⟨hz, m₁, hm₁, hk', -, -⟩ := hg.node_cases hm'
    · rfl
    · exact absurd (hk' ▸ hserves) (hg.maximal h hm₁ hz hshare)
  · obtain ⟨rfl, rfl⟩ | ⟨hz, m₁, hm₁, hk', -, -⟩ := hg.node_cases hm'
    · rw [config.shares_eq_of_serves hserves] at hshare
      exact absurd (NodeKind.serves_symm (hk ▸ hserves)) (hg.maximal h hm₀ hy hshare)
    · rw [hk] at hshare hserves
      exact h.maximal hm₀ hm₁ hshare (hk' ▸ hserves)

omit hI in
/-- A node that was there before serves no request alone. -/
theorem Gains.not_alone (hJ : inst r = some J) (hp : J.steps[i]? = some p)
    (hshare : ¬ config.shares p.kind) : J.nodes[i]? ≠ some x := by
  intro hx
  obtain ⟨m, hm, hserves⟩ := h.placed hJ hp hx
  obtain ⟨hk, hs⟩ := hg.before m hm
  -- the request is for the same kind of node as the new one
  have hsame := config.shares_eq_of_serves hserves
  rw [hk, config.shares_eq_of_serves hg.serves, Installation.wanted, Installation.wanted,
    Config.shares_map, Config.shares_map] at hsame
  exact hshare (hsame ▸ hs)

omit hI in
theorem Gains.not_alone_self (hJ : inst r = some J) (hshare : ¬ config.shares q.kind) :
    J.nodes[i]? ≠ some x := by
  intro hx
  obtain ⟨m, hm, -⟩ := h.exists_node hJ (List.mem_of_getElem? hx)
  exact hshare (hg.before m hm).2

theorem Gains.alone {r' : RuleId} {J' : Installation} {j : Nat}
    (hJ : Function.update inst rule (some (I.snoc q x)) r = some J)
    (hJ' : Function.update inst rule (some (I.snoc q x)) r' = some J')
    (hp : J.steps[i]? = some p) (hshare : ¬ config.shares p.kind)
    (hy : J.nodes[i]? = some y) (hy' : J'.nodes[j]? = some y) : r = r' ∧ i = j := by
  have hlen := h.lengths hI
  obtain ⟨rfl, rfl⟩ | ⟨-, hJ₀⟩ := update_cases hJ
  · obtain ⟨rfl, rfl⟩ | ⟨-, hJ₀'⟩ := update_cases hJ'
    · rcases (h.stands hI).snoc_cases hp hy with ⟨hp₀, hy₀⟩ | ⟨rfl, rfl, rfl⟩
      · rcases getElem?_concat_cases hy' with hy₀' | ⟨-, rfl⟩
        · exact h.alone hI hI hp₀ hshare hy₀ hy₀'
        · exact absurd hy₀ (hg.not_alone h hI hp₀ hshare)
      · rcases getElem?_concat_cases hy' with hy₀' | ⟨rfl, -⟩
        · exact absurd hy₀' (hg.not_alone_self h hI hshare)
        · exact ⟨rfl, hlen.symm⟩
    · rcases (h.stands hI).snoc_cases hp hy with ⟨hp₀, hy₀⟩ | ⟨rfl, rfl, rfl⟩
      · exact h.alone hI hJ₀' hp₀ hshare hy₀ hy'
      · exact absurd hy' (hg.not_alone_self h hJ₀' hshare)
  · obtain ⟨rfl, rfl⟩ | ⟨-, hJ₀'⟩ := update_cases hJ'
    · rcases getElem?_concat_cases hy' with hy₀' | ⟨-, rfl⟩
      · exact h.alone hJ₀ hI hp hshare hy hy₀'
      · exact absurd hy (hg.not_alone h hJ₀ hp hshare)
    · exact h.alone hJ₀ hJ₀' hp hshare hy hy'

omit hI in
/-- A node that was chosen before is chosen still. -/
theorem Gains.chosen_kept (hJ : inst r = some J) (hp : J.steps[i]? = some p)
    (hy : J.nodes[i]? = some y) (hshares : config.shares p.kind) :
    net'.existing config p.guardsOut (J.wanted r p) = some y := by
  obtain ⟨m, hm, -⟩ := h.placed hJ hp hy
  obtain ⟨m', hm', -⟩ := hg.keeps hm
  exact hg.evolves.existing_stays (h.chosen hJ hp hy hshares) hm'

theorem Gains.chosen_snoc (hq : q.Follows config.objectTypeMemory I.steps)
    (hJ : Function.update inst rule (some (I.snoc q x)) r = some J)
    (hp : J.steps[i]? = some p) (hy : J.nodes[i]? = some y) (hshares : config.shares p.kind) :
    net'.existing config p.guardsOut (J.wanted r p) = some y := by
  obtain ⟨rfl, rfl⟩ | ⟨-, hJ⟩ := update_cases hJ
  · rcases (h.stands hI).snoc_cases hp hy with ⟨hp, hy⟩ | ⟨rfl, rfl, rfl⟩
    · rw [(h.stands hI).wanted_snoc hp]
      exact hg.chosen_kept h hI hp hy hshares
    · rw [(h.stands hI).wanted_snoc_self hq]
      exact hg.chosen hshares
  · exact hg.chosen_kept h hJ hp hy hshares

omit hI in
/-- A node that is just what was asked for before, is so still. -/
theorem Gains.made_kept (hJ : inst r = some J) (hp : J.steps[i]? = some p)
    (hy : J.nodes[i]? = some y) (hshares : ¬ config.shares p.kind) (hm : net'.nodes[y]? = some m) :
    m.kind = J.wanted r p := by
  obtain ⟨m₀, hm₀, -⟩ := h.placed hJ hp hy
  rw [hg.evolves.kind hm₀ hm]
  exact h.made hJ hp hy hshares hm₀

theorem Gains.made_snoc (hq : q.Follows config.objectTypeMemory I.steps)
    (hJ : Function.update inst rule (some (I.snoc q x)) r = some J)
    (hp : J.steps[i]? = some p) (hy : J.nodes[i]? = some y) (hshares : ¬ config.shares p.kind)
    (hm : net'.nodes[y]? = some m) : m.kind = J.wanted r p := by
  obtain ⟨rfl, rfl⟩ | ⟨-, hJ⟩ := update_cases hJ
  · rcases (h.stands hI).snoc_cases hp hy with ⟨hp, hy⟩ | ⟨rfl, rfl, rfl⟩
    · rw [(h.stands hI).wanted_snoc hp]
      exact hg.made_kept h hI hp hy hshares hm
    · rw [(h.stands hI).wanted_snoc_self hq, Option.some.inj (hm.symm.trans hg.node)]
      exact (hg.fresh (hg.new hshares)).1
  · exact hg.made_kept h hJ hp hy hshares hm

/-- **A network that houses some installations houses them with one more
    request.** -/
theorem Houses.snoc (hq : q.Follows config.objectTypeMemory I.steps) :
    net'.Houses config (Function.update inst rule (some (I.snoc q x))) where
  wired := hg.wired
  lengths hJ := by
    obtain ⟨rfl, rfl⟩ | ⟨-, hJ⟩ := update_cases hJ
    · simp [Installation.snoc, h.lengths hI]
    · exact h.lengths hJ
  orderly hJ := by
    obtain ⟨rfl, rfl⟩ | ⟨-, hJ⟩ := update_cases hJ
    · exact (h.orderly hI).snoc hq
    · exact h.orderly hJ
  placed := hg.placed h hI hq
  owners := hg.owners h hI
  used hm hroot := by
    obtain ⟨rfl, rfl⟩ | ⟨-, m₀, hm₀, hk, hr, -⟩ := hg.node_cases hm
    · exact ⟨rule, (hg.rules rule).2 (Or.inl rfl)⟩
    · rw [hr]
      exact h.used hm₀ (hk ▸ hroot)
  demanded := hg.demanded h
  totalled := hg.totalled_snoc h
  memory := hg.memory (h.stands hI) hq
  cross := hg.cross h hq
  maximal := hg.maximal_snoc h
  alone := hg.alone h hI
  chosen := hg.chosen_snoc h hI hq
  made := hg.made_snoc h hI hq

end Gains

/-- A rule that is about to be built has got no node yet. -/
theorem Houses.start {net : Network} {config : Config} {inst : RuleId → Option Installation}
    {rule : RuleId} (h : net.Houses config inst) (hr : inst rule = none) :
    net.Houses config (Function.update inst rule (some .empty)) where
  wired := h.wired
  lengths hJ := by
    obtain ⟨rfl, rfl⟩ | ⟨-, hJ⟩ := update_cases hJ
    · rfl
    · exact h.lengths hJ
  orderly hJ := by
    obtain ⟨rfl, rfl⟩ | ⟨-, hJ⟩ := update_cases hJ
    · exact orderly_nil
    · exact h.orderly hJ
  placed hJ hp hy := by
    obtain ⟨rfl, rfl⟩ | ⟨-, hJ⟩ := update_cases hJ
    · simp [Installation.empty] at hp
    · exact h.placed hJ hp hy
  owners hn r := by
    rw [h.owners hn]
    by_cases hrr : r = rule
    · subst hrr
      simp [hr, Installation.empty]
    · rw [Function.update_of_ne hrr]
  used := h.used
  demanded := h.demanded
  totalled := h.totalled
  memory := h.memory
  cross := h.cross
  maximal := h.maximal
  alone hJ hJ' hp hshares hy hy' := by
    obtain ⟨rfl, rfl⟩ | ⟨-, hJ⟩ := update_cases hJ
    · simp [Installation.empty] at hp
    · obtain ⟨rfl, rfl⟩ | ⟨-, hJ'⟩ := update_cases hJ'
      · simp [Installation.empty] at hy'
      · exact h.alone hJ hJ' hp hshares hy hy'
  chosen hJ hp hy hshares := by
    obtain ⟨rfl, rfl⟩ | ⟨-, hJ⟩ := update_cases hJ
    · simp [Installation.empty] at hp
    · exact h.chosen hJ hp hy hshares
  made hJ hp hy hshares hm := by
    obtain ⟨rfl, rfl⟩ | ⟨-, hJ⟩ := update_cases hJ
    · simp [Installation.empty] at hp
    · exact h.made hJ hp hy hshares hm

/-! ## Networks that heed installations -/

/-- Every node keeps facts for just as long as the rules asked for when they got
    it. -/
def Heeds (net : Network) (inst : RuleId → Option Installation) : Prop :=
  ∀ ⦃x : NodeId⦄ ⦃n : Node⦄, net.nodes[x]? = some n → ∀ r : RuleId,
    n.retention.demands[r]? = (inst r).bind (·.demand x)

section Heeds
variable {net net' : Network} {config : Config} {inst : RuleId → Option Installation}
variable {rule : RuleId} {I : Installation} {q : Request} {x : NodeId} {n : Node}

theorem heeds_empty : empty.Heeds fun _ => none := fun _ _ hn => by simp [empty] at hn

theorem Heeds.start (hh : net.Heeds inst) (hr : inst rule = none) :
    net.Heeds (Function.update inst rule (some .empty)) := by
  intro x n hn r
  rw [hh hn]
  by_cases hrr : r = rule
  · subst hrr
    simp [hr]
  · rw [Function.update_of_ne hrr]

theorem Heeds.snoc (hh : net.Heeds inst) (h : net.Houses config inst) (hI : inst rule = some I)
    (hg : net.Gains net' config rule I q x n) :
    net'.Heeds (Function.update inst rule (some (I.snoc q x))) := by
  intro y m hm r
  have hlen := h.lengths hI
  obtain ⟨rfl, rfl⟩ | ⟨hy, m₀, hm₀, -, -, hret⟩ := hg.node_cases hm
  · -- a node that is new was demanded of by no rule
    have hbefore : net.nodes[y]?.bind (·.retention.demands[r]?) = (inst r).bind (·.demand y) := by
      cases ho : net.nodes[y]? with
      | some o => exact hh ho r
      | none =>
        cases hJ : inst r with
        | none => rfl
        | some J =>
          refine (Installation.demand_eq_none fun hy => ?_).symm
          obtain ⟨o, ho', -⟩ := h.exists_node hJ hy
          rw [ho] at ho'
          cases ho'
    simp only [hg.demands, hbefore]
    split
    · rename_i hr
      subst hr
      rw [Function.update_self, Option.bind_some, Installation.demand_snoc hlen, if_pos rfl, hI,
        Option.bind_some]
    · rename_i hr
      rw [Function.update_of_ne hr]
  · rw [hret, hh hm₀ r]
    by_cases hr : r = rule
    · subst hr
      rw [Function.update_self, hI, Option.bind_some, Option.bind_some,
        Installation.demand_snoc hlen, if_neg hy]
    · rw [Function.update_of_ne hr]

end Heeds

end Network

end RuleNet
