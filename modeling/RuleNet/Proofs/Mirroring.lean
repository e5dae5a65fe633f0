/-
  RuleNet — working memories that follow the network.

  A working memory that is told of the nodes of each new rule, and of the nodes
  that go with each old one, can keep a list of the nodes there are, though it is
  told nothing of failures, hears of shared nodes again, and numbers come back.
  If it was attached before anything else and has never been detached, its list
  is that of the network after every command (`mirror_exact`).
-/
import RuleNet.Proofs.Partitions

namespace RuleNet

/-! ## What a working memory knows -/

/-- The nodes that are known after a notice. -/
def Notice.told (n : Notice) (known : Finset NodeId) : Finset NodeId :=
  match n.change with
  | .attached => known ∪ n.nodes.toFinset
  | .detached => known \ n.nodes.toFinset

/-- The nodes that a working memory knows of from what a journal told it. -/
def mirror (memory : MemoryId) (journal : List Notice) : Finset NodeId :=
  (journal.filter (·.memory == memory)).foldl (fun known n => n.told known) ∅

section Mirror
variable {memory : MemoryId} {change : Change} {rule : RuleId} {nodes : List NodeId}
variable {memories : List MemoryId} {journal : List Notice} {x : NodeId}

/-- Being told twice is being told once. -/
theorem Notice.told_told (n : Notice) (known : Finset NodeId) :
    n.told (n.told known) = n.told known := by
  obtain ⟨memory, change, rule, nodes⟩ := n
  cases change with
  | attached => exact Finset.union_right_idem _ _
  | detached => exact sdiff_idem

/-- A working memory may be attached several times, and is told as often. -/
theorem foldl_told (known : Finset NodeId) :
    ((memories.map fun m => (⟨m, change, rule, nodes⟩ : Notice)).filter (·.memory == memory)).foldl
        (fun known n => n.told known) known =
      if memory ∈ memories then (⟨memory, change, rule, nodes⟩ : Notice).told known else known := by
  induction memories generalizing known with
  | nil => rfl
  | cons m memories ih =>
    rw [List.map_cons, List.filter_cons]
    by_cases hm : m = memory
    · subst hm
      simp only [beq_self_eq_true, if_true, List.foldl_cons, List.mem_cons, true_or]
      rw [ih, Notice.told_told, ite_self]
    · rw [if_neg (by simpa using hm), ih]
      simp only [List.mem_cons, Ne.symm hm, false_or]

/-- What is known after a change that working memories are told of. -/
theorem mirror_notify (h : memory ∈ memories) :
    mirror memory (journal ++ memories.map fun m => ⟨m, change, rule, nodes⟩) =
      (⟨memory, change, rule, nodes⟩ : Notice).told (mirror memory journal) := by
  rw [mirror, List.filter_append, List.foldl_append, foldl_told, if_pos h]
  rfl

theorem mem_told_attached {known : Finset NodeId} :
    x ∈ (⟨memory, .attached, rule, nodes⟩ : Notice).told known ↔ x ∈ known ∨ x ∈ nodes := by
  simp [Notice.told]

theorem mem_told_detached {known : Finset NodeId} :
    x ∈ (⟨memory, .detached, rule, nodes⟩ : Notice).told known ↔ x ∈ known ∧ x ∉ nodes := by
  simp [Notice.told]

end Mirror

/-! ## Following the network -/

namespace RuleBase

/-- A working memory is attached and knows what nodes there are. -/
structure Mirrored (memory : MemoryId) (base : RuleBase) : Prop where
  listening : memory ∈ base.memories
  exact : ∀ x : NodeId, x ∈ mirror memory base.journal ↔ ∃ n, base.network.nodes[x]? = some n

variable {memory : MemoryId} {base base' : RuleBase} {defs : RuleId → Option Rule}
variable {inst : RuleId → Option Installation}

/-- Nothing is told of a failure, and no node has come or gone. -/
theorem Mirrored.kept (hm : base.Mirrored memory) (hk : base.Kept base') :
    base'.Mirrored memory := by
  have hmemories : base'.memories = base.memories := by rw [hk.rest]
  have hjournal : base'.journal = base.journal := by rw [hk.rest]
  refine ⟨hmemories ▸ hm.listening, fun x => ?_⟩
  rw [hjournal, hm.exact]
  constructor
  · rintro ⟨n, hn⟩
    obtain ⟨n', hn', -⟩ := hk.marked.exists_marked hn
    exact ⟨n', hn'⟩
  · rintro ⟨n', hn'⟩
    obtain ⟨n, hn, -⟩ := hk.marked.exists_former hn'
    exact ⟨n, hn⟩

section Compiled
variable {r : Rule} {b : Blueprint} {built : Session.Built} {I : Installation}
variable (h : base.Sound defs inst) (hc : base.Compiled r b built I base')
include h hc

/-- The nodes that have come are nodes of the new rule. -/
theorem Compiled.exists_node_iff {x : NodeId} : (∃ m, base'.network.nodes[x]? = some m) ↔
    (∃ n, base.network.nodes[x]? = some n) ∨ x ∈ I.nodes := by
  obtain ⟨hhouses, -⟩ := hc.houses h
  constructor
  · rintro ⟨m, hm⟩
    cases hn : base.network.nodes[x]? with
    | some n => exact .inl ⟨n, rfl⟩
    | none => exact .inr (hc.made h hm hn).1
  · rintro (⟨n, hn⟩ | hx)
    · obtain ⟨m, hm, -⟩ := hc.keeps h hn
      exact ⟨m, hm⟩
    · obtain ⟨m, hm, -⟩ := hhouses.exists_node (Function.update_self ..) hx
      exact ⟨m, hm⟩

/-- The working memories are told of the nodes of the new rule. -/
theorem Compiled.told : base'.memories = base.memories ∧ ∃ nodes : List NodeId,
    (base'.journal = base.journal ++ base.memories.map fun m =>
      ⟨m, .attached, base.nextRule, nodes⟩) ∧ ∀ x, x ∈ nodes ↔ x ∈ I.nodes := by
  obtain ⟨p, hbegun⟩ := base.begun_eq
  obtain ⟨w, hruns, -, -, hbase'⟩ := hc.served
  obtain ⟨net, ids, hw⟩ := hruns.base_eq
  have hmemories : w.base.memories = base.memories := by
    rw [hw, hbegun]
  refine ⟨by rw [hbase', hmemories], w.attached.map (·.id), by rw [hbase'], fun x => ?_⟩
  exact (hruns.sound (hc.site_sound h)).mem_attached

/-- The notice of a new rule lists the nodes that have come. -/
theorem Mirrored.compiled (hm : base.Mirrored memory) : base'.Mirrored memory := by
  obtain ⟨hmemories, nodes, hjournal, hnodes⟩ := hc.told h
  refine ⟨hmemories ▸ hm.listening, fun x => ?_⟩
  rw [hjournal, mirror_notify hm.listening, mem_told_attached, hm.exact, hnodes,
    hc.exists_node_iff h]

end Compiled

/-- The notice of a removal lists the nodes that have gone. -/
theorem Mirrored.removed {entry : RuleEntry} {removal : Removal} (h : base.Sound defs inst)
    (he : base.rules[entry.id]? = some entry) (hm : base.Mirrored memory)
    (hr : base.Removed entry removal base') : base'.Mirrored memory := by
  have hexactly := hr.exactly h he
  have hmemories : base'.memories = base.memories := by rw [hr.rest]
  have hjournal : base'.journal = base.journal ++ base.memories.map fun m =>
      ⟨m, .detached, entry.id, removal.removed⟩ := by rw [hr.rest]
  refine ⟨hmemories ▸ hm.listening, fun x => ?_⟩
  rw [hjournal, mirror_notify hm.listening, mem_told_detached, hm.exact, hexactly.listed]
  constructor
  · rintro ⟨hn, hstays⟩
    exact Option.ne_none_iff_exists'.1 fun hgone => hstays ⟨hn, hgone⟩
  · rintro ⟨n', hn'⟩
    refine ⟨hexactly.old x n' hn', fun ⟨_, hgone⟩ => ?_⟩
    rw [hgone] at hn'
    cases hn'

/-- A working memory that is attached before anything else knows all nodes:
    there are none. -/
theorem mirrored_empty (config : Config) (memory : MemoryId) :
    ((empty config).attachMemory memory).Mirrored memory where
  listening := List.mem_append_right _ (List.mem_singleton_self memory)
  exact x := iff_of_false (Finset.notMem_empty x) (by simp [attachMemory, empty, Network.empty])

/-- **A working memory keeps up with every command** that does not detach it. -/
theorem Sound.mirrored (h : base.Sound defs inst) (hm : base.Mirrored memory) {c : Command}
    (hc : c ≠ .detach memory) : (c.run base).Mirrored memory := by
  refine h.run_induction hm c .kept (fun h hm hc => hm.compiled h hc)
    (fun h he hm hr => hm.removed h he hr) ?_ ?_
  · rintro m rfl
    exact ⟨List.mem_append_left _ hm.listening, hm.exact⟩
  · rintro m rfl
    refine ⟨List.mem_filter.2 ⟨hm.listening, ?_⟩, hm.exact⟩
    exact decide_eq_true fun heq => hc (heq ▸ rfl)

/-- **A working memory that has been attached since the beginning can tell from
    what it is told which nodes there are**, whatever commands have been given. -/
theorem mirror_exact {config : Config} (plain : config.maker = .plain) (memory : MemoryId)
    (cs : List Command) (stays : .detach memory ∉ cs) (x : NodeId) :
    x ∈ mirror memory (history config (cs ++ [.attach memory])).journal ↔
      x ∈ (history config (cs ++ [.attach memory])).network.nodes := by
  have hm : (history config (cs ++ [.attach memory])).Mirrored memory := by
    induction cs with
    | nil => exact mirrored_empty config memory
    | cons c cs ih =>
      rw [List.mem_cons, not_or] at stays
      obtain ⟨defs, inst, hs⟩ := (reachable_history plain (cs ++ [.attach memory])).sound
      exact hs.mirrored (ih stays.2) (Ne.symm stays.1)
  rw [hm.exact, Std.ExtTreeMap.mem_iff_isSome_getElem?, Option.isSome_iff_exists]

/-- Of two working memories one is detached; the other one hears of a removal, not
    of a failure, and of numbers that are used again. -/
theorem mirror_exact_renewed :
    let cs : List Command := [.add (.relating "third" 0), .remove 0, .add (.relating "unbound" 7),
      .detach 8, .addAll [.relating "first" 0, .relating "second" 0], .attach 8]
    Command.detach 3 ∉ cs ∧ (4 : NodeId) ∈ (history {} (cs ++ [.attach 3])).network.nodes ∧
      4 ∈ mirror 3 (history {} (cs ++ [.attach 3])).journal := by
  intro cs
  have plain : ({} : Config).maker = .plain := rfl
  have stays : Command.detach 3 ∉ cs := by simp [cs]
  have hmem : (4 : NodeId) ∈ (history {} (cs ++ [.attach 3])).network.nodes := by decide +kernel
  have hexact := mirror_exact plain 3 cs stays 4
  refine ⟨stays, hmem, ?_⟩
  rw [hexact]
  exact hmem

end RuleBase

end RuleNet
