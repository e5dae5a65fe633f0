/-
  RuleNet — what removing a rule does, after any commands.

  A rule can be removed just if it is registered, and it goes with just the nodes
  that nothing else needs (`removeRule_exact`).
-/
import RuleNet.Proofs.History

namespace RuleNet

/-- A rule about two facts, the second one related to the fact of the pattern
    at `target`. -/
def Rule.relating (name : String) (target : Offset) : Rule where
  name
  body := ⟨.and,
    [.pattern { offset := 0, type := 2 },
      .pattern { offset := 1, type := 3, ownJoinTests := [.field 4 .equal ⟨target, 5⟩] }]⟩

namespace RuleBase

variable {base base' : RuleBase}

/-! ## Removed rules -/

/-- What became of a rule base when a rule was removed: nothing that was not the
    rule's is gone, and nothing of the rule is left. -/
structure RemovedExactly (base : RuleBase) (rule : RuleId) (removal : Removal) (base' : RuleBase) :
    Prop where
  /-- The rule is registered no longer, and all others are. -/
  rules : base'.rules = base.rules.erase rule
  /-- No node is new. -/
  old : ∀ (x : NodeId) (n' : Node), base'.network.nodes[x]? = some n' → ∃ n, base.network.nodes[x]? = some n
  /-- The nodes that are gone are those that only the rule used, roots excepted. -/
  gone : ∀ (x : NodeId) (n : Node), base.network.nodes[x]? = some n →
    (base'.network.nodes[x]? = none ↔ ¬ n.kind.isRoot ∧ ∀ r : RuleId, r ∈ n.rules ↔ r = rule)
  /-- They are the ones that are listed. -/
  listed : ∀ x : NodeId, x ∈ removal.removed ↔
    (∃ n, base.network.nodes[x]? = some n) ∧ base'.network.nodes[x]? = none
  /-- Each is listed once. -/
  once : removal.removed.Nodup
  /-- Just their numbers have been returned. -/
  returned : ∀ x : NodeId, base'.ids.isLive x ↔ base.ids.isLive x ∧ x ∉ removal.removed
  /-- The rule uses no node and demands nothing of any. -/
  forgotten : ∀ (x : NodeId) (n' : Node), base'.network.nodes[x]? = some n' →
    rule ∉ n'.rules ∧ n'.retention.demands[rule]? = none
  /-- The nodes listed as being in another partition are just those. -/
  repartitioned : ∀ x : NodeId, x ∈ removal.repartitioned ↔ ∃ n n',
    base.network.nodes[x]? = some n ∧ base'.network.nodes[x]? = some n' ∧
      n.partition? ≠ n'.partition?
  /-- Each of them is listed once. -/
  repartitioned_once : removal.repartitioned.Nodup
  /-- A node that the rule did not use has lost the sinks that are gone. -/
  others : ∀ (x : NodeId) (n : Node), base.network.nodes[x]? = some n → rule ∉ n.rules →
    base'.network.nodes[x]? = some { n with sinks := n.sinks.filter (· ∉ removal.removed) }

theorem Removed.exactly {defs : RuleId → Option Rule} {inst : RuleId → Option Installation}
    {entry : RuleEntry} {removal : Removal} (h : base.Sound defs inst)
    (he : base.rules[entry.id]? = some entry) (hr : base.Removed entry removal base') :
    base.RemovedExactly entry.id removal base' := by
  obtain ⟨-, r, I, -, hI, hreg⟩ := h.registered he
  have hh := h.houses
  have hnode := fun {x : NodeId} {m : Node} (hm : base'.network.nodes[x]? = some m) =>
    hr.node hh hI hreg.nodes hm
  have hgone := fun {x : NodeId} {n : Node} (hn : base.network.nodes[x]? = some n) =>
    hr.gone_iff hh hI hreg.nodes hn
  exact {
    rules := by rw [hr.rest]
    old := by
      intro x n' hn'
      obtain ⟨n, hn, -⟩ := hnode hn'
      exact ⟨n, hn⟩
    gone := by
      intro x n hn
      rw [hgone hn, hr.mem_removed_iff hh hI hreg.nodes hn, NodeKind.isRoot,
        Option.not_isSome_iff_eq_none]
    listed := by
      intro x
      constructor
      · intro hx
        obtain ⟨n, hn, -⟩ := (hr.mem_removed hh hI hreg.nodes).1 hx
        exact ⟨⟨n, hn⟩, hr.gone hx⟩
      · rintro ⟨⟨n, hn⟩, hnone⟩
        exact (hgone hn).1 hnone
    once := by
      rw [hr.removed, hreg.nodes]
      exact (List.nodup_reverse.2 (Site.nodup_eraseDups _)).filter _
    returned := by
      intro x
      rw [hr.numbered.live, h.numbered.live]
      constructor
      · rintro ⟨m, hm⟩
        obtain ⟨n, hn, hx, -⟩ := hnode hm
        exact ⟨⟨n, hn⟩, hx⟩
      · rintro ⟨⟨n, hn⟩, hx⟩
        rw [← hgone hn] at hx
        exact Option.ne_none_iff_exists'.1 hx
    forgotten := by
      intro x m hm
      obtain ⟨n, -, -, -, hrules, hdemands, -⟩ := hnode hm
      refine ⟨fun hmem => ((hrules _).1 hmem).1 rfl, ?_⟩
      rw [hdemands, if_pos rfl]
    repartitioned := hr.repartitioned
    repartitioned_once := hr.nodup
    others := fun x n hn hx => hr.unused hh hI hreg.nodes hn hx }

/-- **A rule can be removed just if it is registered**; otherwise nothing
    changes.  When it has been removed, just what was the rule's alone is gone. -/
theorem removeRule_exact (h : base.Reachable) (rule : RuleId) :
    ((∃ removal base', removeRule rule base = .ok removal base') ↔ rule ∈ base.rules) ∧
      (∀ fault base', removeRule rule base = .error fault base' → base' = base) ∧
      ∀ removal base', removeRule rule base = .ok removal base' →
        base.RemovedExactly rule removal base' := by
  obtain ⟨defs, inst, hs⟩ := h.sound
  cases he : base.rules[rule]? with
  | none =>
    rw [removeRule_error he]
    have hnot : rule ∉ base.rules := by
      rw [Std.ExtTreeMap.mem_iff_isSome_getElem?, he]
      exact Bool.false_ne_true
    refine ⟨iff_of_false ?_ hnot, ?_, ?_⟩
    · rintro ⟨removal, base', hok⟩
      cases hok
    · rintro fault base' ⟨⟩
      rfl
    · rintro removal base' ⟨⟩
  | some entry =>
    obtain ⟨rfl, -⟩ := hs.registered he
    obtain ⟨removal, base', hremove, hr, -⟩ := hs.remove he
    rw [hremove]
    have hmem : entry.id ∈ base.rules := Std.ExtTreeMap.mem_iff_isSome_getElem?.2 (by rw [he]; rfl)
    refine ⟨iff_of_true ⟨removal, base', rfl⟩ hmem, ?_, ?_⟩
    · rintro fault base'' ⟨⟩
    · rintro removal' base'' ⟨⟩
      exact hr.exactly hs he

/-- Of two rules that share nodes, the first one is removed. -/
theorem removeRule_exact_shared : ∃ removal base',
    removeRule 0 ((empty {}).addAll [.relating "first" 0, .relating "second" 0]).base =
        .ok removal base' ∧
      ((empty {}).addAll [.relating "first" 0, .relating "second" 0]).base.RemovedExactly 0
        removal base' := by
  have h : ((empty {}).addAll [.relating "first" 0, .relating "second" 0]).base.Reachable :=
    .step (.empty rfl) (.addAll [.relating "first" 0, .relating "second" 0])
  obtain ⟨hiff, -, hexact⟩ := removeRule_exact h 0
  obtain ⟨removal, base', hok⟩ := hiff.2 (by decide +kernel)
  exact ⟨removal, base', hok, hexact removal base' hok⟩

end RuleBase

end RuleNet
