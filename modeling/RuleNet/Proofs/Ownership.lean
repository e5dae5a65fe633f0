/-
  RuleNet — which rules use which nodes.

  Three records have to agree on it: the entry of a rule lists the nodes that
  the rule uses, a node lists the rules that use it, and the sources of a node
  tell what else a rule uses that uses the node.  In every library that commands
  lead to, they do (`ownership_consistent`); the terminals of a rule are one for
  each branch of its definition, and no other rule uses them.
-/
import RuleNet.Proofs.Unfolding

namespace RuleNet

/-! ## Terminals -/

theorem Draw.length_of_mapM {α β : Type} {f : α → Draw β} {l : List α} {l' : List β} {d d' : Draft}
    (h : l.mapM f d = .ok l' d') : l'.length = l.length := by
  induction l generalizing d l' with
  | nil =>
    cases h
    rfl
  | cons a l ih =>
    rw [List.mapM_cons] at h
    obtain ⟨b, d₁, -, h⟩ := bind_inv h
    obtain ⟨bs, d₂, hrest, h⟩ := bind_inv h
    cases h
    rw [List.length_cons, List.length_cons, ih hrest]

/-- A blueprint has as many terminals as the rule has branches. -/
theorem Rule.length_terminals {config : Config} {r : Rule} {b : Blueprint}
    (h : r.blueprint config = .ok b) :
    ∃ bs, r.body.branches = .ok bs ∧ b.terminals.length = bs.length := by
  obtain ⟨bs, d, hbs, hd, -⟩ := exists_drawn h
  exact ⟨bs, hbs, Draw.length_of_mapM hd⟩

/-- A terminal is used by the rule whose branch it ends. -/
theorem Network.Houses.mem_terminal_rules {net : Network} {config : Config}
    {inst : RuleId → Option Installation} (h : net.Houses config inst) {x : NodeId} {n : Node}
    {s : NodeId} {rule : RuleId} {branch : Nat} {query : Bool} (hn : net.nodes[x]? = some n)
    (hkind : n.kind = .terminal s rule branch query) (r : RuleId) : r ∈ n.rules ↔ r = rule := by
  have honly : ∀ r ∈ n.rules, r = rule := by
    intro r hr
    obtain ⟨I, hI, hx⟩ := (h.owners hn r).1 hr
    obtain ⟨i, hi⟩ := List.mem_iff_getElem?.1 hx
    obtain ⟨q, hq⟩ := h.step_of_node hI hi
    obtain ⟨n', hn', hserves⟩ := h.placed hI hq hi
    obtain rfl : n' = n := Option.some.inj (hn'.symm.trans hn)
    rw [hkind, Installation.wanted] at hserves
    obtain heq | ⟨i, j, hjoin, -⟩ := NodeKind.serves_cases hserves
    · cases hq' : q.kind <;> rw [hq'] at heq <;> cases heq
      rfl
    · cases hjoin
  refine ⟨honly r, ?_⟩
  rintro rfl
  obtain ⟨r', hr'⟩ := h.used hn (by rw [hkind]; rfl)
  exact honly r' hr' ▸ hr'

/-! ## The records agree -/

/-- What is recorded of rules and nodes fits together. -/
structure Library.Ownership (l : Library) : Prop where
  /-- The entry of a rule lists each node that the rule uses once, and no other. -/
  listed : ∀ (id : RuleId) (entry : RuleEntry), l.base.rules[id]? = some entry →
    entry.nodes.Nodup ∧
      ∀ x : NodeId, x ∈ entry.nodes ↔ ∃ n, l.base.network.nodes[x]? = some n ∧ id ∈ n.rules
  /-- It is found under the number and the name of the rule. -/
  named : ∀ (id : RuleId) (entry : RuleEntry), l.base.rules[id]? = some entry →
    entry.id = id ∧ l.base.ruleNamed? entry.name = some entry
  /-- Nodes are used by registered rules. -/
  registered : ∀ (x : NodeId) (n : Node), l.base.network.nodes[x]? = some n →
    ∀ r ∈ n.rules, r ∈ l.base.rules
  /-- Only roots stay when no rule uses them. -/
  needed : ∀ (x : NodeId) (n : Node), l.base.network.nodes[x]? = some n → ¬ n.kind.isRoot →
    ∃ r, r ∈ n.rules
  /-- A rule that uses a node uses its sources. -/
  sources : ∀ (x : NodeId) (n : Node), l.base.network.nodes[x]? = some n → ∀ r ∈ n.rules,
    ∀ s ∈ n.kind.sources, ∃ m, l.base.network.nodes[s]? = some m ∧ r ∈ m.rules
  /-- A rule that uses the root of a type uses the root of its entry point. -/
  entryPoint : ∀ (x : NodeId) (n : Node) (entry : EntryPoint) (type : Symbol) (memory : Bool),
    l.base.network.nodes[x]? = some n → n.kind = .objectType entry type memory → ∀ r ∈ n.rules,
      ∃ p m, l.base.network.entryPointNode entry = some p ∧ l.base.network.nodes[p]? = some m ∧
        m.kind = .entryPoint entry ∧ r ∈ m.rules
  /-- A rule has one terminal for each branch of its definition. -/
  terminals : ∀ (id : RuleId) (entry : RuleEntry), l.base.rules[id]? = some entry →
    ∃ r bs, l.definitions id = some r ∧ r.name = entry.name ∧ r.body.branches = .ok bs ∧
      (∀ k x, l.base.network.TerminalAt id k x → k < bs.length) ∧
      ∀ k < bs.length, ∃! x, l.base.network.TerminalAt id k x
  /-- A terminal is used by its rule alone. -/
  alone : ∀ (x : NodeId) (n : Node) (s : NodeId) (rule : RuleId) (branch : Nat) (query : Bool),
    l.base.network.nodes[x]? = some n → n.kind = .terminal s rule branch query →
      ∀ r : RuleId, r ∈ n.rules ↔ r = rule

namespace RuleBase.Sound

variable {base : RuleBase} {defs : RuleId → Option Rule} {inst : RuleId → Option Installation}
variable {id : RuleId} {entry : RuleEntry} {x : NodeId} {n : Node}

/-- The entry of a rule lists the nodes that the rule uses. -/
theorem mem_entry_nodes (h : base.Sound defs inst) (he : base.rules[id]? = some entry) :
    x ∈ entry.nodes ↔ ∃ n, base.network.nodes[x]? = some n ∧ id ∈ n.rules := by
  obtain ⟨-, r, I, -, hI, hreg⟩ := h.registered he
  rw [hreg.nodes, List.mem_eraseDups]
  constructor
  · exact h.houses.exists_node hI
  · rintro ⟨n, hn, hid⟩
    obtain ⟨J, hJ, hx⟩ := (h.houses.owners hn id).1 hid
    obtain rfl : J = I := Option.some.inj (hJ.symm.trans hI)
    exact hx

/-- No other rule is found under the name of a rule. -/
theorem ruleNamed?_name (h : base.Sound defs inst) (he : base.rules[id]? = some entry) :
    base.ruleNamed? entry.name = some entry :=
  h.ruleNamed?_eq_some_iff.2 ⟨id, he, rfl⟩

/-- A node is used by registered rules only. -/
theorem mem_rules_of_uses (h : base.Sound defs inst) (hn : base.network.nodes[x]? = some n)
    (hid : id ∈ n.rules) : id ∈ base.rules := by
  obtain ⟨I, hI, -⟩ := (h.houses.owners hn id).1 hid
  rw [Std.ExtTreeMap.mem_iff_isSome_getElem?]
  cases he : base.rules[id]? with
  | none =>
    rw [(h.unregistered he).2] at hI
    cases hI
  | some entry => rfl

/-- A number that is free is that of no rule that uses a node. -/
theorem ne_of_unnumbered (h : base.Sound defs inst) {key : RuleId}
    (hfree : base.rules[key]? = none) (hn : base.network.nodes[x]? = some n) (hid : id ∈ n.rules) :
    id ≠ key := by
  rintro rfl
  have hmem := h.mem_rules_of_uses hn hid
  rw [Std.ExtTreeMap.mem_iff_isSome_getElem?, hfree] at hmem
  cases hmem

/-- The root that the root of a type hangs below is the one of its entry point,
    and rules that use the one use the other. -/
theorem uses_entryPoint (h : base.Sound defs inst) {e : EntryPoint} {type : Symbol} {memory : Bool}
    (hn : base.network.nodes[x]? = some n) (hkind : n.kind = .objectType e type memory)
    (hid : id ∈ n.rules) : ∃ p m, base.network.entryPointNode e = some p ∧
      base.network.nodes[p]? = some m ∧ m.kind = .entryPoint e ∧ id ∈ m.rules := by
  have hkey : n.kind.parentKey? = some ⟨e, none⟩ := by rw [hkind]; rfl
  obtain ⟨p, hp⟩ := h.houses.wired.parent hn hkey
  obtain ⟨m, hm, hroot⟩ := h.houses.wired.roots_iff.1 hp
  obtain ⟨m', hm', hused⟩ :=
    h.houses.uses_parent hn hid (Network.mem_parentsOf.2 (.inr ⟨_, hkey, hp⟩))
  obtain rfl : m' = m := Option.some.inj (hm'.symm.trans hm)
  refine ⟨p, m', hp, hm, ?_, hused⟩
  cases hk : m'.kind <;> rw [hk] at hroot <;> cases hroot
  rfl

/-- A rule has one terminal for each of its branches. -/
theorem terminals (h : base.Sound defs inst) (he : base.rules[id]? = some entry) :
    ∃ r bs, defs id = some r ∧ r.name = entry.name ∧ r.body.branches = .ok bs ∧
      (∀ k x, base.network.TerminalAt id k x → k < bs.length) ∧
      ∀ k < bs.length, ∃! x, base.network.TerminalAt id k x := by
  obtain ⟨-, r, I, hr, hI, hreg⟩ := h.registered he
  obtain ⟨b, hb, hsteps⟩ := hreg.blueprint
  obtain ⟨bs, hbs, hlength⟩ := Rule.length_terminals hb
  have hterminal := fun {k : Nat} {x : NodeId} =>
    h.houses.terminalAt_iff hI hb hsteps (k := k) (x := x)
  refine ⟨r, bs, hr, hreg.name.symm, hbs, ?_, ?_⟩
  · intro k x hx
    obtain ⟨i, hi, -⟩ := hterminal.1 hx
    rw [← hlength]
    exact (List.getElem?_eq_some_iff.1 hi).1
  · intro k hk
    rw [← hlength] at hk
    have hi := List.getElem?_eq_getElem hk
    obtain ⟨q, -, -, -, hq, -⟩ := (Rule.blueprint_terminals hb).1 hi
    rw [← hsteps] at hq
    have hnode := h.houses.node_of_step hI hq
    refine ⟨_, hterminal.2 ⟨_, hi, hnode⟩, fun y hy => ?_⟩
    obtain ⟨i', hi', hy⟩ := hterminal.1 hy
    obtain rfl : i' = _ := Option.some.inj (hi'.symm.trans hi)
    exact Option.some.inj (hy.symm.trans hnode)

end RuleBase.Sound

/-- **Rules and nodes agree on who uses what**, whatever commands led to the
    library. -/
theorem ownership_consistent {l : Library} (h : l.Reachable) : l.Ownership := by
  obtain ⟨inst, hs⟩ := h.sound
  have hs : l.base.Sound l.definitions inst := hs
  constructor
  · intro id entry he
    obtain ⟨-, r, I, -, -, hreg⟩ := hs.registered he
    refine ⟨?_, fun x => hs.mem_entry_nodes he⟩
    rw [hreg.nodes]
    exact Site.nodup_eraseDups _
  · exact fun id entry he => ⟨(hs.registered he).1, hs.ruleNamed?_name he⟩
  · exact fun x n hn r hr => hs.mem_rules_of_uses hn hr
  · intro x n hn hroot
    rw [NodeKind.isRoot, Option.not_isSome_iff_eq_none] at hroot
    exact hs.houses.used hn hroot
  · exact fun x n hn r hr s hsource =>
      hs.houses.uses_parent hn hr (Network.mem_parentsOf.2 (.inl hsource))
  · exact fun x n entry type memory hn hkind r hr => hs.uses_entryPoint hn hkind hr
  · exact fun id entry he => hs.terminals he
  · exact fun x n s rule branch query hn hkind => hs.houses.mem_terminal_rules hn hkind

/-- A rule with two branches that share the root of a type. -/
def Rule.choosing (name : String) : Rule where
  name
  body := ⟨.or, [.pattern { offset := 0, type := 2 },
    .group .and [.pattern { offset := 1, type := 2 }, .pattern { offset := 2, type := 3 }]]⟩

/-- A library whose last rule got numbers of nodes that had been removed. -/
def Library.renewed : Library :=
  [Command.add (.relating "first" 0), .add (.choosing "second"), .remove 0,
    .add (.relating "unbound" 7), .add (.choosing "third")].foldl Library.after (.empty {})

theorem ownership_consistent_renewed : Library.renewed.Reachable ∧
    (3 : RuleId) ∈ Library.renewed.base.rules ∧ Library.renewed.Ownership := by
  have h : Library.renewed.Reachable := .step (.step (.step (.step (.step (.empty rfl) _) _) _) _) _
  exact ⟨h, by decide +kernel, ownership_consistent h⟩

end RuleNet
