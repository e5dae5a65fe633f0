/-
  RuleNet — what nodes stand for when all sharing is undone.

  A node unfolds into a tree when each of its sources is replaced by the tree
  that the source unfolds into.  Guards, and everything that depends on where a
  node is kept and who uses it, do not stand in the tree.  What a rule's
  requests got unfolds into the tree that its blueprint unfolds into
  (`Houses.unfolds`), so the terminals of a rule unfold into the same trees
  whatever else the network holds (`sharing_transparent`).
-/
import RuleNet.Proofs.Drawing
import RuleNet.Proofs.Editing

namespace RuleNet

/-! ## Trees -/

/-- A node with everything above it. -/
inductive Tree where
  | entryPoint (entry : EntryPoint)
  | objectType (entry : EntryPoint) (type : Symbol) (memory : Bool)
  | alpha (source : Tree) (test : FieldTest)
  | leftInput (source : Tree)
  /-- It joins tuples and facts, as the tests say that are no guards. -/
  | join (kind : JoinKind) (left right : Tree) (tests : List JoinTest) (tupleMemory : Bool)
  | rightInput (source : Tree)
  | queryElement (left : Tree) (query : Symbol) (arguments : List Argument)
  | terminal (source : Tree) (branch : Nat) (query : Bool)

instance : Inhabited Tree := ⟨.entryPoint .default⟩

namespace NodeKind

/-- The tree of a node whose sources have the trees that `f` tells. -/
def tree (f : NodeId → Tree) : NodeKind → Tree
  | entryPoint entry => .entryPoint entry
  | objectType entry type memory => .objectType entry type memory
  | alpha source test => .alpha (f source) test
  | leftInput source => .leftInput (f source)
  | join j => .join j.kind (f j.left) (f j.right) (JoinTest.weighed true j.tests) j.tupleMemory
  | rightInput source => .rightInput (f source)
  | queryElement left query arguments => .queryElement (f left) query arguments
  | terminal source _ branch query => .terminal (f source) branch query

variable {k k' : NodeKind} {f f' : NodeId → Tree} {g : Bool}

theorem tree_congr (h : ∀ s ∈ k.sources, f s = f' s) : k.tree f = k.tree f' := by
  cases k <;> simp_all [tree, sources]

theorem tree_map {h : NodeId → NodeId} {ρ : RuleId → RuleId} :
    (k.map h ρ).tree f = k.tree fun s => f (h s) := by
  cases k <;> rfl

/-- A node that does the work of another has the same tree. -/
theorem tree_eq_of_serves (h : k.serves g k') : k.tree f = k'.tree f := by
  obtain rfl | ⟨i, j, rfl, rfl, h⟩ := serves_cases h
  · rfl
  · obtain ⟨h₁, h₂, h₃, h₄, h₅⟩ := serves_join.1 h
    simp only [tree, h₁, h₂, h₃, h₄, JoinTest.weighed_true_of_agree h₅]

end NodeKind

/-! ## Unfolding -/

/-- The tree that a node unfolds into. -/
inductive Network.Unfolds (net : Network) : NodeId → Tree → Prop where
  | node {x : NodeId} {n : Node} {f : NodeId → Tree} (there : net.nodes[x]? = some n)
      (sources : ∀ s ∈ n.kind.sources, Unfolds net s (f s)) : Unfolds net x (n.kind.tree f)

/-- The tree that a step of a blueprint unfolds into. -/
inductive StepUnfolds (steps : List Request) : Nat → Tree → Prop where
  | step {i : Nat} {q : Request} {f : Nat → Tree} (there : steps[i]? = some q)
      (sources : ∀ s ∈ q.kind.sources, StepUnfolds steps s (f s)) :
      StepUnfolds steps i (q.kind.tree f)

/-- A node unfolds into one tree. -/
theorem Network.Unfolds.unique {net : Network} {x : NodeId} {t t' : Tree} (h : net.Unfolds x t)
    (h' : net.Unfolds x t') : t = t' := by
  induction h generalizing t' with
  | @node x n f hn _ ih =>
    cases h' with
    | @node _ n' f' hn' hs' =>
      obtain rfl : n' = n := Option.some.inj (hn'.symm.trans hn)
      exact NodeKind.tree_congr fun s hs => ih s hs (hs' s hs)

/-- Every step of an orderly blueprint unfolds. -/
theorem Orderly.exists_unfolds {memory : Bool} {steps : List Request} (h : Orderly memory steps)
    (i : Nat) (hi : i < steps.length) : ∃ t, StepUnfolds steps i t := by
  induction i using Nat.strongRecOn with
  | ind i ih =>
    obtain ⟨q, hq⟩ : ∃ q, steps[i]? = some q := ⟨_, List.getElem?_eq_getElem hi⟩
    have hsources : ∀ s : Nat, ∃ t, s ∈ q.kind.sources → StepUnfolds steps s t := by
      intro s
      by_cases hs : s ∈ q.kind.sources
      · have hlt := h.source_lt hq hs
        obtain ⟨t, ht⟩ := ih s hlt (hlt.trans hi)
        exact ⟨t, fun _ => ht⟩
      · exact ⟨default, fun hs' => absurd hs' hs⟩
    choose f hf using hsources
    exact ⟨_, .step hq hf⟩

/-- **What a step got unfolds as the step does.** -/
theorem Network.Houses.unfolds {net : Network} {config : Config}
    {inst : RuleId → Option Installation} {rule : RuleId} {I : Installation}
    (h : net.Houses config inst) (hI : inst rule = some I) {i : Nat} {t : Tree}
    (ht : StepUnfolds I.steps i t) : net.Unfolds (I.nodeAt i) t := by
  induction ht with
  | @step i q f hq _ ih =>
    obtain ⟨n, hn, hserves⟩ := h.placed hI hq (h.node_of_step hI hq)
    -- two sources that got one node unfold into one tree
    have htrees : ∀ x : NodeId, ∃ t, ∀ s ∈ q.kind.sources, I.nodeAt s = x → f s = t := by
      intro x
      by_cases hx : ∃ s ∈ q.kind.sources, I.nodeAt s = x
      · obtain ⟨s, hs, rfl⟩ := hx
        exact ⟨f s, fun s' hs' heq => (heq ▸ ih s' hs').unique (ih s hs)⟩
      · exact ⟨default, fun s hs heq => absurd ⟨s, hs, heq⟩ hx⟩
    choose f' hf' using htrees
    have htree : q.kind.tree f = n.kind.tree f' := by
      rw [NodeKind.tree_eq_of_serves hserves, Installation.wanted, NodeKind.tree_map]
      exact NodeKind.tree_congr fun s hs => hf' _ s hs rfl
    rw [htree]
    refine .node hn fun x hx => ?_
    rw [NodeKind.sources_eq_of_serves hserves, Installation.wanted, NodeKind.sources_map,
      List.mem_map] at hx
    obtain ⟨s, hs, rfl⟩ := hx
    rw [← hf' _ s hs rfl]
    exact ih s hs

/-! ## Terminals -/

mutual

theorem Element.meets_true : (e : Element) → e.Meets (fun _ => True) True
  | .pattern _ => fun _ _ => trivial
  | .group _ members => Element.meetAll_true members
  | .every .. => trivial
  | .call _ => trivial

theorem Element.meetAll_true : (es : List Element) → Element.MeetAll (fun _ => True) True es
  | [] => trivial
  | e :: es => ⟨e.meets_true, Element.meetAll_true es⟩

end

/-- Terminals stand at the end of the branches, and nowhere else. -/
theorem Rule.blueprint_terminals {config : Config} {r : Rule} {b : Blueprint}
    (h : r.blueprint config = .ok b) {k i : Nat} : b.terminals[k]? = some i ↔
      ∃ q s rule f, b.steps[i]? = some q ∧ q.kind = .terminal s rule k f := by
  obtain ⟨hterminal, hwithin⟩ := r.blueprint_steps (G := fun _ => True) (fun _ _ _ => trivial)
    (fun _ => ⟨fun _ => trivial, fun _ => trivial⟩) trivial r.body.toElement.meets_true h
  constructor
  · intro hi
    obtain ⟨s, hs⟩ := hterminal hi
    exact ⟨_, s, 0, r.isQuery, hs, rfl⟩
  · rintro ⟨q, s, rule, f, hq, hkind⟩
    obtain hin | ⟨k', s', hi, rfl⟩ := hwithin hq
    · exact absurd hkind (hin.inner s rule k f)
    · cases hkind
      exact hi

/-- The terminal of a rule's branch. -/
def Network.TerminalAt (net : Network) (rule : RuleId) (branch : Nat) (x : NodeId) : Prop :=
  ∃ n s query, net.nodes[x]? = some n ∧ n.kind = .terminal s rule branch query

/-- The terminals of a rule are what the last step of each branch got. -/
theorem Network.Houses.terminalAt_iff {net : Network} {config : Config}
    {inst : RuleId → Option Installation} {rule : RuleId} {I : Installation} {r : Rule}
    {b : Blueprint} (h : net.Houses config inst) (hI : inst rule = some I)
    (hb : r.blueprint config = .ok b) (hsteps : I.steps = b.steps) {k : Nat} {x : NodeId} :
    net.TerminalAt rule k x ↔ ∃ i, b.terminals[k]? = some i ∧ I.nodes[i]? = some x := by
  constructor
  · rintro ⟨n, s, query, hn, hkind⟩
    obtain ⟨r', hr'⟩ := h.used hn (by rw [hkind]; rfl)
    obtain ⟨J, hJ, hx⟩ := (h.owners hn r').1 hr'
    obtain ⟨i, hi⟩ := List.mem_iff_getElem?.1 hx
    obtain ⟨q, hq⟩ := h.step_of_node hJ hi
    obtain ⟨n', hn', hserves⟩ := h.placed hJ hq hi
    obtain rfl : n' = n := Option.some.inj (hn'.symm.trans hn)
    -- the request is for a terminal, and whose terminal it is, is told by its kind
    obtain ⟨s', rule', hqkind, rfl⟩ : ∃ s' rule', q.kind = .terminal s' rule' k query ∧ r' = rule := by
      rw [hkind, Installation.wanted] at hserves
      obtain heq | ⟨i, j, hjoin, -⟩ := NodeKind.serves_cases hserves
      · cases hq' : q.kind <;> rw [hq'] at heq <;> cases heq
        exact ⟨_, _, rfl, rfl⟩
      · cases hjoin
    obtain rfl : J = I := Option.some.inj (hJ.symm.trans hI)
    rw [hsteps] at hq
    exact ⟨i, (Rule.blueprint_terminals hb).2 ⟨q, s', rule', query, hq, hqkind⟩, hi⟩
  · rintro ⟨i, hk, hi⟩
    obtain ⟨q, s, rule', f, hq, hqkind⟩ := (Rule.blueprint_terminals hb).1 hk
    obtain ⟨n, hn, hserves⟩ := h.placed hI (by rw [hsteps, hq]) hi
    rw [Installation.wanted, hqkind] at hserves
    obtain heq | ⟨i, j, -, hjoin, -⟩ := NodeKind.serves_cases hserves
    · exact ⟨n, _, _, hn, heq⟩
    · cases hjoin

/-! ## Sharing -/

/-- The configuration under which rules share no more than roots. -/
def Config.unshared (c : Config) : Config := { c with alphaSharing := false, betaSharing := false }

/-- Blueprints do not depend on what is shared. -/
theorem Rule.blueprint_unshared (config : Config) (r : Rule) :
    r.blueprint config.unshared = r.blueprint config := rfl

/-- **Sharing is transparent.**  A registered rule has one terminal for each
    branch, and each unfolds into the tree that the terminal of that branch
    unfolds into when the definition is compiled alone and nothing is shared. -/
theorem sharing_transparent {l : Library} (h : l.Reachable) {id : RuleId} {entry : RuleEntry}
    (he : l.base.rules[id]? = some entry) :
    ∃ r built, l.definitions id = some r ∧
      ((RuleBase.empty l.base.config.unshared).add r).result = .ok built ∧
      (∀ k x x', l.base.network.TerminalAt id k x → l.base.network.TerminalAt id k x' → x = x') ∧
      (∀ k, (∃ x, l.base.network.TerminalAt id k x) ↔ k < built.terminals.length) ∧
      ∀ k x y, l.base.network.TerminalAt id k x → built.terminals[k]? = some y →
        ∃ t, (∀ t', l.base.network.Unfolds x t' ↔ t' = t) ∧
          ∀ t', ((RuleBase.empty l.base.config.unshared).add r).base.network.Unfolds y t' ↔
            t' = t := by
  obtain ⟨inst, hs⟩ := h.sound
  obtain ⟨-, r, I, hr, hI, hreg⟩ := hs.registered he
  obtain ⟨b, hb, hsteps⟩ := hreg.blueprint
  -- the definition compiled alone
  have hempty := RuleBase.sound_empty l.base.config.unshared hs.maker
  have hb' := (Rule.blueprint_unshared l.base.config r).trans hb
  obtain ⟨built, I', hok, hc⟩ := RuleBase.add_ok hempty (RuleBase.ruleNamed?_empty _ _)
    (RuleBase.rules_empty _ _) hb'
  have hs' := hempty.compiled hb' hc
  have hI' := Function.update_self (RuleBase.empty l.base.config.unshared).nextRule (some I')
    fun _ => (none : Option Installation)
  have hnode : ∀ {k i : Nat}, b.terminals[k]? = some i →
      I.nodes[i]? = some (I.nodeAt i) ∧ i < b.steps.length := by
    intro k i hk
    obtain ⟨q, -, -, -, hq, -⟩ := (Rule.blueprint_terminals hb).1 hk
    exact ⟨hs.houses.node_of_step hI (by rw [hsteps, hq]), (List.getElem?_eq_some_iff.1 hq).1⟩
  have hterminal := fun {k : Nat} {x : NodeId} =>
    hs.houses.terminalAt_iff hI hb hsteps (k := k) (x := x)
  refine ⟨r, built, hr, hok, ?_, ?_, ?_⟩
  · intro k x x' hx hx'
    obtain ⟨i, hi, hx⟩ := hterminal.1 hx
    obtain ⟨i', hi', hx'⟩ := hterminal.1 hx'
    obtain rfl : i = i' := Option.some.inj (hi.symm.trans hi')
    exact Option.some.inj (hx.symm.trans hx')
  · intro k
    rw [hc.terminals.length_eq]
    constructor
    · rintro ⟨x, hx⟩
      obtain ⟨i, hi, -⟩ := hterminal.1 hx
      exact (List.getElem?_eq_some_iff.1 hi).1
    · intro hk
      have hi := List.getElem?_eq_getElem hk
      exact ⟨_, hterminal.2 ⟨_, hi, (hnode hi).1⟩⟩
  · intro k x y hx hy
    obtain ⟨i, hi, hx⟩ := hterminal.1 hx
    have hy' : I'.nodes[i]? = some y := by
      obtain ⟨hk, rfl⟩ := List.getElem?_eq_some_iff.1 hy
      obtain ⟨hk', rfl⟩ := List.getElem?_eq_some_iff.1 hi
      exact (List.forall₂_iff_get.1 hc.terminals).2 k hk hk'
    obtain ⟨hnodeAt, hlt⟩ := hnode hi
    have horderly := hs.houses.orderly hI
    rw [hsteps] at horderly
    obtain ⟨t, ht⟩ := horderly.exists_unfolds i hlt
    have hx₁ := hs.houses.unfolds hI (by rwa [hsteps])
    have hy₁ := hs'.houses.unfolds hI' (by rwa [hc.steps])
    rw [Installation.nodeAt_eq hx] at hx₁
    rw [Installation.nodeAt_eq hy'] at hy₁
    refine ⟨t, fun t' => ⟨fun h' => h'.unique hx₁, ?_⟩, fun t' => ⟨fun h' => h'.unique hy₁, ?_⟩⟩
    · rintro rfl
      exact hx₁
    · rintro rfl
      exact hy₁

/-- Two rules that share all their nodes but the terminals. -/
def Library.sharing : Library :=
  (Library.empty {}).after (.addAll [.relating "first" 0, .relating "second" 0])

/-- The terminals of the second one unfold as if it were alone. -/
theorem sharing_transparent_second : ∃ entry, Library.sharing.base.rules[(1 : RuleId)]? = some entry ∧
    ∃ r built, Library.sharing.definitions 1 = some r ∧
      ((RuleBase.empty Library.sharing.base.config.unshared).add r).result = .ok built ∧
      ∀ k x y, Library.sharing.base.network.TerminalAt 1 k x → built.terminals[k]? = some y →
        ∃ t, (∀ t', Library.sharing.base.network.Unfolds x t' ↔ t' = t) ∧
          ∀ t', ((RuleBase.empty Library.sharing.base.config.unshared).add r).base.network.Unfolds
            y t' ↔ t' = t := by
  have h : Library.sharing.Reachable := .step (.empty rfl) _
  have hmem : Library.sharing.base.rules[(1 : RuleId)]?.isSome := by decide +kernel
  obtain ⟨entry, he⟩ := Option.isSome_iff_exists.1 hmem
  obtain ⟨r, built, hr, hok, -, -, htrees⟩ := sharing_transparent h he
  exact ⟨entry, he, r, built, hr, hok, htrees⟩

end RuleNet
