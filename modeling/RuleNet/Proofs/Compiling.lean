/-
  RuleNet — what compiling a rule does to a rule base.

  Compiling a rule ends in one of four ways.  If the name is taken, nothing
  happens.  If the rule has no blueprint, the failure is that of the blueprint
  and what was done is undone.  Otherwise the blueprint has been served.  Then
  the rule is registered if its number is free; if it is not, the name is said
  to be taken, and what was done is undone (`compile_duplicate`,
  `compile_error`, `compile_ok`, `compile_collided`).
-/
import RuleNet.Proofs.Following
import RuleNet.Proofs.Rollback

namespace RuleNet

/-! ## Between branches -/

/-- A session between two branches of a rule. -/
structure Session.Between (s : Session) (site : Site) (rule : RuleId) (partition : PartitionId)
    (query : Bool) (d : Draft) (I : Installation) : Prop where
  served : s.Served site rule partition I
  /-- It was just that. -/
  steps : I.steps = d.steps
  maker : s.maker = .plain
  memories : s.memories? = none
  ruleId : s.ruleId? = some rule
  partition : s.partition?.getD .shared = partition
  objectTypeMemory : s.objectTypeMemory = site.base.config.objectTypeMemory
  query : s.query = query
  elements : s.elements = []
  trail : s.trail = []

/-- The stage of a branch. -/
def Stage.ofBranch (site : Site) (rule : RuleId) (partition : PartitionId) (query : Bool)
    (b : Branch) (distances? : Option Distances) : Stage where
  site
  rule
  partition
  setting := ⟨site.base.config.objectTypeMemory, distances?, false⟩
  tupleMemory := true
  query
  branch? := some b
  elements := []
  trail := []

namespace Session

variable {s t : Session} {site : Site} {rule : RuleId} {partition : PartitionId} {query : Bool}
variable {d d' : Draft} {I J : Installation}

theorem checkBalanced_eq (he : s.elements = []) (ht : s.trail = []) : s.checkBalanced = .ok () := by
  rw [checkBalanced, he, ht]
  rfl

/-- What is left at the end of a branch. -/
def Ended (I : Installation) (site : Site) (rule : RuleId) (partition : PartitionId)
    (query : Bool) (x : NodeId) (s' : Session) (i : Nat) (d' : Draft) : Prop :=
  ∃ J, s'.Between site rule partition query d' J ∧ I.Below J ∧ J.nodes[i]? = some x

namespace Between

variable (h : s.Between site rule partition query d I)
include h

theorem matches_start (b : Branch) (distances? : Option Distances) :
    (Stage.ofBranch site rule partition query b distances?).Matches
      { s.resetBranch with distances?, branch? := some b } d.nextBranch I where
  served := h.served
  steps := h.steps
  memory := rfl
  maker := h.maker
  memories := h.memories
  ruleId := h.ruleId
  partition := h.partition
  objectTypeMemory := h.objectTypeMemory
  distances := rfl
  guardsOut := rfl
  tupleMemory := rfl
  query := h.query
  branch := rfl
  elements := h.elements
  trail := h.trail
  scope := rfl
  offset := rfl
  recent := rfl
  tuple := .none

theorem agree_distances (b : Branch) {F : Session → Draft → Prop} (hF : F s d) :
    Agree F (fun a s' b d' => a = b ∧ s' = s ∧ d' = d) (branchDistances b s)
      ((if site.base.config.isStream then some <$> ofExcept (Distances.ofPatterns b.body.patterns)
        else pure none : Draw (Option Distances)) d) := by
  have hconfig : s.base.config = site.base.config := Site.Runs.config_eq h.served
  rw [branchDistances, get_bind, hconfig]
  split
  · cases Distances.ofPatterns b.body.patterns with
    | error f => exact .error hF
    | ok ds => exact .ok ⟨rfl, rfl, rfl⟩
  · exact .ok ⟨rfl, rfl, rfl⟩

end Between

theorem agree_terminal {g : Stage} {b : Branch} {i : Nat}
    (h : g.Matches s d I) (h₀ : g.site.Standing g.rule .empty) (hb : g.branch? = some b)
    (hi : d.tuple? = some i) :
    Agree g.Fails (g.Post fun x i _ J => I.Below J ∧ J.nodes[i]? = some x) (attachTerminal s)
      (Draw.request g.setting (.terminal i 0 b.index g.query) none d) := by
  obtain ⟨source, hreq, hsource⟩ := h.requireTuple_eq .branchWithoutOutput hi
  let q : Request := ⟨.terminal i 0 b.index g.query, g.setting.guardsOut, none⟩
  have hq : q.Follows g.setting.memory I.steps := by
    refine Installation.follows_of_got (fun i hi => ?_) rfl (fun j hj => by cases hj)
    obtain rfl := List.mem_singleton.1 hi
    exact ⟨source, hsource⟩
  have hwanted : I.wanted g.rule q =
      .terminal source g.rule ((s.branch?.map (·.index)).getD 0) s.query := by
    simp only [q, Installation.wanted, NodeKind.map, hsource.nodeAt, h.branch, hb, h.query]
    rfl
  have hmade := h.agree_made h₀ hq rfl rfl rfl
  rw [hwanted] at hmade
  rw [attachTerminal, bind_ok hreq, bind_ok (requireRule_eq h.ruleId), get_bind]
  refine hmade.mono ?_
  rintro x s₁ j d₁ ⟨J, hJ, rfl, rfl, rfl⟩
  refine ⟨_, hJ, Installation.below_snoc I q x, ?_⟩
  rw [Installation.snoc, ← h.length h₀, List.getElem?_concat_length]

/-- A branch whose distances are known. -/
theorem Between.agree_body (h : s.Between site rule partition query d I)
    (h₀ : site.Standing rule .empty) (name : String) (b : Branch) (distances? : Option Distances) :
    Agree (Failed site rule partition) (Ended I site rule partition query)
      ((do
        let terminal ← insideOrigin (.rule name) do
          insideElement b.body.toElement (attachElements b.body.members)
          ensureTuple
          attachTerminal
        orFail (← get).checkBalanced
        return terminal : Compile NodeId) { s.resetBranch with distances?, branch? := some b })
      ((do
        Draw.elements ⟨site.base.config.objectTypeMemory, distances?, false⟩ b.body.members
        let source ← Draw.tuple ⟨site.base.config.objectTypeMemory, distances?, false⟩
        Draw.request ⟨site.base.config.objectTypeMemory, distances?, false⟩
          (.terminal source 0 b.index query) none : Draw Nat) d.nextBranch) := by
  have hg := h.matches_start b distances?
  change Agree (Stage.ofBranch site rule partition query b distances?).Fails _ _ _
  refine Agree.last (P := (Stage.ofBranch site rule partition query b distances?).Post
    fun x i _ J => I.Below J ∧ J.nodes[i]? = some x) (Stage.agree_insideOrigin ?_) ?_
  · have hg := hg.enter (.rule name)
    refine Agree.bind (Stage.agree_insideElement
      (Stage.agree_elements (hg.enterElement b.body.toElement) h₀ rfl b.body.members)) ?_
    rintro _ s₁ _ d₁ ⟨J, hJ, hR⟩
    refine Agree.bind (hJ.agree_tuple h₀ rfl) ?_
    rintro _ s₂ i d₂ ⟨K, hK, hR', hi⟩
    refine (agree_terminal hK h₀ rfl hi).mono ?_
    rintro x s₃ j d₃ ⟨L, hL, hb, hx⟩
    exact ⟨L, hL, (hR.trans hR').1.trans hb, hx⟩
  · rintro x s' i d' ⟨J, hJ, hb, hx⟩
    refine ⟨x, s', ?_, J, ?_, hb, hx⟩
    · rw [get_bind, checkBalanced_eq hJ.elements hJ.trail]
      rfl
    · exact ⟨hJ.served, hJ.steps, hJ.maker, hJ.memories, hJ.ruleId, hJ.partition,
        hJ.objectTypeMemory, hJ.query, hJ.elements, hJ.trail⟩

theorem Between.agree_branch (h : s.Between site rule partition query d I)
    (h₀ : site.Standing rule .empty) (name : String) (b : Branch) :
    Agree (Failed site rule partition) (Ended I site rule partition query)
      (attachBranch name b s) (Draw.branch site.base.config query b d) := by
  have hreset : s.resetBranch.Between site rule partition query d.nextBranch I := { h with }
  have hbalanced : orFail s.resetBranch.checkBalanced s.resetBranch = .ok () s.resetBranch := by
    rw [checkBalanced_eq hreset.elements hreset.trail]
    rfl
  have hfailed : Failed site rule partition s.resetBranch d.nextBranch := ⟨I, h.steps, h.served⟩
  have hdistances := hreset.agree_distances b hfailed
  rw [attachBranch, modify_bind, get_bind, bind_ok hbalanced]
  refine Agree.right rfl ?_
  by_cases hstream : site.base.config.isStream
  · simp only [hstream, if_true] at hdistances ⊢
    refine Agree.bind hdistances ?_
    rintro distances? _ _ _ ⟨rfl, rfl, rfl⟩
    exact h.agree_body h₀ name b distances?
  · simp only [hstream] at hdistances ⊢
    refine Agree.bind hdistances ?_
    rintro distances? _ _ _ ⟨rfl, rfl, rfl⟩
    exact h.agree_body h₀ name b distances?

theorem Between.agree_branches (h : s.Between site rule partition query d I)
    (h₀ : site.Standing rule .empty) (name : String) (bs : List Branch) :
    Agree (Failed site rule partition)
      (fun xs s' is d' => ∃ J, s'.Between site rule partition query d' J ∧ I.Below J ∧
        List.Forall₂ (fun x i => J.nodes[i]? = some x) xs is)
      (bs.mapM (attachBranch name) s) (bs.mapM (Draw.branch site.base.config query) d) := by
  induction bs generalizing s d I with
  | nil => exact .ok ⟨I, h, .refl I, .nil⟩
  | cons b bs ih =>
    rw [List.mapM_cons, List.mapM_cons]
    refine Agree.bind (h.agree_branch h₀ name b) ?_
    rintro x s₁ i d₁ ⟨J, hJ, hb, hx⟩
    refine Agree.bind (ih hJ) ?_
    rintro xs s₂ is d₂ ⟨K, hK, hb', hxs⟩
    exact .ok ⟨K, hK, hb.trans hb', .cons (hb'.node hx) hxs⟩

/-! ## Whole rules -/

theorem Between.agree_rule {r : Rule} (h : s.Between site rule partition r.isQuery d I)
    (h₀ : site.Standing rule .empty) :
    Agree (Failed site rule partition)
      (fun xs s' is d' => ∃ J, s'.Between site rule partition r.isQuery d' J ∧ I.Below J ∧
        List.Forall₂ (fun x i => J.nodes[i]? = some x) xs is)
      (attachRule r s) (Draw.rule site.base.config r d) :=
  Agree.check _ ⟨I, h.steps, h.served⟩ fun bs _ => h.agree_branches h₀ r.name bs

/-- A rule with a blueprint is attached as the blueprint says. -/
theorem Between.attachRule_ok {r : Rule} {b : Blueprint}
    (h : s.Between site rule partition r.isQuery .empty .empty) (h₀ : site.Standing rule .empty)
    (hb : r.blueprint site.base.config = .ok b) :
    ∃ terminals t d J, attachRule r s = .ok terminals t ∧
      t.Between site rule partition r.isQuery d J ∧ J.steps = b.steps ∧
      List.Forall₂ (fun x i => J.nodes[i]? = some x) terminals b.terminals := by
  have hagree := h.agree_rule h₀
  unfold Rule.blueprint at hb
  generalize hr : attachRule r s = u, hd : Draw.rule site.base.config r .empty = v at hagree
  rw [hd] at hb
  cases hagree with
  | ok hpost =>
    cases hb
    obtain ⟨J, hJ, -, hx⟩ := hpost
    exact ⟨_, _, _, J, rfl, hJ, hJ.steps, hx⟩
  | error hfail => cases hb

/-- A rule without a blueprint fails as its blueprint does. -/
theorem Between.attachRule_error {r : Rule} {f : Fault}
    (h : s.Between site rule partition r.isQuery .empty .empty) (h₀ : site.Standing rule .empty)
    (hb : r.blueprint site.base.config = .error f) :
    ∃ t J, attachRule r s = .error f t ∧ t.Served site rule partition J := by
  have hagree := h.agree_rule h₀
  unfold Rule.blueprint at hb
  generalize hr : attachRule r s = u, hd : Draw.rule site.base.config r .empty = v at hagree
  rw [hd] at hb
  cases hagree with
  | ok hpost => cases hb
  | error hfail =>
    cases hb
    obtain ⟨J, -, hJ⟩ := hfail
    exact ⟨_, J, rfl, hJ⟩

/-- A step leaves a session behind, whether or not it fails. -/
def Leaves {α : Type} (step : Compile α) (s t : Session) : Prop :=
  (∃ a, step s = .ok a t) ∨ ∃ f, step s = .error f t

/-- What a rule leaves behind has been served, and is what the rule asks for. -/
theorem Between.requests {r : Rule} (h : s.Between site rule partition r.isQuery .empty .empty)
    (h₀ : site.Standing rule .empty) (hl : Leaves (attachRule r) s t) :
    ∃ I : Installation, t.Served site rule partition I ∧ I.steps = r.requests site.base.config := by
  have hagree := h.agree_rule h₀
  unfold Rule.requests
  obtain ⟨a, hok⟩ | ⟨f, herror⟩ := hl
  · rw [hok] at hagree
    obtain ⟨is, d, hdraw, J, hJ, -⟩ := hagree.of_ok
    rw [hdraw]
    exact ⟨J, hJ.served, hJ.steps⟩
  · rw [herror] at hagree
    obtain ⟨d, hdraw, J, hsteps, hJ⟩ := hagree.of_error
    rw [hdraw]
    exact ⟨J, hJ, hsteps⟩

/-! ## Beginning and ending -/

/-- A session with no rule at hand. -/
structure Idle (s : Session) : Prop where
  maker : s.maker = .plain
  elements : s.elements = []
  trail : s.trail = []

theorem idle_start {base : RuleBase} (h : base.config.maker = .plain) : (start base).Idle :=
  ⟨h, rfl, rfl⟩

end Session

/-- The partition of a rule that has been begun, and the rule base with its
    number and partition taken. -/
def RuleBase.begun (base : RuleBase) : PartitionId × RuleBase :=
  { base with nextRule := tick base.nextRule }.assignPartition

theorem RuleBase.begun_eq (base : RuleBase) : ∃ p, base.begun.2 =
    { base with nextRule := tick base.nextRule, nextPartition := p } := by
  unfold begun assignPartition
  split <;> exact ⟨_, rfl⟩

/-- Where rules are partitioned, a rule that is begun gets the next
    partition. -/
theorem RuleBase.begun_partition {base : RuleBase} (h : base.config.partitioning) :
    base.begun.1 = base.nextPartition ∧ base.begun.2.nextPartition = tick base.nextPartition := by
  rw [begun, assignPartition, if_pos h]
  exact ⟨rfl, rfl⟩

/-- What compiling a rule leaves behind: the rule is built as `I` tells. -/
structure RuleBase.Compiled (base : RuleBase) (r : Rule) (b : Blueprint) (built : Session.Built)
    (I : Installation) (base' : RuleBase) : Prop where
  /-- The name of the rule was free. -/
  unnamed : r.name ∉ base.names
  /-- Its number was free. -/
  unnumbered : base.rules[base.nextRule]? = none
  /-- What was asked for has been served, and the rule is registered. -/
  served : ∃ w, Site.Runs base.nextRule base.begun.1 ⟨base.begun.2, []⟩ I w ∧
    built.created = createdIds w.attached ∧
    built.shared = (w.attached.filter (!·.created)).map (·.id) ∧
    base' = { w.base with
      names := base.names.insert r.name base.nextRule
      rules := base.rules.insert base.nextRule
        ⟨base.nextRule, r.name, r.isQuery, base.begun.1, w.attached.map (·.id)⟩
      journal := base.journal ++ base.memories.map fun memory =>
        ⟨memory, .attached, base.nextRule, w.attached.map (·.id)⟩ }
  steps : I.steps = b.steps
  rule : built.rule = base.nextRule
  partition : built.partition = base.begun.1
  /-- The terminals are those of the blueprint. -/
  terminals : List.Forall₂ (fun x i => I.nodes[i]? = some x) built.terminals b.terminals

theorem RuleBase.Compiled.terminals_eq {base base' : RuleBase} {r : Rule} {b : Blueprint}
    {built : Session.Built} {I : Installation} (h : base.Compiled r b built I base') :
    built.terminals = b.terminals.map I.nodeAt := by
  rw [← List.forall₂_eq_eq_eq, List.forall₂_map_right_iff]
  exact h.terminals.imp fun x i hx => (Installation.nodeAt_eq hx).symm

namespace Session

variable {s t : Session} {r : Rule}

theorem change_ok {f : Session → Except Fault Session} (h : f s = .ok t) :
    change f s = .ok () t := by
  rw [change, get_bind, h]
  rfl

theorem take_ok {α : Type} {f : Session → Except Fault (α × Session)} {a : α}
    (h : f s = .ok (a, t)) : take f s = .ok a t := by
  rw [take, get_bind, h]
  rfl

theorem take_error {α : Type} {f : Session → Except Fault (α × Session)} {fault : Fault}
    (h : f s = .error fault) : take f s = .error fault s := by
  rw [take, get_bind, h]
  rfl

/-- The session with all forgotten that belongs to a rule. -/
def cleared (s : Session) : Session :=
  { s.resetBranch.discardStacks with
    objectTypeMemory := s.base.config.objectTypeMemory
    rule? := none, ruleId? := none, query := false
    attached := [], distances? := none, memories? := none }

/-- The session in which a rule has been begun. -/
def begun (s : Session) (r : Rule) : Session :=
  { { s.cleared with base := s.base.begun.2 }.setRule r s.base.nextRule with
    partition? := some s.base.begun.1 }

/-- Both stacks are empty. -/
structure Bare (s : Session) : Prop where
  elements : s.elements = []
  trail : s.trail = []

namespace Bare
variable (hs : s.Bare)
include hs

theorem resetRule_eq : change resetRule s = .ok () s.cleared := by
  refine change_ok ?_
  rw [resetRule, checkBalanced_eq hs.elements hs.trail]
  rfl

theorem beginRule_ok (hfree : r.name ∉ s.base.names) :
    beginRule r s = .ok (s.base.nextRule, s.base.begun.1) (s.begun r) := by
  have hreserve : s.cleared.base.reserveRule r.name =
      .ok (s.base.nextRule, { s.base with nextRule := tick s.base.nextRule }) :=
    if_neg (mt Std.ExtTreeMap.contains_iff_mem.1 hfree)
  rw [beginRule, bind_ok hs.resetRule_eq]
  refine Eq.trans (bind_ok (a := s.base.nextRule) (t := { s.cleared with
    base := { s.base with nextRule := tick s.base.nextRule } }) (take_ok ?_)) ?_
  · rw [hreserve]
    rfl
  · rfl

theorem beginRule_error (htaken : r.name ∈ s.base.names) :
    beginRule r s = .error (.duplicateRule r.name) s.cleared := by
  have hreserve : s.cleared.base.reserveRule r.name = .error (.duplicateRule r.name) :=
    if_pos (Std.ExtTreeMap.contains_iff_mem.2 htaken)
  rw [beginRule, bind_ok hs.resetRule_eq]
  refine bind_error (take_error ?_)
  rw [hreserve]
  rfl

end Bare

namespace Idle
variable (hs : s.Idle)
include hs

theorem bare : s.Bare := ⟨hs.elements, hs.trail⟩

theorem beginRule_ok (hfree : r.name ∉ s.base.names) :
    beginRule r s = .ok (s.base.nextRule, s.base.begun.1) (s.begun r) :=
  hs.bare.beginRule_ok hfree

theorem beginRule_error (htaken : r.name ∈ s.base.names) :
    ∃ t, beginRule r s = .error (.duplicateRule r.name) t ∧ t.base = s.base :=
  ⟨_, hs.bare.beginRule_error htaken, rfl⟩

theorem between_begun : (s.begun r).Between ⟨s.base.begun.2, []⟩ s.base.nextRule
    s.base.begun.1 r.isQuery .empty .empty := by
  obtain ⟨p, hbegun⟩ := s.base.begun_eq
  exact {
    served := .start
    steps := rfl
    maker := hs.maker
    memories := rfl
    ruleId := rfl
    partition := rfl
    objectTypeMemory := by rw [hbegun]; rfl
    query := rfl
    elements := rfl
    trail := rfl }

end Idle

/-! ## Compiling -/

section Placing
variable {α : Type} {step : Compile α} {a : α} {f : Fault}

theorem placeless_ok (h : step s = .ok a t) : placeless step s = .ok a t := by
  rw [placeless, EStateM.adaptExcept, h]

theorem placeless_error (h : step s = .error f t) : placeless step s = .error ⟨f, none⟩ t := by
  rw [placeless, EStateM.adaptExcept, h]

theorem orUndone_ok {id : RuleId} (h : step s = .ok a t) : orUndone id step s = .ok a t := by
  rw [orUndone, h]

theorem orUndone_error (id : RuleId) (h : step s = .error f t) : ∃ u,
    orUndone id step s = .error ⟨f, some t.place⟩ u ∧ u.base = t.base.rollback id t.attached := by
  rw [orUndone, h]
  exact ⟨_, rfl, rfl⟩

end Placing

/-- Where nothing is left open, the list of the nodes is taken. -/
theorem finish_ok (he : s.elements = []) (ht : s.trail = []) :
    take finish s = .ok s.attached { s with attached := [] } := by
  refine take_ok ?_
  rw [finish, checkBalanced_eq he ht]
  rfl

section Register
variable (entry : RuleEntry) (attached : List Attached)

/-- A rule whose name and number are free is registered. -/
theorem registerRule_ok (hname : entry.name ∉ s.base.names)
    (hnumber : s.base.rules[entry.id]? = none) :
    registerRule entry attached s = .ok () { s with base := { s.base with
      names := s.base.names.insert entry.name entry.id
      rules := s.base.rules.insert entry.id entry } } := by
  have hrules : s.base.rules.contains entry.id = false := by
    rw [Std.ExtTreeMap.contains_eq_isSome_getElem?, hnumber]
    rfl
  have hregister : s.base.registerRule entry = .ok { s.base with
      names := s.base.names.insert entry.name entry.id
      rules := s.base.rules.insert entry.id entry } :=
    if_neg (by rw [hrules, Bool.or_false, Std.ExtTreeMap.contains_iff_mem]; exact hname)
  rw [registerRule, get_bind, hregister]
  rfl

theorem registerRule_taken (hnumber : (s.base.rules[entry.id]?).isSome) :
    s.base.registerRule entry = .error (.duplicateRule entry.name) := by
  have hrules : s.base.rules.contains entry.id :=
    Std.ExtTreeMap.contains_eq_isSome_getElem?.trans hnumber
  exact if_pos (by rw [hrules, Bool.or_true])

/-- A rule whose number is taken is undone. -/
theorem registerRule_error (hnumber : (s.base.rules[entry.id]?).isSome) :
    registerRule entry attached s = .error (.duplicateRule entry.name)
      { s with base := s.base.rollback entry.id attached } := by
  rw [registerRule, get_bind, registerRule_taken entry hnumber]
  rfl

end Register

/-- The working memories that are told are those of the rule base, unless they
    have been read before. -/
theorem announce_ok (hm : s.memories? = none) (rule : RuleId) (nodes : List NodeId) :
    announce rule nodes s = .ok () { s with
      memories? := some s.base.memories
      base := s.base.notify s.base.memories .attached rule nodes } := by
  have hread : s.readMemories = (s.base.memories, { s with memories? := some s.base.memories }) := by
    rw [readMemories, hm]
    rfl
  change EStateM.Result.ok () _ = _
  simp only [hread]

section Compile

/-- A rule whose name is taken is not begun. -/
theorem compile_duplicate (hs : s.Idle) (htaken : r.name ∈ s.base.names) :
    ∃ t, compile r s = .error ⟨.duplicateRule r.name, none⟩ t ∧ t.base = s.base := by
  obtain ⟨t, hbegin, hbase⟩ := hs.beginRule_error htaken
  exact ⟨t, bind_error (placeless_error hbegin), hbase⟩

variable {inst : RuleId → Option Installation}

theorem site_sound (hhouses : s.base.network.Houses s.base.config inst) (hn : s.base.Numbered)
    (hnew : inst s.base.nextRule = none) :
    Site.Sound ⟨s.base.begun.2, []⟩ inst s.base.nextRule .empty := by
  obtain ⟨p, hbegun⟩ := s.base.begun_eq
  refine Site.sound_start ?_ ?_ hnew
  · rw [hbegun]
    exact hhouses
  · rw [hbegun]
    exact ⟨hn.valid, hn.live⟩

theorem site_standing (hhouses : s.base.network.Houses s.base.config inst)
    (hn : s.base.Numbered) : Site.Standing ⟨s.base.begun.2, []⟩ s.base.nextRule .empty := by
  obtain ⟨p, hbegun⟩ := s.base.begun_eq
  refine Site.standing_start (show s.base.begun.2.network.Houses _ inst from ?_) ?_ _
  · rw [hbegun]
    exact hhouses
  · rw [hbegun]
    exact ⟨hn.valid, hn.live⟩

/-- A rule can only begin in one way. -/
theorem Idle.eq_of_beginRule (hs : s.Idle) {p : RuleId × PartitionId}
    (h : beginRule r s = .ok p t) : p = (s.base.nextRule, s.base.begun.1) ∧ t = s.begun r := by
  by_cases hname : r.name ∈ s.base.names
  · obtain ⟨u, hfail, -⟩ := hs.beginRule_error hname
    rw [hfail] at h
    cases h
  · rw [hs.beginRule_ok hname] at h
    cases h
    exact ⟨rfl, rfl⟩

/-- Undoing what was served for the rule. -/
theorem Served.rollback {rule : RuleId} {partition : PartitionId} {base : RuleBase}
    {J : Installation} (hserved : t.Served ⟨base, []⟩ rule partition J)
    (h₀ : Site.Standing ⟨base, []⟩ rule .empty) :
    base.Restored (t.base.rollback rule t.attached) rule partition :=
  (Site.Runs.traced hserved h₀).rollback h₀.stands.wired h₀.numbered

variable (hs : s.Idle) (h₀ : Site.Standing ⟨s.base.begun.2, []⟩ s.base.nextRule .empty)
variable (hfree : r.name ∉ s.base.names)
include hs h₀ hfree

/-- A rule without a blueprint is undone. -/
theorem compile_error {f : Fault} (hb : r.blueprint s.base.config = .error f) :
    ∃ t p, compile r s = .error ⟨f, some p⟩ t ∧
      s.base.begun.2.Restored t.base s.base.nextRule s.base.begun.1 := by
  obtain ⟨p, hbegun⟩ := s.base.begun_eq
  have hconfig : s.base.config = s.base.begun.2.config := by rw [hbegun]
  rw [hconfig] at hb
  obtain ⟨t, J, hattach, hserved⟩ := hs.between_begun.attachRule_error h₀ hb
  obtain ⟨u, hundone, hbase⟩ := orUndone_error s.base.nextRule hattach
  refine ⟨u, t.place, ?_, ?_⟩
  · rw [compile, bind_ok (placeless_ok (hs.beginRule_ok hfree))]
    exact bind_error hundone
  · rw [hbase]
    exact Served.rollback hserved h₀

omit hfree in
/-- Serving the blueprint of a rule changes neither the rules nor their names. -/
theorem attachRule_rest {b : Blueprint} (hb : r.blueprint s.base.config = .ok b) :
    ∃ terminals t d J, attachRule r (s.begun r) = .ok terminals t ∧
      t.Between ⟨s.base.begun.2, []⟩ s.base.nextRule s.base.begun.1 r.isQuery d J ∧
      J.steps = b.steps ∧ List.Forall₂ (fun x i => J.nodes[i]? = some x) terminals b.terminals ∧
      t.base.rules = s.base.rules ∧ t.base.names = s.base.names ∧
      t.base.memories = s.base.memories ∧ t.base.journal = s.base.journal := by
  obtain ⟨p, hbegun⟩ := s.base.begun_eq
  have hconfig : s.base.config = s.base.begun.2.config := by rw [hbegun]
  rw [hconfig] at hb
  obtain ⟨terminals, t, d, J, hattach, hJ, hsteps, hterminals⟩ :=
    hs.between_begun.attachRule_ok h₀ hb
  obtain ⟨net, ids, hbase⟩ := Site.Runs.base_eq hJ.served
  have hbase : t.base = { s.base.begun.2 with network := net, ids } := hbase
  rw [hbegun] at hbase
  exact ⟨terminals, t, d, J, hattach, hJ, hsteps, hterminals, by rw [hbase], by rw [hbase],
    by rw [hbase], by rw [hbase]⟩

/-- A rule with a blueprint is built as it says, and registered. -/
theorem compile_ok {b : Blueprint} (hb : r.blueprint s.base.config = .ok b)
    (hnumber : s.base.rules[s.base.nextRule]? = none) :
    ∃ t built I, compile r s = .ok built t ∧ t.Idle ∧ s.base.Compiled r b built I t.base := by
  obtain ⟨terminals, t, d, J, hattach, hJ, hsteps, hterminals, hrules, hnames, hmemories, hjournal⟩ :=
    attachRule_rest hs h₀ hb
  -- registering sees the rules and the working memories that were there before
  have hregister := registerRule_ok (s := { t with attached := [] })
    ⟨s.base.nextRule, r.name, r.isQuery, s.base.begun.1, t.attached.map (·.id)⟩ t.attached
    (hnames ▸ hfree) (hrules ▸ hnumber)
  have hcompile := calc
    compile r s = _ := bind_ok (placeless_ok (hs.beginRule_ok hfree))
    _ = _ := bind_ok (orUndone_ok hattach)
    _ = _ := bind_ok (placeless_ok (finish_ok hJ.elements hJ.trail))
    _ = _ := bind_ok (placeless_ok hregister)
    _ = _ := bind_ok (placeless_ok (announce_ok (by exact hJ.memories) _ _))
  refine ⟨_, _, J, hcompile, ⟨hJ.maker, hJ.elements, hJ.trail⟩, ?_⟩
  exact {
    unnamed := hfree
    unnumbered := hnumber
    served := by
      refine ⟨⟨t.base, t.attached⟩, hJ.served, rfl, rfl, ?_⟩
      rw [← hrules, ← hnames, ← hjournal, ← hmemories]
      rfl
    steps := hsteps
    rule := rfl
    partition := rfl
    terminals := hterminals }

/-- A rule with a blueprint is built, and undone if its number is that of
    another. -/
theorem compile_collided {b : Blueprint} (hb : r.blueprint s.base.config = .ok b)
    (hnumber : (s.base.rules[s.base.nextRule]?).isSome) :
    ∃ terminals t d J u, attachRule r (s.begun r) = .ok terminals t ∧
      t.Between ⟨s.base.begun.2, []⟩ s.base.nextRule s.base.begun.1 r.isQuery d J ∧
      J.steps = b.steps ∧ (t.base.rules[s.base.nextRule]?).isSome ∧
      compile r s = .error ⟨.duplicateRule r.name, none⟩ u ∧
      u.base = t.base.rollback s.base.nextRule t.attached := by
  obtain ⟨terminals, t, d, J, hattach, hJ, hsteps, -, hrules, -⟩ := attachRule_rest hs h₀ hb
  have htaken : (t.base.rules[s.base.nextRule]?).isSome := hrules ▸ hnumber
  have hregister := registerRule_error (s := { t with attached := [] })
    ⟨s.base.nextRule, r.name, r.isQuery, s.base.begun.1, t.attached.map (·.id)⟩ t.attached htaken
  have hcompile := calc
    compile r s = _ := bind_ok (placeless_ok (hs.beginRule_ok hfree))
    _ = _ := bind_ok (orUndone_ok hattach)
    _ = _ := bind_ok (placeless_ok (finish_ok hJ.elements hJ.trail))
    _ = _ := bind_error (placeless_error hregister)
  exact ⟨terminals, t, d, J, _, hattach, hJ, hsteps, htaken, hcompile, rfl⟩

end Compile

end Session

end RuleNet
