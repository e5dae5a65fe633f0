/-
  RuleNet — which nodes keep no tuples.

  A negation or existence claim keeps no tuples if the pattern drawn before it
  is about the initial fact.  Where the tuple at hand is then that of the initial
  fact alone, nothing is lost, as that fact is never retracted.  This is so if
  no pattern of a rule is about the type of the initial fact and every negation
  and existence claim contains a pattern (`Element.Anchored`): then the pattern
  drawn last is about the initial fact just as long as nothing has been joined
  to it (`Draft.Sparing`), and every node of the network without tuple memory
  hangs below the adapter of the initial fact (`tupleMemory_off_below_initial`).

  Otherwise it need not be so (`not_tupleMemory_off_below_initial_late`).
-/
import RuleNet.Proofs.Drafts
import RuleNet.Proofs.History
import RuleNet.Proofs.Meaning
import RuleNet.Proofs.Slots

namespace RuleNet

/-- A node that makes tuples of the initial fact, and of nothing else. -/
def Kinds.Initial (kinds : Kinds) (x : NodeId) : Prop :=
  ∃ root memory, kinds x = some (.leftInput root) ∧
    kinds root = some (.objectType .default Symbol.initialFact memory)

/-- A join that keeps its tuples, or that tests the tuple of the initial fact. -/
def Kinds.Spares (kinds : Kinds) (j : Join) : Prop :=
  j.tupleMemory = false → j.kind ≠ .join ∧ kinds.Initial j.left

theorem Kinds.Initial.mono {kinds kinds' : Kinds} {x : NodeId} (h : kinds.Initial x)
    (hw : kinds.Within kinds') : kinds'.Initial x := by
  obtain ⟨root, memory, hx, hroot⟩ := h
  exact ⟨root, memory, hw _ _ hx, hw _ _ hroot⟩

theorem Kinds.Spares.mono {kinds kinds' : Kinds} {j : Join} (h : kinds.Spares j)
    (hw : kinds.Within kinds') : kinds'.Spares j :=
  fun hoff => ⟨(h hoff).1, (h hoff).2.mono hw⟩

namespace Draft

/-- The joins asked for keep their tuples or test the tuple of the initial fact;
    this is the tuple at hand if the pattern drawn last is about it. -/
structure Sparing (d : Draft) : Prop where
  joins : ∀ {i : Nat} {j : Join}, stepKinds d.steps i = some (.join j) →
    (stepKinds d.steps).Spares j
  tuple : ∀ {i : Nat}, d.first → d.tuple? = some i → (stepKinds d.steps).Initial i

variable {d d' : Draft} {c : Setting} {p : Pattern} {tests : List JoinTest} {new : List Request}
variable {left last n : Nat} {q : Session.Quantifier}

/-- A draft stays sparing as long as what is asked for besides is sparing. -/
theorem Sparing.append (h : d.Sparing) (hsteps : d'.steps = d.steps ++ new)
    (hnew : ∀ q ∈ new, ∀ j, q.kind = .join j → (stepKinds d.steps).Spares j)
    (htuple : ∀ {i : Nat}, d'.first → d'.tuple? = some i → (stepKinds d'.steps).Initial i) :
    d'.Sparing := by
  have hw : (stepKinds d.steps).Within (stepKinds d'.steps) :=
    stepKinds_within (hsteps ▸ List.prefix_append _ _)
  refine ⟨fun {i j} hj => ?_, htuple⟩
  obtain ⟨r, hr, hkind⟩ := Option.map_eq_some_iff.1 hj
  rw [hsteps, List.getElem?_append] at hr
  split at hr
  · have hold : stepKinds d.steps i = some (.join j) := by rw [stepKinds, hr, Option.map_some, hkind]
    exact (h.joins hold).mono hw
  · exact (hnew r (List.mem_of_getElem? hr) j hkind).mono hw

theorem first_joined : (d.joined c p tests).first = p.isInitialFact := rfl

/-- What is asked for when the fact of a pattern becomes part of the tuple. -/
theorem spares_joined (p : Pattern) (tests : List JoinTest) {r : Request}
    (hr : r ∈ c.side p d.steps.length ++
      [c.tupleRequest p tests (p.sideEnd d.steps.length) d.tuple?]) (j : Join)
    (hj : r.kind = .join j) : (stepKinds d.steps).Spares j := by
  obtain hr | hr := List.mem_append.1 hr
  · exact absurd hj (not_join_of_mem_side hr j)
  rw [List.mem_singleton.1 hr] at hj
  cases ht : d.tuple? with
  | none =>
    rw [ht] at hj
    cases hj
  | some left =>
    rw [ht] at hj
    cases hj
    exact fun hoff => by cases hoff

theorem Sparing.joined (h : d.Sparing) (hp : ¬ p.isInitialFact) : (d.joined c p tests).Sparing :=
  h.append (List.append_assoc _ _ _) (fun _ hr => spares_joined p tests hr) fun hfirst =>
    absurd (first_joined ▸ hfirst) hp

theorem Sparing.started (h : d.Sparing) : (d.started c).Sparing := by
  cases ht : d.tuple? with
  | some i => rwa [started_of_some ht]
  | none =>
    rw [started_of_none ht]
    refine h.append (List.append_assoc _ _ _) (fun _ hr => spares_joined _ _ hr) fun {i} _ hi => ?_
    cases hi
    -- the initial fact is joined to nothing
    have hsteps : (d.joined c .initialFact []).steps = d.steps ++
        [⟨.entryPoint .default, c.guardsOut, none⟩,
          ⟨.objectType .default Symbol.initialFact c.memory, c.guardsOut, none⟩,
          ⟨.leftInput (d.steps.length + 1), c.guardsOut, none⟩] := by
      rw [steps_joined, steps_sided, ht]
      simp [Setting.side, Pattern.initialFact, Setting.tupleRequest, Setting.expirationOf,
        Pattern.sideEnd]
    have hlen : ((d.sided c .initialFact).record .initialFact).steps.length = d.steps.length + 2 := by
      simp [Draft.record, Setting.side, Pattern.initialFact]
    refine ⟨d.steps.length + 1, c.memory, ?_, ?_⟩
    · rw [hlen, hsteps, stepKinds, List.getElem?_append_right (by omega)]
      simp
    · rw [hsteps, stepKinds, List.getElem?_append_right (by omega)]
      simp

theorem joinKind_ne_join (q : Session.Quantifier) : q.joinKind ≠ .join := by
  cases q <;> decide

/-- A negation or existence claim keeps no tuples only below the tuple of the
    initial fact. -/
theorem Sparing.closed (h : d.Sparing) {first : Bool} {right : Nat × List JoinTest × Option Expiration}
    (hfirst : first → (stepKinds d.steps).Initial left) (hd : ¬ d.first) :
    (d.closed c q left first right).Sparing := by
  refine h.append rfl (fun r hr j hj => ?_) fun hlatest => absurd hlatest hd
  rw [List.mem_singleton.1 hr] at hj
  cases hj
  intro hoff
  refine ⟨joinKind_ne_join q, hfirst ?_⟩
  simpa using hoff

end Draft

namespace Element

/-- No pattern in some elements is about the type of the initial fact, and every
    negation and existence claim in them contains a pattern. -/
structure Anchored (es : List Element) : Prop where
  patterns : ∀ p ∈ patternsList es, ¬ p.isInitialFact
  groups : ∀ (q : Session.Quantifier) (members : List Element), ∀ e ∈ es,
    Occurs (.group q.connective members) e → patternsList members ≠ []

variable {e : Element} {es members : List Element}

theorem anchored_cons (h : Anchored (e :: es)) : Anchored [e] ∧ Anchored es := by
  refine ⟨⟨fun p hp => h.patterns p ?_, fun q members x hx => h.groups q members x ?_⟩,
    ⟨fun p hp => h.patterns p ?_, fun q members x hx => h.groups q members x ?_⟩⟩
  · rw [patternsList, patternsList, List.append_nil] at hp
    exact List.mem_append_left _ hp
  · rw [List.mem_singleton.1 hx]
    exact List.mem_cons_self
  · exact List.mem_append_right _ hp
  · exact List.mem_cons_of_mem _ hx

theorem patternsList_singleton (e : Element) : patternsList [e] = e.patterns := by
  rw [patternsList, patternsList, List.append_nil]

theorem patternsList_map_pattern (ps : List Pattern) : patternsList (ps.map .pattern) = ps := by
  induction ps with
  | nil => rfl
  | cons p ps ih => rw [List.map_cons, patternsList, ih, Element.patterns, List.singleton_append]

theorem Anchored.inside {c : Connective} (h : Anchored [.group c members]) : Anchored members where
  patterns p hp := h.patterns p (by rwa [patternsList_singleton, Element.patterns])
  groups q ms x hx hin := h.groups q ms _ (List.mem_singleton_self _) (.member hx hin)

theorem Anchored.single {c : Connective} {p : Pattern} (h : Anchored [.group c members])
    (hp : single? members = some p) : ¬ p.isInitialFact := by
  refine h.inside.patterns p ?_
  rw [single?_eq_some_iff.1 hp, patternsList_singleton, Element.patterns]
  exact List.mem_singleton_self p

theorem Anchored.ne_nil {q : Session.Quantifier} (h : Anchored [.group q.connective members]) :
    patternsList members ≠ [] :=
  h.groups q members _ (List.mem_singleton_self _) .self

end Element

namespace Draft

variable {α : Type} {c : Setting} {d d' d₁ d₂ : Draft} {p : Pattern}

/-- A sparing draft after some elements: if any pattern is among them, the one
    drawn last is not about the initial fact. -/
structure Spared (es : List Element) (d d' : Draft) : Prop where
  grows : d.steps <+: d'.steps
  sparing : d'.Sparing
  latest : d'.first → d.first ∧ Element.patternsList es = []

/-- Drawing, where it ends well, ends in a sparing draft. -/
def Spares (es : List Element) (d : Draft) : EStateM.Result Fault Draft α → Prop :=
  Draw.Ends (fun _ => True) fun _ => d.Spared es

theorem Spared.refl (h : d.Sparing) : d.Spared [] d := ⟨List.prefix_rfl, h, fun hfirst => ⟨hfirst, rfl⟩⟩

theorem Spared.cons {e : Element} {es : List Element} (h : d.Spared [e] d₁)
    (h' : d₁.Spared es d₂) : d.Spared (e :: es) d₂ := by
  refine ⟨h.grows.trans h'.grows, h'.sparing, fun hfirst => ?_⟩
  obtain ⟨hfirst, hes⟩ := h'.latest hfirst
  obtain ⟨hfirst, he⟩ := h.latest hfirst
  rw [Element.patternsList_singleton] at he
  exact ⟨hfirst, by rw [Element.patternsList, he, hes, List.append_nil]⟩

/-- A draft whose latest pattern is not about the initial fact. -/
theorem Spared.of_not_first {es : List Element} (hgrows : d.steps <+: d'.steps) (h : d'.Sparing)
    (hnot : ¬ d'.first) : d.Spared es d' :=
  ⟨hgrows, h, fun hfirst => absurd hfirst hnot⟩

theorem Spares.cons {β : Type} {e : Element} {es : List Element} {m : Draw α} {k : α → Draw β}
    (h : d.Spares [e] (m d)) (hk : ∀ a (d' : Draft), d'.Sparing → d'.Spares es (k a d')) :
    d.Spares (e :: es) ((m >>= k) d) :=
  Draw.Ends.bind h fun a d₁ hd₁ => (hk a d₁ hd₁.sparing).mono fun _ _ hd₂ => hd₁.cons hd₂

/-- What was drawn may be dropped. -/
theorem Spares.drop {es : List Element} {m : Draw α} (h : d.Spares es (m d)) :
    d.Spares es ((do let _ ← m : Draw Unit) d) :=
  Draw.Ends.bind h fun _ _ h => h

theorem spares_pattern (h : d.Sparing) (hp : ¬ p.isInitialFact) :
    d.Spares [.pattern p] (Draw.pattern c p d) := by
  refine Draw.ends_pattern trivial fun tests _ => .of_not_first ?_ (h.joined hp) hp
  rw [steps_joined, steps_sided, List.append_assoc]
  exact List.prefix_append _ _

theorem spares_patterns (ps : List Pattern) (h : d.Sparing) (hps : ∀ p ∈ ps, ¬ p.isInitialFact) :
    d.Spares (ps.map .pattern)
      (ps.forM (fun p => do let _ ← Draw.pattern c p : Pattern → Draw Unit) d) := by
  induction ps generalizing d with
  | nil => exact .refl h
  | cons p ps ih =>
    obtain ⟨hp, hps⟩ := List.forall_mem_cons.1 hps
    exact (spares_pattern h hp).drop.cons fun _ _ hd' => ih hd' hps

/-- The draft has a tuple. -/
theorem grows_started (d : Draft) (c : Setting) : d.steps <+: (d.started c).steps := by
  cases ht : d.tuple? with
  | some i => rw [started_of_some ht]
  | none =>
    rw [started_of_none ht, steps_joined, steps_sided, List.append_assoc]
    exact List.prefix_append _ _

theorem spares_quantified {q : Session.Quantifier} {members : List Element}
    {drawMembers : Draw Unit} (h : d.Sparing) (hmembers : Element.patternsList members ≠ [])
    (hsingle : ∀ p, Element.single? members = some p → ¬ p.isInitialFact)
    (hm : ∀ d₁ : Draft, d₁.Sparing → d₁.Spares members (drawMembers d₁)) :
    d.Spares [.group q.connective members] (Draw.quantified c q members drawMembers d) := by
  have hs : (d.started c).Sparing := h.started
  refine Draw.ends_quantified trivial trivial (fun left p tests hleft hp _ => ?_)
    fun left hleft _ => ?_
  · have hnot : ¬ (((d.started c).sided c p).record p).first := hsingle p hp
    have hgrows : (d.started c).steps <+: (((d.started c).sided c p).record p).steps :=
      List.prefix_append _ _
    have hside : (((d.started c).sided c p).record p).Sparing :=
      hs.append rfl (fun _ hr j hj => absurd hj (not_join_of_mem_side hr j))
        fun hfirst => absurd hfirst hnot
    refine .of_not_first ?_ (hside.closed (fun hfirst => ?_) hnot) hnot
    · exact ((grows_started d c).trans hgrows).trans (List.prefix_append _ _)
    · exact (hs.tuple hfirst hleft).mono (stepKinds_within hgrows)
  · refine (hm (d.started c) hs).mono fun _ d₂ hd₂ => ⟨trivial, fun last _ => ?_⟩
    -- a pattern was drawn below the tuple
    have hnot : ¬ d₂.first := fun hfirst => hmembers (hd₂.latest hfirst).2
    let cut := d₂.cut c left last (d.started c).scope.length
    have hgrows : (d.started c).steps <+: cut.steps := hd₂.grows.trans (List.prefix_append _ _)
    have hcut : cut.Sparing :=
      hd₂.sparing.append rfl (fun r hr j hj => by rw [List.mem_singleton.1 hr] at hj; cases hj)
        fun hfirst => absurd hfirst hnot
    refine .of_not_first ?_ (hcut.closed (fun hfirst => ?_) hnot) hnot
    · exact ((grows_started d c).trans hgrows).trans (List.prefix_append _ _)
    · exact (hs.tuple hfirst hleft).mono (stepKinds_within hgrows)

theorem spares_call {q : QueryCall} (h : d.Sparing) (hq : ¬ q.result.isInitialFact) :
    d.Spares [.call q] (Draw.call c q d) := by
  refine Draw.ends_call trivial fun left arguments _ _ => ?_
  refine .of_not_first ((grows_started d c).trans (List.prefix_append _ _)) ?_ hq
  exact h.started.append rfl (fun r hr j hj => by rw [List.mem_singleton.1 hr] at hj; cases hj)
    fun hfirst => absurd hfirst hq

/-- The patterns of a universal statement are of the types that were written. -/
theorem not_isInitialFact_universal {base : Pattern} {rest : List Pattern}
    (h : ∀ p ∈ base :: rest, ¬ p.isInitialFact) :
    ¬ (Universal.of base rest).base.isInitialFact ∧
      ∀ p ∈ (Universal.of base rest).rest, ¬ p.isInitialFact := by
  obtain ⟨hbase, hrest⟩ := List.forall_mem_cons.1 h
  have hguarded : ∀ (same : Bool) (p : Pattern) (offset : Offset),
      (if same then p.guarded offset else p).isInitialFact = p.isInitialFact := by
    intro same p offset
    cases same <;> rfl
  constructor
  · cases rest <;> exact hbase
  · intro p hp
    obtain ⟨p₀, hp₀, rfl⟩ := List.mem_map.1 hp
    rw [hguarded]
    cases rest with
    | nil => exact List.mem_singleton.1 hp₀ ▸ hbase
    | cons q qs => exact hrest p₀ hp₀

theorem universal_rest_ne_nil (base : Pattern) (rest : List Pattern) :
    (Universal.of base rest).rest ≠ [] := by
  cases rest <;> simp [Universal.of]

theorem spares_universal {base : Pattern} {rest : List Pattern} (h : d.Sparing)
    (hps : ∀ p ∈ base :: rest, ¬ p.isInitialFact) :
    d.Spares [.every base rest] (Draw.universal c base rest d) := by
  obtain ⟨hbase, hrest⟩ := not_isInitialFact_universal hps
  let u := Universal.of base rest
  let c' : Setting := { c with guardsOut := u.guardsOnly }
  have hinner : ∀ d₂ : Draft, d₂.Sparing → d₂.Spares [.group .not u.inner]
      (Draw.quantified c' .none u.inner (u.rest.forM fun p => do let _ ← Draw.pattern c' p) d₂) := by
    intro d₂ hd₂
    refine spares_quantified (q := .none) hd₂ ?_ (fun p hp => ?_) fun d₃ hd₃ =>
      spares_patterns u.rest hd₃ hrest
    · rw [Universal.inner, Element.patternsList_map_pattern]
      exact universal_rest_ne_nil base rest
    · refine hrest p ?_
      have hmem : p ∈ Element.patternsList u.inner := by
        rw [Element.single?_eq_some_iff.1 hp, Element.patternsList_singleton, Element.patterns]
        exact List.mem_singleton_self p
      rwa [Universal.inner, Element.patternsList_map_pattern] at hmem
  have houter : d.Spares [.group .not u.outer] (Draw.universal c base rest d) :=
    spares_quantified (q := .none) h (by simp [Universal.outer, Element.patternsList, Element.patterns])
      (fun p hp => by cases hp) fun d₁ hd₁ => (spares_pattern hd₁ hbase).cons fun _ d₂ => hinner d₂
  refine houter.mono fun _ d' hd' => .of_not_first hd'.grows hd'.sparing fun hfirst => ?_
  have hnone := (hd'.latest hfirst).2
  rw [Element.patternsList_singleton, Element.patterns, Universal.outer, Element.patternsList,
    Element.patterns] at hnone
  cases hnone

mutual

theorem spares_element {d : Draft} (h : d.Sparing) : (e : Element) → Element.Anchored [e] →
    d.Spares [e] (Draw.element c e d)
  | .pattern p, he => by
    rw [Draw.element]
    exact (spares_pattern h (he.patterns p (by simp [Element.patternsList, Element.patterns]))).drop
  | .group .and members, he => by
    rw [Draw.element]
    refine (spares_elements h members he.inside).mono fun _ d' hd' => ⟨hd'.grows, hd'.sparing, ?_⟩
    rw [Element.patternsList_singleton, Element.patterns]
    exact hd'.latest
  | .group .or members, _ => by
    rw [Draw.element]
    exact trivial
  | .group .not members, he => by
    rw [Draw.element]
    exact spares_quantified (q := .none) h (he.ne_nil (q := .none))
      (fun p hp => he.single hp) fun d₁ hd₁ => spares_elements hd₁ members he.inside
  | .group .exists members, he => by
    rw [Draw.element]
    exact spares_quantified (q := .some) h (he.ne_nil (q := .some))
      (fun p hp => he.single hp) fun d₁ hd₁ => spares_elements hd₁ members he.inside
  | .every base rest, he => by
    rw [Draw.element]
    refine spares_universal h fun p hp => he.patterns p ?_
    rwa [Element.patternsList_singleton, Element.patterns]
  | .call q, he => by
    rw [Draw.element]
    exact spares_call h (he.patterns q.result (by simp [Element.patternsList, Element.patterns]))

/-- **Drawing anchored elements keeps a draft sparing.** -/
theorem spares_elements {d : Draft} (h : d.Sparing) : (es : List Element) → Element.Anchored es →
    d.Spares es (Draw.elements c es d)
  | [], _ => by
    rw [Draw.elements]
    exact .refl h
  | e :: es, he => by
    rw [Draw.elements]
    obtain ⟨hfirst, hrest⟩ := Element.anchored_cons he
    exact (spares_element h e hfirst).cons fun _ d₁ hd₁ => spares_elements hd₁ es hrest

end

end Draft

/-! ## Rules -/

theorem Draft.Sparing.nextBranch {d : Draft} (h : d.Sparing) : d.nextBranch.Sparing :=
  ⟨h.joins, fun hfirst => by cases hfirst⟩

namespace Draw

variable {config : Config} {query : Bool} {d : Draft}

theorem sparing_branch {b : Branch} (hb : Element.Anchored b.body.members) (h : d.Sparing) :
    Ends (fun _ => True) (fun _ d' => d'.Sparing) (branch config query b d) := by
  refine ends_branch trivial fun distances? _ => ?_
  let c : Setting := ⟨config.objectTypeMemory, distances?, false⟩
  have hdrawn : d.nextBranch.Spares b.body.members (elements c b.body.members d.nextBranch) :=
    Draft.spares_elements h.nextBranch _ hb
  refine ends_terminal (hdrawn.mono fun _ d₁ hd₁ last hlast => ?_)
  have hs : (d₁.started c).Sparing := hd₁.sparing.started
  refine hs.append rfl (fun r hr j hj => ?_) fun hfirst hi => ?_
  · rw [List.mem_singleton.1 hr] at hj
    cases hj
  · exact (hs.tuple hfirst hi).mono (stepKinds_within (List.prefix_append _ _))

end Draw

/-- The elements of every branch of a rule are anchored. -/
def Rule.Anchored (r : Rule) : Prop :=
  ∀ bs, r.body.branches = .ok bs → ∀ b ∈ bs, Element.Anchored b.body.members

/-- In the blueprint of an anchored rule, joins that keep no tuples test the tuple
    of the initial fact. -/
theorem Rule.Anchored.blueprint_spares {config : Config} {r : Rule} {bp : Blueprint}
    (hr : r.Anchored) (h : r.blueprint config = .ok bp) {i : Nat} {j : Join}
    (hj : stepKinds bp.steps i = some (.join j)) : (stepKinds bp.steps).Spares j := by
  obtain ⟨bs, d, hbs, hd, hsteps⟩ := exists_drawn h
  have hempty : Draft.empty.Sparing :=
    ⟨fun hj => by simp [stepKinds, Draft.empty] at hj, fun hfirst => by cases hfirst⟩
  have hends : Draw.Ends (fun _ => True) (fun _ d' => d'.Sparing)
      (bs.mapM (Draw.branch config r.isQuery) .empty) :=
    Draw.ends_mapM hempty fun b hb _ h => Draw.sparing_branch (hr bs hbs b hb) h
  rw [hd] at hends
  rw [hsteps] at hj ⊢
  exact hends.joins hj

/-! ## The network -/

theorem Kinds.Initial.map {kinds kinds' : Kinds} {f : NodeId → NodeId} {g : RuleId → RuleId}
    {x : NodeId} (h : kinds.Initial x) (hs : kinds.Served f g kinds') : kinds'.Initial (f x) := by
  obtain ⟨root, memory, hx, hroot⟩ := h
  exact ⟨f root, memory, hs.kind hx (by simp), hs.kind hroot (by simp)⟩

/-- A join of the network was asked for as such, and keeps tuples as asked. -/
theorem Network.Houses.exists_join_step {net : Network} {config : Config}
    {inst : RuleId → Option Installation} {x : NodeId} {n : Node} {j : Join}
    (h : net.Houses config inst) (hn : net.nodes[x]? = some n) (hj : n.kind = .join j) :
    ∃ (r : RuleId) (I : Installation) (i : Nat) (j₀ : Join), inst r = some I ∧
      stepKinds I.steps i = some (.join j₀) ∧ j.kind = j₀.kind ∧ j.left = I.nodeAt j₀.left ∧
      j.tupleMemory = j₀.tupleMemory := by
  obtain ⟨r, hr⟩ := h.used hn (by rw [hj]; rfl)
  obtain ⟨I, hI, hx⟩ := (h.owners hn r).1 hr
  obtain ⟨i, hi⟩ := List.mem_iff_getElem?.1 hx
  obtain ⟨q, hq⟩ := h.step_of_node hI hi
  obtain ⟨n', hn', hserves⟩ := h.placed hI hq hi
  rw [Option.some.inj (hn'.symm.trans hn), hj, Installation.wanted] at hserves
  cases hk : q.kind with
  | join j₀ =>
    rw [hk] at hserves
    obtain ⟨hkind, hleft, -, hmemory, -⟩ := NodeKind.serves_join.1 hserves
    exact ⟨r, I, i, j₀, hI, by rw [stepKinds, hq, Option.map_some, hk], hkind, hleft, hmemory⟩
  | _ =>
    rw [hk] at hserves
    cases hserves

/-- **Tuples are given up only where they are those of the initial fact.**  If in
    every branch of every registered rule no pattern is about the type of the
    initial fact and each negation and existence claim contains a pattern, then a
    node that keeps no tuples is a negation or existence claim below the adapter
    of the root of that type. -/
theorem tupleMemory_off_below_initial {l : Library} (h : l.Reachable)
    (hanchored : ∀ id r, l.definitions id = some r → r.Anchored) {x : NodeId} {n : Node} {j : Join}
    (hn : l.base.network.nodes[x]? = some n) (hj : n.kind = .join j)
    (hoff : j.tupleMemory = false) : j.kind ≠ .join ∧ l.base.network.kinds.Initial j.left := by
  obtain ⟨inst, hs⟩ := h.sound
  have hs : l.base.Sound l.definitions inst := hs
  obtain ⟨id, I, i, j₀, hI, hstep, hkind, hleft, hmemory⟩ := hs.houses.exists_join_step hn hj
  obtain ⟨r, hr⟩ := hs.definition_of_installation hI
  obtain ⟨entry, I', -, hI', hreg⟩ := hs.entry_of_definition hr
  obtain rfl : I = I' := Option.some.inj (hI.symm.trans hI')
  obtain ⟨bp, hbp, hsteps⟩ := hreg.blueprint
  rw [hsteps] at hstep
  obtain ⟨hquantified, hinitial⟩ :=
    (hanchored id r hr).blueprint_spares hbp hstep (hmemory ▸ hoff)
  rw [← hsteps] at hinitial
  rw [hkind, hleft]
  exact ⟨hquantified, hinitial.map (hs.houses.served hI)⟩

/-- A definition was there before a command, or came with it. -/
theorem Library.definition_of_after {l : Library} {c : Command} {id : RuleId} {r : Rule}
    (h : (l.after c).definitions id = some r) : l.definitions id = some r ∨ r ∈ c.brings := by
  obtain ⟨entry, -, h⟩ := Option.bind_eq_some_iff.1 h
  exact (Option.or_eq_some_iff.1 h).imp_right fun h => List.mem_of_find?_eq_some h.2

/-- A rule that begins with a negation. -/
def Rule.lacking (name : String) : Rule where
  name
  body := ⟨.and, [.group .not [.pattern { offset := 0, type := 2 }],
    .group .exists [.pattern { offset := 1, type := 3 }]]⟩

/-- A library in which a negation keeps no tuples. -/
def Library.lacking : Library := (Library.empty {}).after (.add (.lacking "first"))

theorem Rule.anchored_lacking (name : String) : (Rule.lacking name).Anchored := by
  intro bs hbs b hb
  cases hbs
  obtain rfl := List.mem_singleton.1 hb
  refine ⟨?_, fun q members e he hin => ?_⟩
  · simp [lacking, Element.patternsList, Element.patterns, Pattern.isInitialFact, Symbol.initialFact]
  -- the two groups are the only ones, and consist of a pattern each
  simp only [lacking, List.mem_cons, List.not_mem_nil, or_false] at he
  obtain rfl | rfl := he <;> rw [Element.occurs_group] at hin <;>
    obtain heq | ⟨x, hx, hin⟩ := hin
  · rw [(Element.group.inj heq).2]
    simp [Element.patternsList, Element.patterns]
  · rw [List.mem_singleton.1 hx] at hin
    cases hin
  · rw [(Element.group.inj heq).2]
    simp [Element.patternsList, Element.patterns]
  · rw [List.mem_singleton.1 hx] at hin
    cases hin

theorem tupleMemory_off_below_initial_lacking : Library.lacking.Reachable ∧
    (∀ id r, Library.lacking.definitions id = some r → r.Anchored) ∧
      ∃ n j, Library.lacking.base.network.nodes[(4 : NodeId)]? = some n ∧ n.kind = .join j ∧
        j.tupleMemory = false ∧ j.kind ≠ .join ∧ Library.lacking.base.network.kinds.Initial j.left := by
  have h : Library.lacking.Reachable := .step (.empty rfl) _
  have hanchored : ∀ id r, Library.lacking.definitions id = some r → r.Anchored := by
    intro id r hr
    obtain hr | hr := Library.definition_of_after hr
    · cases hr
    · rw [List.mem_singleton.1 hr]
      exact Rule.anchored_lacking "first"
  have hkind : Library.lacking.base.network.kinds 4 = some (.join
      { kind := .not, left := 2, right := 3, tests := [], tupleMemory := false,
        crossProduct := true }) := by decide +kernel
  obtain ⟨n, hn, hj⟩ := Network.kinds_eq_some.1 hkind
  exact ⟨h, hanchored, n, _, hn, hj, rfl, tupleMemory_off_below_initial h hanchored hn hj rfl⟩

/-- A rule whose second pattern is about the type of the initial fact. -/
def Rule.late (name : String) : Rule where
  name
  body := ⟨.and, [.pattern { offset := 0, type := 2 },
    .pattern { offset := 1, type := Symbol.initialFact },
    .group .not [.pattern { offset := 2, type := 3 }]]⟩

/-- A library with that rule. -/
def Library.late : Library := (Library.empty {}).after (.add (.late "first"))

/-- A negation keeps no tuples, though its tuples are made of two facts, one of
    which can be retracted. -/
theorem not_tupleMemory_off_below_initial_late : Library.late.Reachable ∧
    ∃ n j left, Library.late.base.network.nodes[(6 : NodeId)]? = some n ∧ n.kind = .join j ∧
      j.tupleMemory = false ∧ Library.late.base.network.kinds j.left = some (.join left) ∧
        ¬ Library.late.base.network.kinds.Initial j.left := by
  have hkind : Library.late.base.network.kinds 6 = some (.join
      { kind := .not, left := 4, right := 5, tests := [], tupleMemory := false,
        crossProduct := true }) := by decide +kernel
  have hleft : Library.late.base.network.kinds 4 = some (.join
      { kind := .join, left := 2, right := 3, tests := [], crossProduct := true }) := by
    decide +kernel
  obtain ⟨n, hn, hj⟩ := Network.kinds_eq_some.1 hkind
  refine ⟨.step (.empty rfl) _, n, _, _, hn, hj, rfl, hleft, ?_⟩
  rintro ⟨root, memory, hinitial, -⟩
  rw [hleft] at hinitial
  cases hinitial

end RuleNet
