/-
  RuleNet — how long rules want facts kept.

  A rule wants the facts of a pattern kept as long as the distances of the
  pattern's branch tell, at every node of the pattern's object side, and wants
  nothing else of the roots of types and of alpha nodes.  This holds of what a
  blueprint asks for (`Rule.blueprint_attaches`), and so, wherever rules come and
  go, of the demands on the nodes of the network (`retention_bookkeeping`), as
  long as there are numbers for all that the commands bring.
-/
import RuleNet.Proofs.Overflow
import RuleNet.Proofs.Sides
import RuleNet.Proofs.Unfolding

namespace RuleNet

/-! ## What is wanted -/

/-- Whether a node stands on object sides: the root of a type, or an alpha
    node. -/
def NodeKind.onSide : NodeKind → Bool
  | objectType .. | alpha .. => true
  | _ => false

/-- How long a branch wants the fact of a pattern kept: as long as its distances
    tell, if the fact is an event. -/
def Branch.wants (b : Branch) (p : Pattern) : Option Expiration :=
  if p.event && !p.isSynthetic then
    (Distances.ofPatterns b.body.patterns).toOption.map (·.expiration p.offset)
  else none

/-- How long the branches of a rule want the facts of a node kept, pattern by
    pattern: those whose object sides lead through the node. -/
def sidesWant (x : NodeId) (bs : List Branch) (sides : List (List Side)) : List Expiration :=
  (bs.zip sides).flatMap fun (b, S) =>
    S.filterMap fun s => if x ∈ s.nodes then b.wants s.pattern else none

theorem mem_sidesWant {x : NodeId} {bs : List Branch} {sides : List (List Side)} {e : Expiration} :
    e ∈ sidesWant x bs sides ↔ ∃ b S, (b, S) ∈ bs.zip sides ∧
      ∃ s ∈ S, x ∈ s.nodes ∧ b.wants s.pattern = some e := by
  simp only [sidesWant, List.mem_flatMap, List.mem_filterMap, Prod.exists,
    Option.ite_none_right_eq_some]

/-- What some requests, counted from `n` on, want of the nodes of object sides. -/
def stepsWant (n : Nat) (steps : List Request) : List (Nat × Option Expiration) :=
  (steps.zipIdx n).filterMap fun (q, i) => if q.kind.onSide then some (i, q.expiration?) else none

/-- What is wanted of the nodes of an object side, where it is known how long
    facts of patterns are wanted. -/
def Side.wants (e : Pattern → Option Expiration) (s : Side) : List (NodeId × Option Expiration) :=
  s.nodes.map (·, e s.pattern)

theorem stepsWant_append (n : Nat) (steps steps' : List Request) :
    stepsWant n (steps ++ steps') = stepsWant n steps ++ stepsWant (n + steps.length) steps' := by
  rw [stepsWant, List.zipIdx_append, List.filterMap_append]
  rfl

/-- Requests for nodes of object sides that want the same. -/
theorem stepsWant_all {n : Nat} {steps : List Request} {e? : Option Expiration}
    (h : ∀ q ∈ steps, q.kind.onSide ∧ q.expiration? = e?) :
    stepsWant n steps = (List.range' n steps.length).map (·, e?) := by
  induction steps generalizing n with
  | nil => rfl
  | cons q steps ih =>
    obtain ⟨⟨hside, he⟩, hsteps⟩ := List.forall_mem_cons.1 h
    rw [List.length_cons, List.range'_succ, List.map_cons, ← ih hsteps]
    simp [stepsWant, hside, he]

theorem mem_stepsWant {steps : List Request} {i : Nat} {e? : Option Expiration} :
    (i, e?) ∈ stepsWant 0 steps ↔
      ∃ q, steps[i]? = some q ∧ q.kind.onSide ∧ q.expiration? = e? := by
  simp only [stepsWant, List.mem_filterMap, Prod.exists, List.mem_zipIdx_iff_getElem?,
    Option.ite_none_right_eq_some, Option.some.injEq, Prod.mk.injEq]
  constructor
  · rintro ⟨q, j, hq, hside, rfl, he⟩
    exact ⟨q, hq, hside, he⟩
  · rintro ⟨q, hq, hside, he⟩
    exact ⟨q, i, hq, hside, rfl, he⟩

/-! ## Drawing -/

namespace Draft

/-- From one draft to another, the nodes of just these object sides have been
    asked for, as long as they are wanted. -/
def Wants (e : Pattern → Option Expiration) (S : List Side) (d d' : Draft) : Prop :=
  ∃ new, d'.steps = d.steps ++ new ∧ stepsWant d.steps.length new = S.flatMap (Side.wants e)

variable {e : Pattern → Option Expiration} {S S' : List Side} {d d' d₁ d₂ : Draft} {c : Setting}
variable {p : Pattern} {tests : List JoinTest} {q : Request} {left i : Nat} {es es' : List Element}

theorem Wants.grows (h : d.Wants e S d') : d.steps <+: d'.steps := by
  obtain ⟨new, hnew, -⟩ := h
  exact hnew ▸ List.prefix_append _ _

theorem Wants.refl (e : Pattern → Option Expiration) (d : Draft) : d.Wants e [] d :=
  ⟨[], (List.append_nil _).symm, rfl⟩

theorem Wants.trans (h : d.Wants e S d₁) (h' : d₁.Wants e S' d₂) : d.Wants e (S ++ S') d₂ := by
  obtain ⟨new, hnew, hS⟩ := h
  obtain ⟨new', hnew', hS'⟩ := h'
  refine ⟨new ++ new', by rw [hnew', hnew, List.append_assoc], ?_⟩
  rw [stepsWant_append, hS, List.flatMap_append, ← hS', hnew, List.length_append]

/-- One more request, that is for no node of an object side. -/
theorem wants_snoc (hsteps : d'.steps = d.steps ++ [q]) (hq : q.kind.onSide = false) :
    d.Wants e [] d' := by
  refine ⟨[q], hsteps, ?_⟩
  simp [stepsWant, hq]

/-- The object side of a pattern is wanted as long as the pattern is. -/
theorem wants_sided : d.Wants c.expirationOf [⟨p, p.sideNodes d.steps.length⟩] (d.sided c p) := by
  refine ⟨c.side p d.steps.length, rfl, ?_⟩
  have hside : ∀ q ∈ (c.side p d.steps.length).tail,
      q.kind.onSide ∧ q.expiration? = c.expirationOf p := by
    simp only [Setting.side, List.tail_cons, List.mem_cons, List.mem_mapIdx]
    rintro q (rfl | ⟨i, hi, rfl⟩) <;> exact ⟨rfl, rfl⟩
  have hlen : (c.side p d.steps.length).tail.length = p.fieldTests.length + 1 := by
    simp [Setting.side]
  rw [List.flatMap_singleton, Side.wants, Pattern.sideNodes, ← hlen, ← stepsWant_all hside]
  rfl

theorem wants_record :
    d.Wants c.expirationOf [⟨p, p.sideNodes d.steps.length⟩] ((d.sided c p).record p) :=
  wants_sided

/-- Nodes have been asked for that are built as some elements tell. -/
def Builds (e : Pattern → Option Expiration) (es : List Element) (d d' : Draft) : Prop :=
  ∃ S, d.Wants e S d' ∧ (stepKinds d'.steps).Builds d.tuple? es d'.tuple? S

/-- There is a tuple, which the initial fact may have started. -/
def Begins (e : Pattern → Option Expiration) (left : Nat) (d d' : Draft) : Prop :=
  ∃ S, d.Wants e S d' ∧ (stepKinds d'.steps).Starts d.tuple? left S

/-- Drawing, where it ends well, asks for nodes that are built as some elements
    tell. -/
def Drawn {α : Type} (e : Pattern → Option Expiration) (es : List Element) (d : Draft) :
    EStateM.Result Fault Draft α → Prop :=
  Draw.Ends (fun _ => True) fun _ => d.Builds e es

theorem Builds.refl (e : Pattern → Option Expiration) (d : Draft) : d.Builds e [] d :=
  ⟨[], .refl e d, .nil⟩

theorem Builds.trans (h : d.Builds e es d₁) (h' : d₁.Builds e es' d₂) :
    d.Builds e (es ++ es') d₂ := by
  obtain ⟨S, hS, hbuilds⟩ := h
  obtain ⟨S', hS', hbuilds'⟩ := h'
  exact ⟨S ++ S', hS.trans hS', (hbuilds.mono (stepKinds_within hS'.grows)).append hbuilds'⟩

theorem Drawn.bind {α β : Type} {m : Draw α} {k : α → Draw β} (h : d.Drawn e es (m d))
    (hk : ∀ a (d' : Draft), d'.Drawn e es' (k a d')) : d.Drawn e (es ++ es') ((m >>= k) d) :=
  Draw.Ends.bind h fun a d' hd' => (hk a d').mono fun _ _ => hd'.trans

/-- What a drawing returns may be dropped. -/
theorem Drawn.drop {α : Type} {m : Draw α} (h : d.Drawn e es (m d)) :
    d.Drawn e es ((do let _ ← m : Draw Unit) d) :=
  Draw.Ends.bind h fun _ _ hd' => hd'

/-! ### Patterns -/

/-- A drawn pattern widens the tuple by its object side. -/
theorem widens_joined : d.Wants c.expirationOf [⟨p, p.sideNodes d.steps.length⟩] (d.joined c p tests) ∧
    (stepKinds (d.joined c p tests).steps).Widens d.tuple? ⟨p, p.sideNodes d.steps.length⟩
      (d.sided c p).steps.length := by
  have hrequest : (c.tupleRequest p tests (p.sideEnd d.steps.length) d.tuple?).kind.onSide = false := by
    cases d.tuple? <;> rfl
  have hbears : (stepKinds (d.joined c p tests).steps).Bears ⟨p, p.sideNodes d.steps.length⟩ :=
    bears_sided (List.prefix_append _ _)
  have hlast : stepKinds (d.joined c p tests).steps (d.sided c p).steps.length =
      some (c.tupleRequest p tests (p.sideEnd d.steps.length) d.tuple?).kind :=
    stepKinds_concat _ _
  refine ⟨wants_sided.trans (wants_snoc steps_joined hrequest), ?_⟩
  cases ht : d.tuple? with
  | none =>
    rw [ht] at hlast
    exact .leftInput hbears getLast?_sideNodes hlast
  | some left =>
    rw [ht] at hlast
    exact .join hbears getLast?_sideNodes hlast rfl

theorem builds_joined : d.Builds c.expirationOf [.pattern p] (d.joined c p tests) :=
  ⟨_, widens_joined.1, .pattern widens_joined.2 .nil⟩

theorem begins_started (hleft : (d.started c).tuple? = some left) :
    d.Begins c.expirationOf left (d.started c) := by
  cases ht : d.tuple? with
  | some i =>
    rw [started_of_some ht] at hleft ⊢
    obtain rfl : i = left := Option.some.inj (ht.symm.trans hleft)
    exact ⟨[], .refl _ _, ht ▸ .there⟩
  | none =>
    rw [started_of_none ht] at hleft ⊢
    cases hleft
    have hwidens : _ ∧ (stepKinds (d.joined c .initialFact []).steps).Widens d.tuple? _ _ :=
      widens_joined
    rw [ht] at hwidens
    exact ⟨_, hwidens.1, ht ▸ .initial rfl hwidens.2⟩

theorem drawn_pattern : d.Drawn c.expirationOf [.pattern p] (Draw.pattern c p d) :=
  Draw.ends_pattern trivial fun _ _ => builds_joined

theorem drawn_patterns (ps : List Pattern) : d.Drawn c.expirationOf (ps.map .pattern)
    (ps.forM (fun p => do let _ ← Draw.pattern c p : Pattern → Draw Unit) d) := by
  induction ps generalizing d with
  | nil => exact Builds.refl _ d
  | cons p ps ih => exact drawn_pattern.drop.bind fun _ _ => ih

/-! ### Negations, existence claims and calls -/

theorem drawn_quantified {q : Session.Quantifier} {members : List Element}
    {drawMembers : Draw Unit}
    (hm : ∀ d₁ : Draft, d₁.Drawn c.expirationOf members (drawMembers d₁)) :
    d.Drawn c.expirationOf [.group q.connective members]
      (Draw.quantified c q members drawMembers d) := by
  refine Draw.ends_quantified trivial trivial (fun left p tests hleft hp _ => ?_)
    fun left hleft hmany => ?_
  · obtain ⟨S₀, hS₀, hstarts⟩ := begins_started hleft
    rw [Element.single?_eq_some_iff.1 hp]
    let d₂ := ((d.started c).sided c p).record p
    let request := c.joinRequest q.joinKind left (p.sideEnd (d.started c).steps.length) tests
      (!(d.started c).first) (c.expirationOf p)
    have hside : (d.started c).Wants c.expirationOf
        [⟨p, p.sideNodes (d.started c).steps.length⟩] (d₂.snoc request) :=
      wants_record.trans (wants_snoc rfl rfl)
    have hbears : (stepKinds (d₂.snoc request).steps).Bears
        ⟨p, p.sideNodes (d.started c).steps.length⟩ := bears_sided (List.prefix_append _ _)
    refine ⟨_, hS₀.trans hside, ?_⟩
    exact .single (hstarts.mono (stepKinds_within hside.grows)) hbears getLast?_sideNodes
      (stepKinds_concat _ request) rfl .nil
  · obtain ⟨S₀, hS₀, hstarts⟩ := begins_started hleft
    refine (hm (d.started c)).mono fun _ d₂ hd₂ => ⟨trivial, fun last hlast => ?_⟩
    obtain ⟨S, hS, hbuilds⟩ := hd₂
    rw [hleft, hlast] at hbuilds
    have hadapter : d₂.Wants c.expirationOf []
        (d₂.cut c left last (d.started c).scope.length) := wants_snoc rfl rfl
    have hclosed : d₂.Wants c.expirationOf [] ((d₂.cut c left last (d.started c).scope.length).closed
      c q left (d.started c).first (d₂.steps.length, [], none)) := hadapter.trans (wants_snoc rfl rfl)
    obtain ⟨hafter, x, j, htuple, hkind, hjoins, rfl, hright⟩ :=
      d₂.exists_closed c q left last (d.started c).scope.length (d.started c).first
    refine ⟨_, (hS₀.trans hS).trans hclosed, ?_⟩
    rw [htuple]
    exact .subnetwork hmany (hstarts.mono (stepKinds_within (hS.grows.trans hafter)))
      (hbuilds.mono (stepKinds_within hafter)) hright hkind hjoins .nil

/-- A universal statement is drawn as the negation that it is. -/
theorem drawn_universal (base : Pattern) (rest : List Pattern) :
    d.Drawn c.expirationOf [.every base rest] (Draw.universal c base rest d) := by
  let u := Universal.of base rest
  let c' : Setting := { c with guardsOut := u.guardsOnly }
  have hinner : ∀ d₂ : Draft, d₂.Drawn c'.expirationOf [.group .not u.inner]
      (Draw.quantified c' .none u.inner (u.rest.forM fun p => do let _ ← Draw.pattern c' p) d₂) :=
    fun d₂ => drawn_quantified (q := .none) fun d₃ => drawn_patterns _
  have houter : d.Drawn c'.expirationOf [.group .not u.outer] (Draw.universal c base rest d) :=
    drawn_quantified (q := .none) fun d₁ => drawn_pattern.bind fun _ d₂ => hinner d₂
  exact houter.mono fun _ d' ⟨S, hS, hbuilds⟩ => ⟨S, hS, .every hbuilds⟩

theorem drawn_call {call : QueryCall} :
    d.Drawn c.expirationOf [.call call] (Draw.call c call d) := by
  refine Draw.ends_call trivial fun left arguments hleft _ => ?_
  obtain ⟨S₀, hS₀, hstarts⟩ := begins_started hleft
  let request : Request := ⟨.queryElement left call.query arguments, c.guardsOut, none⟩
  have hanswer : (d.started c).Wants c.expirationOf [] ((d.started c).snoc request) :=
    wants_snoc rfl rfl
  refine ⟨_, hS₀.trans hanswer, ?_⟩
  exact .call (hstarts.mono (stepKinds_within hanswer.grows)) (stepKinds_concat _ request) .nil

/-! ### Rules -/

mutual

theorem drawn_element {d : Draft} :
    (e : Element) → d.Drawn c.expirationOf [e] (Draw.element c e d)
  | .pattern p => by
    rw [Draw.element]
    exact drawn_pattern.drop
  | .group .and members => by
    rw [Draw.element]
    exact (drawn_elements members).mono fun _ d' ⟨S, hS, hbuilds⟩ =>
      ⟨S, hS, List.append_nil S ▸ .and hbuilds .nil⟩
  | .group .or members => by
    rw [Draw.element]
    exact trivial
  | .group .not members => by
    rw [Draw.element]
    exact drawn_quantified (q := .none) fun _ => drawn_elements members
  | .group .exists members => by
    rw [Draw.element]
    exact drawn_quantified (q := .some) fun _ => drawn_elements members
  | .every base rest => by
    rw [Draw.element]
    exact drawn_universal base rest
  | .call q => by
    rw [Draw.element]
    exact drawn_call

/-- **Drawing elements asks for nodes that are built as the elements tell**, and
    wants the facts of their patterns kept just at the object sides. -/
theorem drawn_elements {d : Draft} :
    (es : List Element) → d.Drawn c.expirationOf es (Draw.elements c es d)
  | [] => by
    rw [Draw.elements]
    exact Builds.refl _ d
  | e :: es => by
    rw [Draw.elements]
    exact Drawn.bind (drawn_element e) fun _ d₁ => drawn_elements es

end

end Draft

section Branches
variable {config : Config} (hstream : config.isStream) {query : Bool} {d d' : Draft}
include hstream

/-- A branch has object sides above its terminal, and wants the facts of its
    patterns kept just there. -/
theorem Draw.ends_attaches (b : Branch) (d : Draft) :
    Ends (fun _ => True) (fun _ d' => ∃ S, d.Wants b.wants S d' ∧
      (stepKinds d'.steps).Attaches 0 query b S) (branch config query b d) := by
  refine ends_branch trivial fun distances? hdistances => ?_
  rw [Draw.Knows, if_pos hstream] at hdistances
  obtain ⟨M, hM, rfl⟩ := hdistances
  let c : Setting := ⟨config.objectTypeMemory, some M, false⟩
  have hwants : c.expirationOf = b.wants := by
    funext p
    rw [Setting.expirationOf, Branch.wants, hM]
    rfl
  have hdrawn : d.nextBranch.Drawn c.expirationOf b.body.members
      (elements c b.body.members d.nextBranch) := Draft.drawn_elements _
  rw [hwants] at hdrawn
  refine ends_terminal (hdrawn.mono fun _ d₁ hd₁ last hlast => ?_)
  obtain ⟨S₁, hS₁, hbuilds⟩ := hd₁
  obtain ⟨S₂, hS₂, hstarts⟩ := Draft.begins_started hlast
  rw [hwants] at hS₂
  let request : Request := ⟨.terminal last 0 b.index query, false, none⟩
  have hend : (d₁.started c).Wants b.wants [] ((d₁.started c).snoc request) :=
    Draft.wants_snoc rfl rfl
  refine ⟨S₁ ++ S₂, ?_, d₁.tuple?, last, _, S₁, S₂, ?_, ?_,
    stepKinds_concat (d₁.started c).steps request, rfl⟩
  · rw [← List.append_nil (S₁ ++ S₂)]
    exact (hS₁.trans hS₂).trans hend
  · exact hbuilds.mono (stepKinds_within (hS₂.trans hend).grows)
  · exact hstarts.mono (stepKinds_within hend.grows)

/-- What some branches want is what each of them wants at its own object
    sides. -/
theorem Draw.mapM_attaches {bs : List Branch} {ts : List Nat}
    (h : bs.mapM (branch config query) d = .ok ts d') : ∃ sides new,
      List.Forall₂ ((stepKinds d'.steps).Attaches 0 query) bs sides ∧
      d'.steps = d.steps ++ new ∧ stepsWant d.steps.length new =
        (bs.zip sides).flatMap fun (b, S) => S.flatMap (Side.wants b.wants) := by
  induction bs generalizing d ts with
  | nil =>
    cases h
    exact ⟨[], [], .nil, (List.append_nil _).symm, rfl⟩
  | cons b bs ih =>
    rw [List.mapM_cons] at h
    obtain ⟨t, d₁, hb, h⟩ := bind_inv h
    obtain ⟨ts, d₂, hbs, h⟩ := bind_inv h
    cases h
    have hends := @ends_attaches config hstream query b d
    rw [hb] at hends
    obtain ⟨S, ⟨new, hnew, hS⟩, hattaches⟩ := hends
    obtain ⟨sides, new', hsides, hnew', hwants⟩ := ih hbs
    have hgrows : d₁.steps <+: d'.steps := hnew' ▸ List.prefix_append _ _
    refine ⟨S :: sides, new ++ new', .cons (hattaches.mono (stepKinds_within hgrows)) hsides,
      by rw [hnew', hnew, List.append_assoc], ?_⟩
    rw [stepsWant_append, hS, List.zip_cons_cons, List.flatMap_cons, ← hwants, hnew,
      List.length_append]

/-- A blueprint asks for the object sides of each branch, and wants nothing else
    at them. -/
theorem Rule.blueprint_attaches {r : Rule} {bp : Blueprint} (h : r.blueprint config = .ok bp) :
    ∃ bs sides, r.body.branches = .ok bs ∧
      List.Forall₂ ((stepKinds bp.steps).Attaches 0 r.isQuery) bs sides ∧
      stepsWant 0 bp.steps = (bs.zip sides).flatMap fun (b, S) => S.flatMap (Side.wants b.wants) := by
  obtain ⟨bs, d, hbs, hd, hsteps⟩ := exists_drawn h
  obtain ⟨sides, new, hsides, hnew, hwants⟩ := Draw.mapM_attaches hstream hd
  obtain rfl : d.steps = new := hnew
  rw [hsteps]
  exact ⟨bs, sides, hbs, hsides, hwants⟩

end Branches

/-! ## Demands -/

theorem NodeKind.onSide_eq_of_serves {k k' : NodeKind} {b : Bool} (h : k.serves b k') :
    k.onSide = k'.onSide := by
  obtain rfl | ⟨i, j, rfl, rfl, -⟩ := NodeKind.serves_cases h
  · rfl
  · rfl

namespace Network.Houses

variable {net : Network} {config : Config} {inst : RuleId → Option Installation} {id : RuleId}
variable {I : Installation} {x : NodeId} {n : Node}

/-- A rule demands of a node on object sides what its requests for such nodes
    want. -/
theorem demand_eq_stepsWant (h : net.Houses config inst) (hI : inst id = some I)
    (hn : net.nodes[x]? = some n) (hside : n.kind.onSide) :
    I.demand x = Expiration.longest? ((stepsWant 0 I.steps).filterMap fun (i, e?) =>
      if I.nodeAt i = x then e? else none) := by
  refine Expiration.longest?_congr fun e => ?_
  simp only [List.mem_filterMap, Prod.exists, Option.ite_none_right_eq_some]
  constructor
  · rintro ⟨q, y, hqy, rfl, he⟩
    obtain ⟨i, hi⟩ := List.mem_iff_getElem?.1 hqy
    obtain ⟨hq, hy⟩ := List.getElem?_zip_eq_some.1 hi
    obtain ⟨n', hn', hserves⟩ := h.placed hI hq hy
    obtain rfl : n' = n := Option.some.inj (hn'.symm.trans hn)
    rw [NodeKind.onSide_eq_of_serves hserves] at hside
    have hkind : q.kind.onSide := by
      rw [← hside, Installation.wanted]
      cases q.kind <;> rfl
    exact ⟨i, some e, mem_stepsWant.2 ⟨q, hq, hkind, he⟩, Installation.nodeAt_eq hy, rfl⟩
  · rintro ⟨i, e?, hi, rfl, rfl⟩
    obtain ⟨q, hq, -, he⟩ := mem_stepsWant.1 hi
    refine ⟨q, I.nodeAt i, List.mem_iff_getElem?.2 ⟨i, ?_⟩, rfl, he⟩
    exact List.getElem?_zip_eq_some.2 ⟨hq, h.node_of_step hI hq⟩

/-- The terminal of a branch is the only one. -/
theorem terminal_unique {r : Rule} {bp : Blueprint} (h : net.Houses config inst)
    (hI : inst id = some I) (hb : r.blueprint config = .ok bp) (hsteps : I.steps = bp.steps)
    {k : Nat} {query : Bool} {y s s' : NodeId} (hx : net.kinds x = some (.terminal s id k query))
    (hy : net.kinds y = some (.terminal s' id k query)) : x = y := by
  obtain ⟨n, hn, hkind⟩ := Option.map_eq_some_iff.1 hx
  obtain ⟨n', hn', hkind'⟩ := Option.map_eq_some_iff.1 hy
  obtain ⟨i, hi, hx⟩ := (h.terminalAt_iff hI hb hsteps).1 ⟨n, s, query, hn, hkind⟩
  obtain ⟨i', hi', hy⟩ := (h.terminalAt_iff hI hb hsteps).1 ⟨n', s', query, hn', hkind'⟩
  obtain rfl : i = i' := Option.some.inj (hi.symm.trans hi')
  exact Option.some.inj (hx.symm.trans hy)

end Network.Houses

/-! ## Rule bases -/

namespace RuleBase.Sound

variable {base : RuleBase} {defs : RuleId → Option Rule} {inst : RuleId → Option Installation}
variable {x : NodeId} {n : Node} {id : RuleId} {r : Rule}

/-- A rule demands something only of nodes that it uses. -/
theorem mem_rules_of_demands (h : base.Sound defs inst) (hn : base.network.nodes[x]? = some n)
    {e : Expiration} (he : n.retention.demands[id]? = some e) : id ∈ n.rules := by
  by_contra hid
  rw [h.houses.demanded hn id hid] at he
  cases he

/-- The branches of a rule have object sides above their terminals, and at these
    the rule demands what the branches want. -/
theorem attaches (h : base.Sound defs inst) (hh : base.network.Heeds inst)
    (hstream : base.config.isStream) (hr : defs id = some r) : ∃ bs sides, r.body.branches = .ok bs ∧
      List.Forall₂ (base.network.kinds.Attaches id r.isQuery) bs sides ∧
      ∀ {x : NodeId} {n : Node}, base.network.nodes[x]? = some n → n.kind.onSide →
        n.retention.demands[id]? = Expiration.longest? (sidesWant x bs sides) := by
  obtain ⟨entry, I, -, hI, hreg⟩ := h.entry_of_definition hr
  obtain ⟨bp, hbp, hsteps⟩ := hreg.blueprint
  obtain ⟨bs, sides, hbs, hsides, hwants⟩ := Rule.blueprint_attaches hstream hbp
  rw [← hsteps] at hsides hwants
  refine ⟨bs, sides.map (List.map (Side.map I.nodeAt)), hbs, ?_, fun {x n} hn hside => ?_⟩
  · rw [List.forall₂_map_right_iff]
    exact hsides.imp fun b S hS => hS.map (h.houses.served hI)
  · rw [hh hn, hI, Option.bind_some, h.houses.demand_eq_stepsWant hI hn hside, hwants]
    refine Expiration.longest?_congr fun e => ?_
    rw [mem_sidesWant]
    simp only [List.mem_filterMap, List.mem_flatMap, Option.ite_none_right_eq_some]
    constructor
    · rintro ⟨⟨i, e?⟩, ⟨⟨b, S⟩, hbS, s, hs, hi⟩, rfl, he⟩
      obtain ⟨j, hj, heq⟩ := List.mem_map.1 hi
      obtain ⟨rfl, rfl⟩ := Prod.mk.inj heq
      refine ⟨b, S.map (Side.map I.nodeAt), ?_, s.map I.nodeAt, List.mem_map_of_mem hs,
        List.mem_map_of_mem hj, he⟩
      rw [List.zip_map_right]
      exact List.mem_map_of_mem hbS
    · rintro ⟨b, S', hbS', s', hs', hx, he⟩
      rw [List.zip_map_right] at hbS'
      obtain ⟨⟨b, S⟩, hbS, heq⟩ := List.mem_map.1 hbS'
      obtain ⟨rfl, rfl⟩ := Prod.mk.inj heq
      obtain ⟨s, hs, rfl⟩ := List.mem_map.1 hs'
      obtain ⟨i, hi, rfl⟩ := List.mem_map.1 hx
      have hwant : (i, some e) ∈ s.wants b.wants := List.mem_map.2 ⟨i, hi, by rw [← he]; rfl⟩
      exact ⟨(i, some e), ⟨(b, S), hbS, s, hs, hwant⟩, rfl, rfl⟩

/-- These object sides are the only ones. -/
theorem attaches_unique (h : base.Sound defs inst) (hr : defs id = some r) {bs : List Branch}
    {sides sides' : List (List Side)}
    (hsides : List.Forall₂ (base.network.kinds.Attaches id r.isQuery) bs sides)
    (hsides' : List.Forall₂ (base.network.kinds.Attaches id r.isQuery) bs sides') :
    sides = sides' := by
  obtain ⟨entry, I, -, hI, hreg⟩ := h.entry_of_definition hr
  obtain ⟨bp, hbp, hsteps⟩ := hreg.blueprint
  refine List.right_unique_forall₂' (fun b S S' hS hS' => ?_) hsides hsides'
  exact hS.unique (fun x y s s' => h.houses.terminal_unique hI hbp hsteps) hS'

end RuleBase.Sound

/-- **Facts are kept as long as rules want them.**  Whatever commands led to a
    library where facts may be events, the total of a node is the longest of the
    demands on it, and only rules that use the node demand something.  If the
    commands brought no more definitions than there are numbers for rules, then at
    a node on object sides a rule demands the longest time that its branches want
    for the events whose object sides lead through the node, each branch by its
    own distances.  The terminals of the rule tell which object sides these
    are. -/
theorem retention_bookkeeping {k : Nat} {l : Library} (hl : l.ReachableBy k)
    (hstream : l.base.config.isStream) {x : NodeId} {n : Node}
    (hn : l.base.network.nodes[x]? = some n) :
    n.retention.total = Expiration.longest? (n.retention.demands.toList.map (·.2)) ∧
    (∀ (id : RuleId) (e : Expiration), n.retention.demands[id]? = some e →
      id ∈ n.rules ∧ ∃ r, l.definitions id = some r) ∧
    (k ≤ 2 ^ 32 → n.kind.onSide → ∀ (id : RuleId) (r : Rule), l.definitions id = some r →
      ∃ bs, r.body.branches = .ok bs ∧
        (∃ sides, List.Forall₂ (l.base.network.kinds.Attaches id r.isQuery) bs sides) ∧
        ∀ sides, List.Forall₂ (l.base.network.kinds.Attaches id r.isQuery) bs sides →
          n.retention.demands[id]? = Expiration.longest? (sidesWant x bs sides)) := by
  obtain ⟨inst, hs, hheeds⟩ := hl.sound
  refine ⟨hs.houses.totalled hn, fun id e he => ?_, fun hk hside id r hr => ?_⟩
  · have hid := hs.mem_rules_of_demands hn he
    obtain ⟨I, hI, -⟩ := (hs.houses.owners hn id).1 hid
    exact ⟨hid, hs.definition_of_installation hI⟩
  · obtain ⟨bs, sides, hbs, hsides, hdemands⟩ := hs.attaches (hheeds hk) hstream hr
    refine ⟨bs, hbs, ⟨sides, hsides⟩, fun sides' hsides' => ?_⟩
    rw [hs.attaches_unique hr hsides' hsides]
    exact hdemands hn hside

/-- Two rules about events, the more patient of which has been removed. -/
def Library.following : Library :=
  [Command.add (.following "first" 20), .add (.following "second" 10), .remove 0].foldl
    Library.after (.empty .stream)

/-- The root of a type at which the remaining rule alone demands something. -/
theorem retention_bookkeeping_following : Library.following.ReachableBy 2 ∧
    Library.following.base.config.isStream ∧
    ∃ n bs, Library.following.base.network.nodes[(1 : NodeId)]? = some n ∧ n.kind.onSide ∧
      n.retention.total = some (.bounded 10) ∧
      Library.following.definitions 1 = some (.following "second" 10) ∧
      ∃ sides, List.Forall₂ (Library.following.base.network.kinds.Attaches 1 false) bs sides ∧
        Expiration.longest? (sidesWant 1 bs sides) = some (.bounded 10) := by
  have hlast : Library.following.ReachableBy _ := Library.reachableBy_foldl rfl _
  have h : Library.following.ReachableBy 2 := hlast
  have hstream : Library.following.base.config.isStream := by decide +kernel
  have hnode : (Library.following.base.network.nodes[(1 : NodeId)]?).map
      (fun n => (n.kind.onSide, n.retention.total, n.retention.demands[(1 : RuleId)]?)) =
      some (true, some (.bounded 10), some (.bounded 10)) := by decide +kernel
  have hr : Library.following.definitions 1 = some (.following "second" 10) := by decide +kernel
  obtain ⟨n, hn, hsame⟩ := Option.map_eq_some_iff.1 hnode
  obtain ⟨hside, htotal, hdemand⟩ : n.kind.onSide = true ∧ _ ∧ _ := by
    simpa only [Prod.mk.injEq] using hsame
  obtain ⟨bs, -, ⟨sides, hsides⟩, hdemands⟩ :=
    (retention_bookkeeping h hstream hn).2.2 (by decide) hside 1 _ hr
  refine ⟨h, hstream, n, bs, hn, hside, htotal, hr, sides, hsides, ?_⟩
  rw [← hdemands sides hsides, hdemand]

/-- When rule numbers have come round again, a rule about events is refused for
    the number of another one, which demands from then on what the refused rule
    would have. -/
theorem not_retention_bookkeeping_recounted : ¬ ∀ (l : Library) (x : NodeId) (n : Node),
    l.Reachable → l.base.config.isStream → l.base.network.nodes[x]? = some n → n.kind.onSide →
    ∀ (id : RuleId) (r : Rule), l.definitions id = some r →
      ∃ bs, r.body.branches = .ok bs ∧
        (∃ sides, List.Forall₂ (l.base.network.kinds.Attaches id r.isQuery) bs sides) ∧
        ∀ sides, List.Forall₂ (l.base.network.kinds.Attaches id r.isQuery) bs sides →
          n.retention.demands[id]? = Expiration.longest? (sidesWant x bs sides) := by
  intro hall
  let l := Library.recounted .stream [.add (.following "first" 10)]
  let second : Rule := .following "second" 100
  have hfree : l.base.ruleNamed? "vain" = none := by decide +kernel
  have h : l.Reachable := Library.reachable_recounted rfl _ (by decide +kernel) hfree
  have h' : (l.after (.add second)).Reachable := h.step _
  have hfail : (l.base.add second).result.toBool = false := by decide +kernel
  have hr : l.definitions 0 = some (.following "first" 10) := by decide +kernel
  have hr' : (l.after (.add second)).definitions 0 = some (.following "first" 10) := by
    decide +kernel
  have hnode : (l.base.network.nodes[(1 : NodeId)]?).map
      (fun n => (n.kind.onSide, n.retention.demands[(0 : RuleId)]?)) =
      some (true, some (.bounded 10)) := by decide +kernel
  have hnode' : ((l.after (.add second)).base.network.nodes[(1 : NodeId)]?).map
      (fun n => (n.kind.onSide, n.retention.demands[(0 : RuleId)]?)) =
      some (true, some (.bounded 100)) := by decide +kernel
  have hstream : l.base.config.isStream := by decide +kernel
  have hstream' : (l.after (.add second)).base.config.isStream := by decide +kernel
  -- only what has been computed counts from here on
  clear_value l second
  have hkinds : (l.after (.add second)).base.network.kinds = l.base.network.kinds := by
    obtain ⟨inst, hs⟩ := h.sound
    cases hresult : (l.base.add second).result with
    | ok built =>
      rw [hresult] at hfail
      cases hfail
    | error failure => exact (RuleBase.Sound.add_kept hs hresult).kinds_eq
  obtain ⟨n, hn, hsame⟩ := Option.map_eq_some_iff.1 hnode
  obtain ⟨n', hn', hsame'⟩ := Option.map_eq_some_iff.1 hnode'
  obtain ⟨hside, hdemand⟩ := Prod.mk.inj hsame
  obtain ⟨hside', hdemand'⟩ := Prod.mk.inj hsame'
  -- the object sides are the same, so the demands would have to be
  obtain ⟨bs, hbs, ⟨sides, hsides⟩, hbefore⟩ := hall l 1 n h hstream hn hside 0 _ hr
  obtain ⟨bs', hbs', -, hafter⟩ := hall _ 1 n' h' hstream' hn' hside' 0 _ hr'
  obtain rfl : bs' = bs := Except.ok.inj (hbs'.symm.trans hbs)
  have heq := (hbefore sides hsides).trans (hafter sides (hkinds ▸ hsides)).symm
  rw [hdemand, hdemand'] at heq
  exact absurd heq (by decide)

end RuleNet
