/-
  RuleNet — compiling a rule follows its blueprint.

  Attaching each construct of a rule agrees with drawing it, from single
  patterns up to whole rules (`agree_element`, `agree_rule`).  So a rule can be
  compiled into a network just if it has a blueprint, no matter what the network
  holds, and what is compiled is what the blueprint asks for.
-/
import RuleNet.Proofs.Agreement
import RuleNet.Session.Compile

namespace RuleNet

/-! ## Frames and flags -/

namespace Session

variable {α : Type} {s t : Session} {step : Compile α} {a : α} {f : Fault}

theorem modify_bind {β : Type} (u : Session → Session) (k : PUnit → Compile β) :
    (modify u >>= k) s = k ⟨⟩ (u s) := rfl

theorem insideOrigin_ok {o : Origin} {below : Stack Origin} (h : step (s.pushOrigin o) = .ok a t)
    (ht : t.trail = o :: below) : insideOrigin o step s = .ok a { t with trail? := some below } := by
  have hpop : take popOrigin t = .ok o { t with trail? := some below } := by
    rw [take, get_bind, popOrigin, ht]
    rfl
  rw [insideOrigin, modify_bind, bind_ok h, bind_ok hpop]
  rfl

theorem insideOrigin_error {o : Origin} (h : step (s.pushOrigin o) = .error f t) :
    insideOrigin o step s = .error f t := by
  rw [insideOrigin, modify_bind, bind_error h]

theorem insideElement_ok {e : Element} {below : Stack Element}
    (h : step (s.pushElement e) = .ok a t) (ht : t.elements = e :: below) :
    insideElement e step s = .ok a { t with elements? := some below } := by
  have hpop : take popElement t = .ok e { t with elements? := some below } := by
    rw [take, get_bind, popElement, ht]
    rfl
  rw [insideElement, modify_bind, bind_ok h, bind_ok hpop]
  rfl

theorem insideElement_error {e : Element} (h : step (s.pushElement e) = .error f t) :
    insideElement e step s = .error f t := by
  rw [insideElement, modify_bind, bind_error h]

end Session

namespace Stage

variable {α β : Type} {g : Stage} {s : Session} {d : Draft} {I : Installation}
variable {R : α → β → Draft → Installation → Prop} {step : Compile α}
variable {r : EStateM.Result Fault Draft β}

/-- The stage inside a construct. -/
def enter (g : Stage) (o : Origin) : Stage := { g with trail := o :: g.trail }

/-- The stage inside an element. -/
def enterElement (g : Stage) (e : Element) : Stage := { g with elements := e :: g.elements }

theorem Matches.enter (h : g.Matches s d I) (o : Origin) : (g.enter o).Matches (s.pushOrigin o) d I :=
  { h with trail := congrArg (o :: ·) h.trail }

theorem Matches.enterElement (h : g.Matches s d I) (e : Element) :
    (g.enterElement e).Matches (s.pushElement e) d I :=
  { h with elements := congrArg (e :: ·) h.elements }

theorem agree_insideOrigin {o : Origin}
    (h : Agree (g.enter o).Fails ((g.enter o).Post R) (step (s.pushOrigin o)) r) :
    Agree g.Fails (g.Post R) (Session.insideOrigin o step s) r := by
  generalize hstep : step (s.pushOrigin o) = t at h
  cases h with
  | ok h =>
    obtain ⟨J, hJ, hR⟩ := h
    rw [Session.insideOrigin_ok hstep hJ.trail]
    exact .ok ⟨J, { hJ with trail := rfl }, hR⟩
  | error h =>
    rw [Session.insideOrigin_error hstep]
    exact .error h

theorem agree_insideElement {e : Element}
    (h : Agree (g.enterElement e).Fails ((g.enterElement e).Post R) (step (s.pushElement e)) r) :
    Agree g.Fails (g.Post R) (Session.insideElement e step s) r := by
  generalize hstep : step (s.pushElement e) = t at h
  cases h with
  | ok h =>
    obtain ⟨J, hJ, hR⟩ := h
    rw [Session.insideElement_ok hstep hJ.elements]
    exact .ok ⟨J, { hJ with elements := rfl }, hR⟩
  | error h =>
    rw [Session.insideElement_error hstep]
    exact .error h

/-- A step inside an element that is a construct. -/
theorem agree_inside {e : Element} {o : Origin}
    (h : ∀ t, ((g.enterElement e).enter o).Matches t d I →
      Agree ((g.enterElement e).enter o).Fails (((g.enterElement e).enter o).Post R) (step t) r)
    (hm : g.Matches s d I) : Agree g.Fails (g.Post R) (Session.inside e o step s) r :=
  agree_insideElement (agree_insideOrigin (h _ ((hm.enterElement e).enter o)))

/-- The same stage inside other elements and constructs. -/
def within (g : Stage) (elements : Stack Element) (trail : Stack Origin) : Stage :=
  { g with elements, trail }

/-- The stage at which guards are left out, or not, when tests are weighed. -/
def weighing (g : Stage) (guardsOut : Bool) : Stage :=
  { g with setting := { g.setting with guardsOut } }

/-- The stage at which joins keep tuples, or not. -/
def keeping (g : Stage) (tupleMemory : Bool) : Stage := { g with tupleMemory }

theorem Matches.weighing (h : g.Matches s d I) (on : Bool) :
    (g.weighing on).Matches { s with guardsOut := on } d I := { h with guardsOut := rfl }

theorem Matches.weighed {on guardsOut : Bool} (h : (g.weighing on).Matches s d I)
    (hg : guardsOut = g.setting.guardsOut) : g.Matches { s with guardsOut } d I :=
  { h with guardsOut := hg }

theorem Matches.keeping (h : g.Matches s d I) (on : Bool) :
    (g.keeping on).Matches { s with tupleMemory := on } d I := { h with tupleMemory := rfl }

theorem Matches.kept {on tupleMemory : Bool} (h : (g.keeping on).Matches s d I)
    (hg : tupleMemory = g.tupleMemory) : g.Matches { s with tupleMemory } d I :=
  { h with tupleMemory := hg }

theorem agree_withGuardsOut {on : Bool}
    (h : ∀ t, (g.weighing on).Matches t d I → Agree g.Fails ((g.weighing on).Post R) (step t) r)
    (hm : g.Matches s d I) : Agree g.Fails (g.Post R) (Session.withGuardsOut on step s) r := by
  have hstep := h _ (hm.weighing on)
  have hs := hm.guardsOut
  clear h hm
  unfold Session.withGuardsOut
  generalize step { s with guardsOut := on } = t at hstep ⊢
  cases hstep with
  | ok h =>
    obtain ⟨J, hJ, hR⟩ := h
    exact .ok ⟨J, hJ.weighed hs, hR⟩
  | error h => exact .error h

theorem agree_withTupleMemory {on : Bool}
    (h : ∀ t, (g.keeping on).Matches t d I → Agree g.Fails ((g.keeping on).Post R) (step t) r)
    (hm : g.Matches s d I) : Agree g.Fails (g.Post R) (Session.withTupleMemory on step s) r := by
  have hstep := h _ (hm.keeping on)
  have hs := hm.tupleMemory
  clear h hm
  unfold Session.withTupleMemory
  generalize step { s with tupleMemory := on } = t at hstep ⊢
  cases hstep with
  | ok h =>
    obtain ⟨J, hJ, hR⟩ := h
    exact .ok ⟨J, hJ.kept hs, hR⟩
  | error h => exact .error h

/-! ## Single nodes -/

variable {q : Request} {x y source left right : NodeId} {i j l k : Nat} {e? : Option Expiration}
variable {d' d'' : Draft} {J K : Installation} {inst : RuleId → Option Installation}

theorem Supplied.trans {v w : NodeKind.Supply} (h : Supplied v d I x i d' J)
    (h' : Supplied w d' J y j d'' K) : Supplied w d I y j d'' K := by
  obtain ⟨hb, hd, -⟩ := h
  obtain ⟨hb', hd', hgot⟩ := h'
  exact ⟨hb.trans hb', by rw [hd', hd], hgot⟩

/-- What comes of a construct: the draft is longer, and so is the scope. -/
def Advanced {α β : Type} (d : Draft) (I : Installation) (_ : α) (_ : β) (d' : Draft)
    (J : Installation) : Prop :=
  I.Below J ∧ d.scope <+: d'.scope

/-- What comes of a construct that ends in a tuple. -/
def Tupled {α : Type} (d : Draft) (I : Installation) (a : α) (i : Nat) (d' : Draft)
    (J : Installation) : Prop :=
  Advanced d I a i d' J ∧ d'.tuple? = some i

/-- What comes of the right side of a join. -/
def Fed (d : Draft) (I : Installation) (r : Session.RightInput)
    (t : Nat × List JoinTest × Option Expiration) (d' : Draft) (J : Installation) : Prop :=
  Advanced d I r t d' J ∧ J.Got .objects r.source t.1 ∧ r.tests = t.2.1 ∧ r.expiration? = t.2.2

theorem Advanced.trans {γ δ : Type} {a : α} {b : β} {c : γ} {e : δ} (h : Advanced d I a b d' J)
    (h' : Advanced d' J c e d'' K) : Advanced d I c e d'' K :=
  ⟨h.1.trans h'.1, h.2.trans h'.2⟩

theorem Supplied.advanced {v : NodeKind.Supply} (h : Supplied v d I x i d' J) :
    Advanced d I x i d' J := by
  obtain ⟨hb, hd, -⟩ := h
  exact ⟨hb, by rw [hd]⟩

namespace Matches

variable (h : g.Matches s d I) (h₀ : g.site.Standing g.rule .empty)
include h h₀

theorem agree_alpha {t : FieldTest} (hsource : I.Got .facts source i) :
    Agree g.Fails (g.Post (Supplied .facts d I)) (Session.attachAlpha source t e? s)
      (Draw.request g.setting (.alpha i t) e? d) := by
  have hq : Request.Follows g.setting.memory I.steps ⟨.alpha i t, g.setting.guardsOut, e?⟩ := by
    refine Installation.follows_of_got (fun i hi => ?_) rfl (fun j hj => by cases hj)
    obtain rfl := List.mem_singleton.1 hi
    exact ⟨source, hsource⟩
  have hstep := h.agree_node h₀ hq rfl s.base.config.alphaSharing rfl rfl
  have hwanted : I.wanted g.rule ⟨.alpha i t, g.setting.guardsOut, e?⟩ = .alpha source t := by
    simp only [Installation.wanted, NodeKind.map, hsource.nodeAt]
  rw [hwanted] at hstep
  rw [Session.attachAlpha, Session.get_bind]
  refine hstep.mono ?_
  rintro _ _ _ _ ⟨J, hJ, hR⟩
  exact ⟨J, hJ, h.supplied h₀ _ hR rfl⟩

theorem agree_beta {kind wanted : NodeKind} {supply : NodeKind.Supply}
    (hwanted : I.wanted g.rule ⟨kind, g.setting.guardsOut, e?⟩ = wanted)
    (hq : Request.Follows g.setting.memory I.steps ⟨kind, g.setting.guardsOut, e?⟩)
    (hkey : kind.rootKey? = none) (hshares : s.base.config.shares kind = s.base.config.betaSharing)
    (hs : kind.supplies supply) :
    Agree g.Fails (g.Post (Supplied supply d I)) (Session.attachBeta wanted e? s)
      (Draw.request g.setting kind e? d) := by
  have hstep := h.agree_node h₀ hq rfl _ hkey hshares.symm
  rw [hwanted] at hstep
  rw [Session.attachBeta, Session.get_bind]
  refine hstep.mono ?_
  rintro _ _ _ _ ⟨J, hJ, hR⟩
  exact ⟨J, hJ, h.supplied h₀ _ hR hs⟩

theorem agree_leftInput (hsource : I.Got .facts source i) :
    Agree g.Fails (g.Post (Supplied .tuples d I)) (Session.attachBeta (.leftInput source) e? s)
      (Draw.request g.setting (.leftInput i) e? d) := by
  refine h.agree_beta h₀ ?_ ?_ rfl rfl rfl
  · simp only [Installation.wanted, NodeKind.map, hsource.nodeAt]
  · refine Installation.follows_of_got (fun i hi => ?_) rfl (fun j hj => by cases hj)
    obtain rfl := List.mem_singleton.1 hi
    exact ⟨source, hsource⟩

theorem agree_rightInput (hsource : I.Got .tuples source i) :
    Agree g.Fails (g.Post (Supplied .objects d I)) (Session.attachBeta (.rightInput source) e? s)
      (Draw.request g.setting (.rightInput i) e? d) := by
  refine h.agree_beta h₀ ?_ ?_ rfl rfl rfl
  · simp only [Installation.wanted, NodeKind.map, hsource.nodeAt]
  · refine Installation.follows_of_got (fun i hi => ?_) rfl (fun j hj => by cases hj)
    obtain rfl := List.mem_singleton.1 hi
    exact ⟨source, hsource⟩

theorem agree_queryElement {query : Symbol} {arguments : List Argument}
    (hleft : I.Got .tuples left i) :
    Agree g.Fails (g.Post (Supplied .tuples d I))
      (Session.attachBeta (.queryElement left query arguments) e? s)
      (Draw.request g.setting (.queryElement i query arguments) e? d) := by
  refine h.agree_beta h₀ ?_ ?_ rfl rfl rfl
  · simp only [Installation.wanted, NodeKind.map, hleft.nodeAt]
  · refine Installation.follows_of_got (fun i hi => ?_) rfl (fun j hj => by cases hj)
    obtain rfl := List.mem_singleton.1 hi
    exact ⟨left, hleft⟩

theorem agree_join (kind : JoinKind) (tests : List JoinTest) (e? : Option Expiration)
    (hleft : I.Got .tuples left l) (hright : I.Got .objects right k) :
    Agree g.Fails (g.Post (Supplied .tuples d I))
      (Session.attachJoin kind left right tests e? s)
      (Draw.join g.setting kind l k tests g.tupleMemory e? d) := by
  have h' : g.Matches { s with joinTests := tests } d I := { h with }
  refine Agree.left rfl (Agree.left rfl ?_)
  refine h'.agree_beta h₀ ?_ ?_ rfl rfl rfl
  · simp only [Installation.wanted, NodeKind.map, hleft.nodeAt, hright.nodeAt, h.tupleMemory,
      h.guardsOut]
  · refine Installation.follows_of_got (fun i hi => ?_) rfl (fun j hj => by cases hj; rfl)
    simp only [NodeKind.inputs, List.mem_cons, List.not_mem_nil, or_false] at hi
    rcases hi with rfl | rfl
    · exact ⟨left, hleft⟩
    · exact ⟨right, hright⟩

/-! ## Patterns -/

omit h₀ in
theorem expirationOf (p : Pattern) : s.expirationOf p = g.setting.expirationOf p := by
  rw [Session.expirationOf, Setting.expirationOf, h.distances]

theorem agree_alphas {tests : List FieldTest} (hsource : I.Got .facts source i) :
    Agree g.Fails (g.Post (Supplied .facts d I))
      (tests.foldlM (fun source t => Session.insideOrigin (.fieldTest t)
        (Session.attachAlpha source t e?)) source s)
      (tests.foldlM (fun source t => Draw.request g.setting (.alpha source t) e?) i d) := by
  induction tests generalizing s d I source i with
  | nil => exact .ok ⟨I, h, .refl I, rfl, hsource⟩
  | cons t tests ih =>
    rw [List.foldlM_cons, List.foldlM_cons]
    refine Agree.bind (agree_insideOrigin ((h.enter (.fieldTest t)).agree_alpha h₀ hsource)) ?_
    rintro x s₁ j d₁ ⟨J, hJ, hR⟩
    refine (ih hJ hR.2.2).mono ?_
    rintro _ _ _ _ ⟨K, hK, hR'⟩
    exact ⟨K, hK, hR.trans hR'⟩

theorem agree_objectSide (p : Pattern) :
    Agree g.Fails (g.Post (Supplied .facts d I)) (Session.attachObjectSide p s)
      (Draw.objectSide g.setting p d) := by
  let q₁ : Request := ⟨.entryPoint p.entry, g.setting.guardsOut, none⟩
  have hq₁ : q₁.Follows g.setting.memory I.steps :=
    Installation.follows_of_got (fun i hi => absurd hi List.not_mem_nil) rfl (fun j hj => by cases hj)
  have h' : g.Matches { s with entry := p.entry } d I := { h with }
  refine Agree.left rfl (Agree.left rfl ?_)
  refine Agree.bind (h'.agree_root h₀ hq₁ rfl rfl) ?_
  rintro x s₁ i₁ d₁ ⟨J, hJ, rfl, rfl, rfl⟩
  refine Agree.left rfl ?_
  let q₂ : Request := ⟨.objectType p.entry p.type g.setting.memory, g.setting.guardsOut,
    g.setting.expirationOf p⟩
  have hq₂ : q₂.Follows g.setting.memory (I.snoc q₁ x).steps :=
    { input := fun i hi => absurd hi List.not_mem_nil
      parent := by
        rintro key ⟨⟩
        exact ⟨q₁, List.mem_append_right _ (List.mem_singleton_self _), rfl⟩
      memory := by
        rintro entry type m ⟨⟩
        rfl
      cross := fun j hj => by cases hj }
  have hroot := hJ.agree_root h₀ hq₂ rfl rfl
  rw [h.expirationOf, hJ.objectTypeMemory]
  refine Agree.bind hroot ?_
  rintro y s₂ i₂ d₂ ⟨K, hK, hR⟩
  have hsup := hJ.supplied h₀ .facts hR rfl
  have hK' : g.Matches { s₂ with objectRoot? := some y, fieldTests := p.fieldTests } d₂ K :=
    { hK with }
  refine Agree.left rfl ?_
  refine Agree.last (hK'.agree_alphas h₀ hsup.2.2) ?_
  rintro z s₃ i₃ d₃ ⟨L, hL, hR'⟩
  refine ⟨z, { s₃ with objectSource? := some z }, rfl, L, { hL with }, ?_⟩
  exact (hsup.trans hR').imp (Installation.below_snoc I q₁ x).trans id

omit h₀ in
/-- Reporting a cross product changes nothing that matters for the network. -/
theorem reported (p : Pattern) :
    g.Matches (if s.scope.isCrossProduct p s.guardsOut then s.reportCrossProduct else s) d I := by
  split
  · unfold Session.reportCrossProduct
    split
    · exact { h with }
    · exact h
  · exact h

theorem agree_joinPattern (p : Pattern) (tests : List JoinTest) {object : NodeId}
    (hg : g.tupleMemory = true) (hobject : I.Got .facts object i) :
    Agree g.Fails (g.Post (Supplied .tuples d I)) (Session.joinPattern p object tests s)
      ((match d.tuple? with
        | none => Draw.request g.setting (.leftInput i) none
        | some left => Draw.join g.setting .join left i tests true (g.setting.expirationOf p)) d) := by
  refine Agree.left rfl ?_
  have htuple := h.tuple
  generalize hs : s.tupleSource? = x?, hd : d.tuple? = i? at htuple
  cases htuple with
  | none => exact h.agree_leftInput h₀ hobject
  | some hleft =>
    refine Agree.left rfl (Agree.left rfl ?_)
    have hrep := h.reported p
    rw [hrep.expirationOf]
    have hjoin := hrep.agree_join h₀ .join tests (g.setting.expirationOf p) hleft hobject.objects
    rwa [hg] at hjoin

omit h₀ in
/-- The fact of a pattern has become part of the tuple. -/
theorem extend {p : Pattern} (hgot : I.Got .tuples x i) :
    g.Matches ({ s with tupleSource? := some x }.bindPattern p) (d.extend i p) I :=
  { h with
    scope := congrArg (· ++ [p]) h.scope
    offset := by
      rw [Draft.extend, List.length_append, ← h.offset]
      rfl
    tuple := .some hgot }

omit h₀ in
theorem record (p : Pattern) : g.Matches (s.recordPattern p) (d.record p) I :=
  { h with recent := congrArg (·.record p) h.recent }

theorem agree_pattern (p : Pattern) (hg : g.tupleMemory = true) :
    Agree g.Fails (g.Post (Tupled d I)) (Session.attachPattern p s) (Draw.pattern g.setting p d) := by
  refine agree_inside (fun t h => ?_) h
  refine Agree.left rfl (Agree.right rfl ?_)
  rw [h.scope]
  refine Agree.check _ h.fails fun tests _ => ?_
  refine Agree.bind (h.agree_objectSide h₀ p) ?_
  rintro object s₁ i d₁ ⟨J, hJ, hR⟩
  have hJ' := hJ.record p
  refine Agree.left rfl (Agree.right rfl (Agree.right rfl ?_))
  have hjoin := hJ'.agree_joinPattern h₀ p tests hg hR.2.2
  have hend : ∀ {tuple : NodeId} {s₂ : Session} {k : Nat} {d₂ : Draft},
      ((g.enterElement (.pattern p)).enter p.origin).Post (Supplied .tuples (d₁.record p) J)
        tuple s₂ k d₂ →
      Agree g.Fails (((g.enterElement (.pattern p)).enter p.origin).Post (Tupled d I))
        (.ok () ({ s₂ with tupleSource? := some tuple }.bindPattern p)) (.ok k (d₂.extend k p)) := by
    rintro tuple s₂ k d₂ ⟨K, hK, hR'⟩
    refine .ok ⟨K, hK.extend hR'.2.2, ⟨hR.1.trans hR'.1, ?_⟩, rfl⟩
    exact (hR.advanced.2.trans hR'.advanced.2).trans (List.prefix_append _ _)
  beta_reduce
  generalize (d₁.record p).tuple? = t? at hjoin ⊢
  cases t? with
  | none => exact Agree.bind hjoin hend
  | some left => exact Agree.bind hjoin hend

omit h₀ in
/-- There is a node to take tuples from if there is a step to take them from. -/
theorem requireTuple_eq (breach : Breach) (hd : d.tuple? = some i) :
    ∃ x, Session.requireTuple breach s = .ok x s ∧ I.Got .tuples x i := by
  have htuple := h.tuple
  rw [hd] at htuple
  generalize hs : s.tupleSource? = x? at htuple
  cases htuple with
  | some hgot =>
    refine ⟨_, ?_, hgot⟩
    rw [Session.requireTuple, Session.get_bind, hs]
    rfl

omit h₀ in
theorem requireTuple_eq_error (breach : Breach) (hd : d.tuple? = none) :
    Session.requireTuple breach s = .error (.breach breach) s := by
  have htuple := h.tuple
  rw [hd] at htuple
  generalize hs : s.tupleSource? = x? at htuple
  cases htuple with
  | none =>
    rw [Session.requireTuple, Session.get_bind, hs]
    rfl

theorem agree_tuple (hg : g.tupleMemory = true) :
    Agree g.Fails (g.Post (Tupled d I)) (Session.ensureTuple s) (Draw.tuple g.setting d) := by
  have htuple := h.tuple
  generalize hs : s.tupleSource? = x?, hd : d.tuple? = i? at htuple
  cases htuple with
  | none =>
    have hensure : Session.ensureTuple s = Session.attachPattern .initialFact s := by
      rw [Session.ensureTuple, Session.get_bind, hs]
      change Session.attachInitialFact s = _
      rw [Session.attachInitialFact, Session.get_bind, hs]
      rfl
    have hdraw : Draw.tuple g.setting d = Draw.pattern g.setting .initialFact d := by
      rw [Draw.tuple, Session.get_bind, hd]
    rw [hensure, hdraw]
    exact h.agree_pattern h₀ .initialFact hg
  | @some x i hgot =>
    have hensure : Session.ensureTuple s = .ok () s := by
      rw [Session.ensureTuple, Session.get_bind, hs]
      rfl
    have hdraw : Draw.tuple g.setting d = .ok i d := by
      rw [Draw.tuple, Session.get_bind, hd]
      rfl
    rw [hensure, hdraw]
    exact .ok ⟨I, h, ⟨.refl I, List.prefix_rfl⟩, hd⟩

/-! ## Negations and existence claims -/

theorem agree_single (p : Pattern) :
    Agree g.Fails (g.Post (Fed d I)) (Session.attachSingle p s) (Draw.single g.setting p d) := by
  refine agree_inside (fun t h => ?_) h
  refine Agree.left rfl (Agree.right rfl ?_)
  rw [h.scope]
  refine Agree.check _ h.fails fun tests _ => ?_
  refine Agree.bind (h.agree_objectSide h₀ p) ?_
  rintro object s₁ i d₁ ⟨J, hJ, hR⟩
  have hJ' := hJ.record p
  refine Agree.left rfl (Agree.right rfl (Agree.left rfl ?_))
  exact .ok ⟨J, hJ', hR.advanced, hR.2.2.objects, rfl, hJ'.expirationOf p⟩

omit h₀ in
/-- The patterns of a subnetwork go out of scope. -/
theorem cut {n : Nat} (hn : n ≤ d.scope.length) (hgot : I.Got .tuples x i) :
    g.Matches { s.setOffset n with tupleSource? := some x }
      { d with tuple? := some i, scope := d.scope.take n } I :=
  { h with
    scope := congrArg (List.take n) h.scope
    offset := by
      rw [List.length_take, min_eq_left hn]
      rfl
    tuple := .some hgot }

theorem agree_subnetwork {members : Compile Unit} {drawMembers : Draw Unit}
    (hleft : I.Got .tuples left l)
    (hmembers : Agree g.Fails (g.Post (Advanced d I)) (members s) (drawMembers d)) :
    Agree g.Fails (g.Post (Fed d I)) (Session.attachSubnetwork left members s)
      (Draw.subnetwork g.setting l drawMembers d) := by
  refine Agree.left rfl (Agree.right rfl ?_)
  refine Agree.bind hmembers ?_
  rintro _ s₁ _ d₁ ⟨J, hJ, hR⟩
  refine Agree.right rfl ?_
  cases hd : d₁.tuple? with
  | none =>
    have hreq := hJ.requireTuple_eq_error .subnetworkWithoutOutput hd
    rw [Session.bind_error hreq]
    exact .error hJ.fails
  | some i =>
    obtain ⟨x, hreq, hgot⟩ := hJ.requireTuple_eq .subnetworkWithoutOutput hd
    refine Agree.left hreq ?_
    refine Agree.bind (hJ.agree_rightInput h₀ hgot) ?_
    rintro y s₂ j d₂ ⟨K, hK, hR'⟩
    have hscope : d.scope <+: d₂.scope := hR.2.trans hR'.advanced.2
    refine Agree.left rfl (Agree.right rfl ?_)
    refine .ok ⟨K, ?_, ⟨hR.1.trans hR'.1, ?_⟩, hR'.2.2, rfl, rfl⟩
    · rw [h.offset]
      exact hK.cut hscope.length_le (hleft.mono (hR.1.trans hR'.1))
    · exact List.prefix_take_iff.2 ⟨hscope, le_rfl⟩

omit h₀ in
/-- Tuples are taken from another node. -/
theorem redirect (hgot : I.Got .tuples x i) :
    g.Matches { s with tupleSource? := some x } { d with tuple? := some i } I :=
  { h with tuple := .some hgot }

/-- The right side of a join is joined to the tuple, once it is there. -/
theorem agree_close (kind : JoinKind) {d₀ d₁ : Draft} {J₀ J : Installation} {a : α} {b : β}
    {r : Session.RightInput} {t : Nat × List JoinTest × Option Expiration} (first : Bool)
    (hg : g.tupleMemory = true) (hbefore : Advanced d₀ J₀ a b d₁ J) (hleft : J.Got .tuples left l)
    (hfed : Fed d₁ J r t d I) :
    Agree g.Fails (g.Post (Advanced d₀ J₀))
      ((do
        let memory := (← get).tupleMemory
        let node ← Session.withTupleMemory (memory && !first)
          (Session.attachJoin kind left r.source r.tests r.expiration?)
        modify ({ · with tupleSource? := some node }) : Compile Unit) s)
      ((do
        let node ← Draw.join g.setting kind l t.1 t.2.1 (!first) t.2.2
        modify ({ · with tuple? := some node }) : Draw Unit) d) := by
  obtain ⟨hR, hsource, htests, he⟩ := hfed
  have hmemory : (s.tupleMemory && !first) = !first := by
    rw [h.tupleMemory, hg, Bool.true_and]
  have hjoin : Agree g.Fails (g.Post (Supplied .tuples d I))
      (Session.withTupleMemory (!first) (Session.attachJoin kind left r.source t.2.1 t.2.2) s)
      (Draw.join g.setting kind l t.1 t.2.1 (!first) t.2.2 d) :=
    agree_withTupleMemory (fun u hu => hu.agree_join h₀ _ _ _ (hleft.mono hR.1) hsource) h
  rw [Session.get_bind]
  rw [hmemory, htests, he]
  refine Agree.bind hjoin ?_
  rintro x s₁ i d₁ ⟨K, hK, hR'⟩
  exact .ok ⟨K, hK.redirect hR'.2.2, (hbefore.trans hR).trans hR'.advanced⟩

theorem agree_quantified {q : Session.Quantifier} {members : List Element}
    {attachMembers : Compile Unit} {drawMembers : Draw Unit} (hg : g.tupleMemory = true)
    (hmembers : ∀ {elements trail s' d' J}, (g.within elements trail).Matches s' d' J →
      Agree g.Fails ((g.within elements trail).Post (Advanced d' J)) (attachMembers s') (drawMembers d')) :
    Agree g.Fails (g.Post (Advanced d I)) (Session.attachQuantified q members attachMembers s)
      (Draw.quantified g.setting q members drawMembers d) := by
  unfold Session.attachQuantified Draw.quantified
  by_cases hempty : members.isEmpty
  · simp only [hempty, if_true]
    exact .error h.fails
  · simp only [hempty]
    refine agree_inside (fun t h => ?_) h
    refine Agree.bind (h.agree_tuple h₀ hg) ?_
    rintro _ s₁ l d₁ ⟨J, hJ, hR, hl⟩
    obtain ⟨left, hreq, hleft⟩ := hJ.requireTuple_eq .negationWithoutInput hl
    refine Agree.left hreq (Agree.left rfl (Agree.right rfl ?_))
    rw [hJ.recent]
    cases Element.single? members with
    | some p =>
      dsimp only
      refine Agree.bind (hJ.agree_single h₀ p) ?_
      rintro r s₂ t d₂ ⟨K, hK, hfed⟩
      have hclose := hK.agree_close h₀ q.joinKind (d₁.recent.latest?.any (·.isInitialFact)) hg hR
        hleft hfed
      exact hclose
    | none =>
      dsimp only
      refine Agree.bind (hJ.agree_subnetwork h₀ hleft (hmembers hJ)) ?_
      rintro r s₂ t d₂ ⟨K, hK, hfed⟩
      have hclose := hK.agree_close h₀ q.joinKind (d₁.recent.latest?.any (·.isInitialFact)) hg hR
        hleft hfed
      exact hclose

/-! ## Universal statements and query calls -/

theorem agree_pattern_unit (p : Pattern) (hg : g.tupleMemory = true) :
    Agree g.Fails (g.Post (Advanced d I)) (Session.attachPattern p s)
      ((do let _ ← Draw.pattern g.setting p : Draw Unit) d) :=
  (h.agree_pattern h₀ p hg).drop.mono fun ⟨_, J, hJ, hR⟩ => ⟨J, hJ, hR.1⟩

theorem agree_patterns (ps : List Pattern) (hg : g.tupleMemory = true) :
    Agree g.Fails (g.Post (Advanced d I)) (ps.forM Session.attachPattern s)
      (ps.forM (fun p => do let _ ← Draw.pattern g.setting p : Pattern → Draw Unit) d) := by
  induction ps generalizing s d I with
  | nil => exact .ok ⟨I, h, .refl I, List.prefix_rfl⟩
  | cons p ps ih =>
    refine Agree.bind (h.agree_pattern_unit h₀ p hg) ?_
    rintro _ s₁ _ d₁ ⟨J, hJ, hR⟩
    refine (ih hJ).mono ?_
    rintro _ _ _ _ ⟨K, hK, hR'⟩
    exact ⟨K, hK, hR.trans hR'⟩

theorem agree_universal (base : Pattern) (rest : List Pattern) (hg : g.tupleMemory = true) :
    Agree g.Fails (g.Post (Advanced d I)) (Session.attachUniversal base rest s)
      (Draw.universal g.setting base rest d) := by
  refine agree_inside (fun t h => ?_) h
  refine agree_withGuardsOut (fun u hu => ?_) h
  refine hu.agree_quantified h₀ hg fun hv => ?_
  refine Agree.bind (hv.agree_pattern h₀ _ hg) ?_
  rintro _ s₁ _ d₁ ⟨J, hJ, hR⟩
  refine (hJ.agree_quantified h₀ hg ?_).mono ?_
  · exact fun hw => hw.agree_patterns h₀ (Universal.of base rest).rest hg
  rintro _ _ _ _ ⟨K, hK, hR'⟩
  exact ⟨K, hK, hR.1.trans hR'⟩

theorem agree_call (q : QueryCall) (hg : g.tupleMemory = true) :
    Agree g.Fails (g.Post (Advanced d I)) (Session.attachCall q s) (Draw.call g.setting q d) := by
  refine agree_inside (fun t h => ?_) h
  refine Agree.bind (h.agree_tuple h₀ hg) ?_
  rintro _ s₁ l d₁ ⟨J, hJ, hR, hl⟩
  obtain ⟨left, hreq, hleft⟩ := hJ.requireTuple_eq .callWithoutInput hl
  refine Agree.left hreq (Agree.left rfl (Agree.right rfl ?_))
  rw [hJ.scope]
  refine Agree.check _ hJ.fails fun arguments _ => ?_
  refine Agree.bind (hJ.agree_queryElement h₀ hleft) ?_
  rintro x s₂ i d₂ ⟨K, hK, hR'⟩
  refine .ok ⟨K, (hK.record q.result).extend hR'.2.2, (hR.trans hR'.advanced).1, ?_⟩
  exact (hR.trans hR'.advanced).2.trans (List.prefix_append _ _)

end Matches

/-! ## Elements -/

mutual

theorem agree_element {g : Stage} {s : Session} {d : Draft} {I : Installation}
    (h : g.Matches s d I) (h₀ : g.site.Standing g.rule .empty) (hg : g.tupleMemory = true) :
    (e : Element) → Agree g.Fails (g.Post (Advanced d I)) (Session.attachElement e s)
      (Draw.element g.setting e d)
  | .pattern p => by
    rw [Session.attachElement, Draw.element]
    exact h.agree_pattern_unit h₀ p hg
  | .group .and members => by
    rw [Session.attachElement, Draw.element]
    exact agree_insideElement (agree_elements (h.enterElement _) h₀ hg members)
  | .group .or members => by
    rw [Session.attachElement, Draw.element]
    exact .error h.fails
  | .group .not members => by
    rw [Session.attachElement, Draw.element]
    exact h.agree_quantified h₀ hg fun h' => agree_elements h' h₀ hg members
  | .group .exists members => by
    rw [Session.attachElement, Draw.element]
    exact h.agree_quantified h₀ hg fun h' => agree_elements h' h₀ hg members
  | .every base rest => by
    rw [Session.attachElement, Draw.element]
    exact h.agree_universal h₀ base rest hg
  | .call q => by
    rw [Session.attachElement, Draw.element]
    exact h.agree_call h₀ q hg

theorem agree_elements {g : Stage} {s : Session} {d : Draft} {I : Installation}
    (h : g.Matches s d I) (h₀ : g.site.Standing g.rule .empty) (hg : g.tupleMemory = true) :
    (es : List Element) → Agree g.Fails (g.Post (Advanced d I)) (Session.attachElements es s)
      (Draw.elements g.setting es d)
  | [] => by
    rw [Session.attachElements, Draw.elements]
    exact .ok ⟨I, h, .refl I, List.prefix_rfl⟩
  | e :: es => by
    rw [Session.attachElements, Draw.elements]
    refine Agree.bind (agree_element h h₀ hg e) ?_
    rintro _ s₁ _ d₁ ⟨J, hJ, hR⟩
    refine (agree_elements hJ h₀ hg es).mono ?_
    rintro _ _ _ _ ⟨K, hK, hR'⟩
    exact ⟨K, hK, hR.trans hR'⟩

end

end Stage

end RuleNet
