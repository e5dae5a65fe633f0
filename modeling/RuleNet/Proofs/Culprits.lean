/-
  RuleNet — failures point at what caused them.

  A session meets the references of a branch one after the other.  It goes on
  from those that are in scope, having left every element that it had entered,
  and stops at the first one that is not, still inside the elements down to it
  (`Session.Traces`).  So the place that a failure tells is the place of that
  reference (`RuleBase.add_error_place`).
-/
import RuleNet.Proofs.Citations
import RuleNet.Proofs.Contract
import RuleNet.Proofs.Joinings

namespace RuleNet

/-! ## Meeting references -/

/-- Whether a fault says nothing about references. -/
def Fault.Unrelated : Fault → Prop
  | .unboundDeclaration .. => False
  | _ => True

namespace Session

variable {α β : Type} {s t : Session} {cs cs' : List Citation}

/-- A session goes on inside the same elements, for the same rule and under the
    same configuration. -/
structure Stays (s t : Session) : Prop where
  elements : t.elements = s.elements
  rule : t.rule? = s.rule?
  config : t.base.config = s.base.config

theorem Stays.refl (s : Session) : s.Stays s := ⟨rfl, rfl, rfl⟩

theorem Stays.trans {u : Session} (h : s.Stays t) (h' : t.Stays u) : s.Stays u :=
  ⟨h'.elements.trans h.elements, h'.rule.trans h.rule, h'.config.trans h.config⟩

/-- A session has stopped at the first reference that is out of scope, inside
    the elements down to it. -/
structure StopsAt (s t : Session) (cs : List Citation) (c : Citation) : Prop where
  first : Citation.FirstStray cs c
  elements : t.elements = c.path.reverse ++ s.elements
  rule : t.rule? = s.rule?

/-- How a step ends that meets some references: if it ends well, all of them are
    in scope; if it finds a reference out of scope, it has stopped at the first
    one. -/
def Traces (s : Session) (cs : List Citation) : EStateM.Result Fault Session α → Prop
  | .ok _ t => (∀ c ∈ cs, c.Bound) ∧ s.Stays t
  | .error f t => ∀ o rd, f = .unboundDeclaration o rd → ∃ c, s.StopsAt t cs c ∧ f = c.fault

theorem traces_error {f : Fault} (hf : f.Unrelated) :
    s.Traces cs (.error f t : EStateM.Result Fault Session α) := by
  rintro o rd rfl
  exact hf.elim

theorem traces_throw {f : Fault} (hf : f.Unrelated) : s.Traces cs ((throw f : Compile α) s) :=
  traces_error hf

theorem traces_ok (a : α) (h : s.Stays t) :
    s.Traces [] (.ok a t : EStateM.Result Fault Session α) :=
  ⟨fun _ hc => by (cases hc), h⟩

/-- A step may begin with a change that is of no account. -/
theorem Traces.reached {r : EStateM.Result Fault Session α} (h : t.Traces cs r) (hs : s.Stays t) :
    s.Traces cs r := by
  cases r with
  | ok a u => exact ⟨h.1, hs.trans h.2⟩
  | error f u =>
    intro o rd hf
    obtain ⟨c, hc, hfault⟩ := h o rd hf
    exact ⟨c, ⟨hc.first, hs.elements ▸ hc.elements, hc.rule.trans hs.rule⟩, hfault⟩

/-- Two steps meet the references of the first one and then those of the
    second. -/
theorem Traces.bind {u : Session} {step : Compile α} {k : α → Compile β}
    (h : s.Traces cs (step u)) (hk : ∀ a t, step u = .ok a t → t.Traces cs' (k a t)) :
    s.Traces (cs ++ cs') ((step >>= k) u) := by
  cases hstep : step u with
  | error f t =>
    rw [hstep] at h
    rw [bind_error hstep]
    intro o rd hf
    obtain ⟨c, hc, hfault⟩ := h o rd hf
    exact ⟨c, ⟨hc.first.append cs', hc.elements, hc.rule⟩, hfault⟩
  | ok a t =>
    rw [hstep] at h
    obtain ⟨hbound, hstays⟩ := h
    rw [bind_ok hstep]
    have hrest := (hk a t hstep).reached hstays
    cases hr : k a t with
    | ok b u =>
      rw [hr] at hrest
      exact ⟨List.forall_mem_append.2 ⟨hbound, hrest.1⟩, hrest.2⟩
    | error f u =>
      rw [hr] at hrest
      intro o rd hf
      obtain ⟨c, hc, hfault⟩ := hrest o rd hf
      exact ⟨c, ⟨hc.first.after hbound, hc.elements, hc.rule⟩, hfault⟩

/-- No references are met in the second step. -/
theorem Traces.last {u : Session} {step : Compile α} {k : α → Compile β}
    (h : s.Traces cs (step u)) (hk : ∀ a t, step u = .ok a t → t.Traces [] (k a t)) :
    s.Traces cs ((step >>= k) u) :=
  List.append_nil cs ▸ h.bind hk

/-- No references are met in the first step. -/
theorem Traces.first {u : Session} {step : Compile α} {k : α → Compile β}
    (h : s.Traces [] (step u)) (hk : ∀ a t, step u = .ok a t → t.Traces cs (k a t)) :
    s.Traces cs ((step >>= k) u) :=
  h.bind hk

/-- Resolving meets references on the spot. -/
theorem traces_orFail {x : Except Fault α} (h : Except.Meets cs x) :
    s.Traces cs (orFail x s) := by
  cases x with
  | ok a => exact ⟨h, .refl s⟩
  | error f =>
    intro o rd _
    obtain ⟨c, hc, hfault, hpath⟩ := h
    exact ⟨c, ⟨hc, by rw [hpath]; rfl, rfl⟩, hfault⟩

/-! ### Frames and flags -/

/-- What is met inside a construct is met. -/
theorem Traces.insideOrigin {o : Origin} {step : Compile α}
    (h : (s.pushOrigin o).Traces cs (step (s.pushOrigin o))) :
    s.Traces cs (insideOrigin o step s) := by
  replace h : s.Traces cs (step (s.pushOrigin o)) := h.reached ⟨rfl, rfl, rfl⟩
  rw [Session.insideOrigin, modify_bind]
  refine h.last fun a t _ => ?_
  cases hpop : popOrigin t with
  | error f =>
    rw [bind_error (take_error hpop)]
    refine traces_error ?_
    cases htrail : t.trail with
    | nil =>
      rw [popOrigin, htrail] at hpop
      cases hpop
      trivial
    | cons o below =>
      rw [popOrigin, htrail] at hpop
      cases hpop
  | ok top =>
    obtain ⟨⟨o, below⟩, -, htop⟩ := Except.bind_inv hpop
    cases htop
    rw [bind_ok (take_ok hpop)]
    exact traces_ok _ ⟨rfl, rfl, rfl⟩

/-- What is met inside an element is met below it. -/
theorem Traces.insideElement {e : Element} {step : Compile α}
    (h : (s.pushElement e).Traces cs (step (s.pushElement e))) :
    s.Traces (cs.map (·.below e)) (insideElement e step s) := by
  cases hstep : step (s.pushElement e) with
  | error f t =>
    rw [hstep] at h
    rw [insideElement_error hstep]
    intro o rd hf
    obtain ⟨c, hc, hfault⟩ := h o rd hf
    refine ⟨c.below e, ⟨hc.first.below e, ?_, hc.rule⟩, hfault⟩
    rw [hc.elements, Citation.below, List.reverse_cons, List.append_assoc]
    rfl
  | ok a t =>
    rw [hstep] at h
    obtain ⟨hbound, hstays⟩ := h
    rw [insideElement_ok hstep hstays.elements]
    exact ⟨List.forall_mem_map.2 hbound, rfl, hstays.rule, hstays.config⟩

theorem Traces.inside {e : Element} {o : Origin} {step : Compile α}
    (h : ((s.pushElement e).pushOrigin o).Traces cs (step ((s.pushElement e).pushOrigin o))) :
    s.Traces (cs.map (·.below e)) (inside e o step s) :=
  Traces.insideElement (Traces.insideOrigin h)

/-- A flag may be put back at the end of a step, whether or not it fails. -/
theorem Traces.restored {r : EStateM.Result Fault Session α} {restore : Session → Session}
    (h : s.Traces cs r) (hstays : ∀ t : Session, t.Stays (restore t)) :
    s.Traces cs (match r with
      | .ok a t => .ok a (restore t)
      | .error fault t => .error fault (restore t)) := by
  cases r with
  | ok a t => exact ⟨h.1, h.2.trans (hstays t)⟩
  | error f t =>
    intro o rd hf
    obtain ⟨c, hc, hfault⟩ := h o rd hf
    exact ⟨c, ⟨hc.first, (hstays t).elements.trans hc.elements, (hstays t).rule.trans hc.rule⟩,
      hfault⟩

theorem Traces.withTupleMemory {on : Bool} {step : Compile α}
    (h : Traces { s with tupleMemory := on } cs (step { s with tupleMemory := on })) :
    s.Traces cs (withTupleMemory on step s) :=
  have h : s.Traces cs (step { s with tupleMemory := on }) := h.reached ⟨rfl, rfl, rfl⟩
  h.restored fun _ => ⟨rfl, rfl, rfl⟩

theorem Traces.withGuardsOut {on : Bool} {step : Compile α}
    (h : (s.weigh on).Traces cs (step (s.weigh on))) : s.Traces cs (withGuardsOut on step s) :=
  have h : s.Traces cs (step (s.weigh on)) := h.reached ⟨rfl, rfl, rfl⟩
  h.restored fun _ => ⟨rfl, rfl, rfl⟩

/-! ### Steps that refer to nothing -/

/-- A step that meets no references. -/
def Blameless (step : Compile α) : Prop := ∀ s : Session, s.Traces [] (step s)

namespace Blameless

theorem pure (a : α) : Blameless (pure a) := fun s => traces_ok a (.refl s)

theorem throw {f : Fault} (hf : f.Unrelated) : Blameless (throw f : Compile α) :=
  fun _ => traces_throw hf

theorem bind {step : Compile α} {k : α → Compile β} (h : Blameless step)
    (hk : ∀ a, Blameless (k a)) : Blameless (step >>= k) := fun s =>
  (h s).last fun a t _ => hk a t

theorem modify {u : Session → Session} (h : ∀ s : Session, s.Stays (u s)) :
    Blameless (modify u : Compile PUnit) := fun s => traces_ok _ (h s)

/-- A step that depends on what it reads of the session. -/
theorem reads {k : Session → Compile α} (h : ∀ s, Blameless (k s)) : Blameless (get >>= k) :=
  fun s => h s s

theorem foldlM {f : β → α → Compile β} (h : ∀ b a, Blameless (f b a)) (l : List α) (b : β) :
    Blameless (l.foldlM f b) := by
  induction l generalizing b with
  | nil => exact .pure _
  | cons a l ih => exact (h b a).bind ih

theorem change {f : Session → Except Fault Session}
    (h : ∀ s : Session, Except.Ends Fault.Unrelated s.Stays (f s)) : Blameless (change f) := by
  intro s
  have hs := h s
  cases hf : f s with
  | error fault =>
    rw [hf] at hs
    rw [Session.change, get_bind, hf]
    exact traces_error hs
  | ok t =>
    rw [hf] at hs
    rw [change_ok hf]
    exact traces_ok _ hs

theorem orFail {x : Except Fault α} (h : Except.Ends Fault.Unrelated (fun _ => True) x) :
    Blameless (orFail x) := by
  cases x with
  | ok a => exact .pure a
  | error f => exact .throw h

end Blameless

theorem unrelated_require (net : Network) (id : NodeId) :
    Except.Ends Fault.Unrelated (fun _ => True) (net.require id) := by
  unfold Network.require
  split
  · trivial
  · trivial

theorem unrelated_insert (net : Network) (n : Node) :
    Except.Ends Fault.Unrelated (fun _ => True) (net.insert n) := by
  unfold Network.insert
  split
  · trivial
  · split
    · trivial
    · trivial

theorem unrelated_release (ids : IdPool) (id : NodeId) :
    Except.Ends Fault.Unrelated (fun _ => True) (ids.release id) := by
  unfold IdPool.release
  split
  · split
    · trivial
    · trivial
  · trivial

theorem blameless_releaseId (id : NodeId) : Blameless (releaseId id) := by
  refine .change fun s => ?_
  have hbase : Except.Ends Fault.Unrelated (·.config = s.base.config) (s.base.releaseId id) :=
    (unrelated_release s.base.ids id).bind fun _ _ => rfl
  exact hbase.bind fun _ h => ⟨rfl, rfl, h⟩

theorem blameless_issueId : Blameless issueId := fun _ => traces_ok _ ⟨rfl, rfl, rfl⟩

theorem blameless_requireRule : Blameless requireRule := by
  refine .reads fun s => ?_
  cases s.ruleId? with
  | none => exact .throw trivial
  | some rule => exact .pure rule

theorem blameless_claim (id : NodeId) (expiration? : Option Expiration) :
    Blameless (claim id expiration?) := by
  refine blameless_requireRule.bind fun rule => .change fun s => ?_
  have hnetwork (f : Node → Node) :
      Except.Ends Fault.Unrelated (fun _ => True) (s.base.network.update id f) :=
    (unrelated_require s.base.network id).bind fun _ _ => trivial
  exact (hnetwork _).bind fun _ _ => ⟨rfl, rfl, rfl⟩

theorem blameless_createNode (kind : NodeKind) (expiration? : Option Expiration) :
    Blameless (createNode kind expiration?) := by
  refine blameless_requireRule.bind fun _ => blameless_issueId.bind fun id s => ?_
  rw [get_bind]
  have hinsert := unrelated_insert s.base.network { id, kind, origin? := s.origin? }
  cases hn : s.base.network.insert { id, kind, origin? := s.origin? } with
  | error fault =>
    rw [hn] at hinsert
    exact (blameless_releaseId id).bind (fun _ => .throw hinsert) s
  | ok network =>
    have hclaim := (blameless_claim id expiration?).bind fun _ => .pure id
    exact (hclaim _).reached ⟨rfl, rfl, rfl⟩

theorem blameless_shareNode (id : NodeId) (expiration? : Option Expiration) :
    Blameless (shareNode id expiration?) := by
  refine blameless_requireRule.bind fun rule s => ?_
  rw [get_bind]
  have hclaim := (blameless_claim id expiration?).bind fun _ => .pure id
  have hrequire := unrelated_require s.base.network id
  cases hn : s.base.network.require id with
  | error fault =>
    rw [hn] at hrequire
    exact traces_throw hrequire
  | ok n =>
    simp only [orFail, pure_bind]
    split
    · exact hclaim s
    · exact (hclaim (s.attach ⟨id, false, n.partition?, n.retention.total⟩)).reached
        ⟨rfl, rfl, rfl⟩

theorem blameless_attachRoot (key : RootKey) (kind : NodeKind) (expiration? : Option Expiration) :
    Blameless (attachRoot key kind expiration?) := by
  refine .reads fun s => ?_
  cases s.base.network.roots[key]? with
  | none => exact blameless_createNode _ _
  | some id => exact blameless_shareNode id _

theorem blameless_attachNode (sharing : Bool) (wanted : NodeKind)
    (expiration? : Option Expiration) : Blameless (attachNode sharing wanted expiration?) := by
  refine .reads fun s => ?_
  cases if sharing then s.base.network.findServing s.guardsOut wanted else none with
  | none => exact blameless_createNode _ _
  | some id => exact blameless_shareNode id _

theorem blameless_attachBeta (wanted : NodeKind) (expiration? : Option Expiration) :
    Blameless (attachBeta wanted expiration?) :=
  .reads fun _ => blameless_attachNode _ _ _

theorem blameless_attachJoin (kind : JoinKind) (left right : NodeId) (tests : List JoinTest)
    (expiration? : Option Expiration) : Blameless (attachJoin kind left right tests expiration?) :=
  .bind (.modify fun _ => ⟨rfl, rfl, rfl⟩) fun _ => .reads fun _ => blameless_attachBeta _ _

theorem blameless_attachObjectSide (p : Pattern) : Blameless (attachObjectSide p) := by
  refine .reads fun s => ?_
  refine .bind (.modify fun _ => ⟨rfl, rfl, rfl⟩) fun _ => ?_
  refine (blameless_attachRoot _ _ _).bind fun _ => .reads fun _ => ?_
  refine (blameless_attachRoot _ _ _).bind fun root => ?_
  refine .bind (.modify fun _ => ⟨rfl, rfl, rfl⟩) fun _ => ?_
  have halpha (source : NodeId) (t : FieldTest) : Blameless (insideOrigin (.fieldTest t)
      (attachAlpha source t (s.expirationOf p))) := fun _ =>
    Traces.insideOrigin ((Blameless.reads fun _ => blameless_attachNode _ _ _) _)
  refine (Blameless.foldlM halpha _ root).bind fun last => ?_
  exact .bind (.modify fun _ => ⟨rfl, rfl, rfl⟩) fun _ => .pure last

theorem blameless_requireTuple (breach : Breach) : Blameless (requireTuple breach) := by
  refine .reads fun s => ?_
  cases s.tupleSource? with
  | none => exact .throw trivial
  | some source => exact .pure source

theorem blameless_joinPattern (p : Pattern) (object : NodeId) (tests : List JoinTest) :
    Blameless (joinPattern p object tests) := by
  refine .reads fun s => ?_
  cases s.tupleSource? with
  | none => exact blameless_attachBeta _ _
  | some left =>
    refine .bind (.modify fun t => ?_) fun _ => .reads fun _ => blameless_attachJoin _ _ _ _ _
    split
    · obtain ⟨reports, hreports⟩ := t.reportCrossProduct_rest
      rw [hreports]
      exact ⟨rfl, rfl, rfl⟩
    · exact .refl t

theorem blameless_attachTerminal : Blameless attachTerminal :=
  (blameless_requireTuple _).bind fun _ => blameless_requireRule.bind fun _ =>
    .reads fun _ => blameless_createNode _ _

/-! ### Patterns and calls -/

/-- Where a step that ends well leads. -/
theorem Logs.of_ok {js : List Joining} {P : α → Footing → Prop} {r : EStateM.Result Fault Session α}
    {a : α} (h : s.Logs js P r) (hr : r = .ok a t) : P a t.footing := by
  rw [hr] at h
  exact h.2.2

theorem traces_attachPattern (s : Session) (p : Pattern) :
    s.Traces ((p.citations s.scope).map (·.below (.pattern p))) (attachPattern p s) := by
  refine Traces.inside ?_
  rw [get_bind]
  refine Traces.last (traces_orFail (s.scope.meets_resolve p)) fun tests t _ => ?_
  refine (blameless_attachObjectSide p).bind (fun object => ?_) t
  refine .bind (.modify fun _ => ⟨rfl, rfl, rfl⟩) fun _ => ?_
  refine (blameless_joinPattern p object tests).bind fun tuple => ?_
  exact .modify fun _ => ⟨rfl, rfl, rfl⟩

/-- The initial fact refers to nothing. -/
theorem blameless_ensureTuple : Blameless ensureTuple := by
  have hfirst : Blameless (attachPattern .initialFact) := fun s =>
    traces_attachPattern s .initialFact
  refine .reads fun s => ?_
  split
  · refine .reads fun t => ?_
    split
    · exact .bind (.throw trivial) fun _ => hfirst
    · exact hfirst
  · exact .pure ()

theorem traces_attachSingle (s : Session) (p : Pattern) :
    s.Traces ((p.citations s.scope).map (·.below (.pattern p))) (attachSingle p s) := by
  refine Traces.inside ?_
  rw [get_bind]
  refine Traces.last (traces_orFail (s.scope.meets_resolve p)) fun tests t _ => ?_
  refine (blameless_attachObjectSide p).bind (fun source => ?_) t
  refine .bind (.modify fun _ => ⟨rfl, rfl, rfl⟩) fun _ => ?_
  exact .reads fun _ => .pure _

theorem traces_attachCall (hs : s.footing.Poised) (q : QueryCall) :
    s.Traces ((q.citations s.scope.started).map (·.below (.call q))) (attachCall q s) := by
  have hcall : ((s.pushElement (.call q)).pushOrigin (.call q.query)).footing.Poised := hs
  refine Traces.inside ?_
  refine Traces.first (blameless_ensureTuple _) fun _ t ht => ?_
  have hscope : t.scope = s.scope.started :=
    (hcall.begins ((logs_ensureTuple hcall).of_ok ht)).scope
  refine Traces.first (blameless_requireTuple _ t) fun left u hu => ?_
  have hsame : u.footing = t.footing := (quiet_requireTuple _ t).of_ok hu
  rw [get_bind, show u.scope = s.scope.started from (congrArg Footing.scope hsame).trans hscope]
  refine Traces.last (traces_orFail (s.scope.started.meets_resolveArguments q)) fun _ v _ => ?_
  refine (blameless_attachBeta _ _).bind (fun node => ?_) v
  exact .modify fun _ => ⟨rfl, rfl, rfl⟩

/-! ### Negations and existence claims -/

theorem traces_attachSubnetwork (left : NodeId) {members : Compile Unit}
    (h : s.Traces cs (members s)) : s.Traces cs (attachSubnetwork left members s) := by
  rw [attachSubnetwork, get_bind]
  refine h.last fun _ t _ => ?_
  refine (blameless_requireTuple _).bind (fun last => ?_) t
  refine (blameless_attachBeta _ _).bind fun source => ?_
  exact .bind (.modify fun _ => ⟨rfl, rfl, rfl⟩) fun _ => .pure _

/-- A negation or existence claim meets the references of its members. -/
theorem traces_attachQuantified (hs : s.footing.Poised) (q : Quantifier) {members : List Element}
    {attachMembers : Compile Unit}
    (hsingle : ∀ p, Element.single? members = some p →
      cs = (p.citations s.scope.started).map (·.below (.pattern p)))
    (h : ∀ t : Session, t.footing.Stands s.scope.started → t.Traces cs (attachMembers t)) :
    s.Traces (cs.map (·.below (.group q.connective members)))
      (attachQuantified q members attachMembers s) := by
  unfold attachQuantified
  by_cases hempty : members.isEmpty
  · simp only [hempty, if_true]
    exact traces_throw trivial
  · simp only [hempty]
    refine Traces.inside ?_
    have hinside : ((s.pushElement (.group q.connective members)).pushOrigin
        q.origin).footing.Poised := hs
    refine Traces.first (blameless_ensureTuple _) fun _ t ht => ?_
    have hstands : t.footing.Stands s.scope.started :=
      hinside.begins ((logs_ensureTuple hinside).of_ok ht)
    refine Traces.first (blameless_requireTuple _ t) fun left u hu => ?_
    have hsame : u.footing = t.footing := (quiet_requireTuple _ t).of_ok hu
    rw [← hsame] at hstands
    rw [get_bind]
    have hjoin (right : RightInput) (single : Bool) : Blameless ((do
        let memory := (← get).tupleMemory
        let node ← withTupleMemory (memory && !single)
          (attachJoin q.joinKind left right.source right.tests right.expiration?)
        modify ({ · with tupleSource? := some node }) : Compile Unit)) := by
      refine .reads fun _ => ?_
      refine .bind (fun _ => Traces.withTupleMemory (blameless_attachJoin _ _ _ _ _ _)) fun _ => ?_
      exact .modify fun _ => ⟨rfl, rfl, rfl⟩
    cases hone : Element.single? members with
    | some p =>
      rw [hsingle p hone, ← show u.scope = s.scope.started from hstands.scope]
      exact (traces_attachSingle u p).last fun right v _ => hjoin right _ v
    | none =>
      exact (traces_attachSubnetwork left (h u hstands)).last fun right v _ => hjoin right _ v

theorem traces_patterns (hs : s.footing.Poised) (ps : List Pattern) :
    s.Traces (Pattern.citationsInTurn s.scope ps) (ps.forM attachPattern s) := by
  induction ps generalizing s with
  | nil => exact traces_ok _ (.refl s)
  | cons p ps ih =>
    refine Traces.bind (traces_attachPattern s p) fun _ t ht => ?_
    obtain ⟨x, hx⟩ := (logs_attachPattern hs p).of_ok ht
    have hstands := hs.extend x p
    rw [← hx] at hstands
    rw [← show t.scope = s.scope ++ [p] from hstands.scope]
    exact ih hstands.poised

/-- What stands in the negation that a universal statement is. -/
theorem traces_universalMembers (u : Universal) {scope : Scope}
    (hs : s.footing.Stands scope.started) :
    s.Traces ((u.base.citations scope.started).map (·.below (.pattern u.base)) ++
        (Pattern.citationsInTurn (scope.started ++ [u.base]) u.rest).map
          (·.below (.group .not u.inner)))
      ((attachPattern u.base >>= fun _ =>
        attachQuantified .none u.inner (u.rest.forM attachPattern)) s) := by
  have hscope : s.scope = scope.started := hs.scope
  rw [← hscope]
  refine Traces.bind (traces_attachPattern s u.base) fun _ t ht => ?_
  obtain ⟨x, hx⟩ := (logs_attachPattern hs.poised u.base).of_ok ht
  have hstands := hs.poised.extend x u.base
  rw [← hx] at hstands
  have hstarted : t.scope.started = s.scope ++ [u.base] := by
    rw [show t.scope = s.scope ++ [u.base] from hstands.scope, Scope.started]
    simp
  refine traces_attachQuantified hstands.poised .none (fun p hp => ?_) fun v hv => ?_
  · obtain hrest : u.rest = [p] := Element.single?_map_pattern.1 hp
    rw [hrest, hstarted, Pattern.citationsInTurn, Pattern.citationsInTurn, List.append_nil]
  · rw [← hstarted, ← show v.scope = t.scope.started from hv.scope]
    exact traces_patterns hv.poised _

theorem traces_attachUniversal (hs : s.footing.Poised) (base : Pattern) (rest : List Pattern) :
    s.Traces (Element.citations s.scope (.every base rest)) (attachUniversal base rest s) := by
  have hweigh : (((s.pushElement (.every base rest)).pushOrigin .every).weigh
    (Universal.of base rest).guardsOnly).footing.Poised := hs
  refine Traces.inside (Traces.withGuardsOut ?_)
  refine traces_attachQuantified hweigh .none (fun p hp => ?_) fun t ht => ?_
  · simp [Universal.outer, Element.single?] at hp
  · exact traces_universalMembers _ ht

/-! ### Elements -/

/-- A negation or existence claim meets the references of its members if these do
    wherever they are attached. -/
theorem traces_quantifiedMembers (q : Quantifier) {members : List Element}
    (hs : s.footing.Poised)
    (h : ∀ t : Session, t.footing.Poised →
      t.Traces (Element.citationsAll t.scope members) (attachElements members t)) :
    s.Traces ((Element.citationsAll s.scope.started members).map
      (·.below (.group q.connective members)))
      (attachQuantified q members (attachElements members) s) := by
  refine traces_attachQuantified hs q (fun p hp => ?_) fun t ht => ?_
  · rw [Element.single?_eq_some_iff.1 hp, Element.citationsAll, Element.citationsAll,
      Element.citations, List.append_nil]
  · rw [← show t.scope = s.scope.started from ht.scope]
    exact h t ht.poised

mutual

/-- **A session that attaches an element meets its references one after the
    other.** -/
theorem traces_attachElement : (e : Element) → ∀ {s : Session}, s.footing.Poised →
    s.Traces (e.citations s.scope) (attachElement e s)
  | .pattern p, s, _ => traces_attachPattern s p
  | .group .and members, _, hs => Traces.insideElement (traces_attachElements members hs)
  | .group .or _, _, _ => traces_throw trivial
  | .group .not members, _, hs =>
    traces_quantifiedMembers .none hs fun _ ht => traces_attachElements members ht
  | .group .exists members, _, hs =>
    traces_quantifiedMembers .some hs fun _ ht => traces_attachElements members ht
  | .every base rest, _, hs => traces_attachUniversal hs base rest
  | .call q, _, hs => traces_attachCall hs q

theorem traces_attachElements : (es : List Element) → ∀ {s : Session}, s.footing.Poised →
    s.Traces (Element.citationsAll s.scope es) (attachElements es s)
  | [], s, _ => traces_ok _ (.refl s)
  | e :: es, s, hs => by
    refine Traces.bind (traces_attachElement e hs) fun _ t ht => ?_
    have hstands := (logs_attachElement e hs).of_ok ht
    rw [← show t.scope = e.scopeAfter s.scope from hstands.scope]
    exact traces_attachElements es hstands.poised

end

/-! ### Rules -/

theorem unrelated_checkBalanced (s : Session) :
    Except.Ends Fault.Unrelated (fun _ => True) s.checkBalanced := by
  have hempty {α : Type} (kind : StackKind) (stack : Stack α) :
      Except.Ends Fault.Unrelated (fun _ => True) (Stack.checkEmpty kind stack) := by
    unfold Stack.checkEmpty
    split
    · trivial
    · trivial
  exact (hempty _ _).bind fun _ _ => hempty _ _

/-- Where facts are timeless, no distances are worked out. -/
theorem branchDistances_eq (hcloud : s.base.config.isStream = false) (b : Branch) :
    branchDistances b s = .ok none s := by
  rw [branchDistances, get_bind, if_neg (by rw [hcloud]; exact Bool.false_ne_true)]
  rfl

/-- A branch is attached by meeting its references. -/
theorem traces_attachBranch (hcloud : s.base.config.isStream = false) (name : String)
    (b : Branch) : s.Traces b.citations (attachBranch name b s) := by
  have hcheck (u : Session) : Blameless (orFail u.checkBalanced) :=
    .orFail (unrelated_checkBalanced u)
  rw [attachBranch, modify_bind, get_bind]
  refine Traces.reached (t := s.resetBranch) ?_ ⟨rfl, rfl, rfl⟩
  refine Traces.first (hcheck _ _) fun _ t ht => ?_
  have hchecked : s.resetBranch.footing = t.footing ∧ t.base = s.base := by
    cases hb : s.resetBranch.checkBalanced with
    | error f =>
      rw [hb] at ht
      cases ht
    | ok _ =>
      rw [hb] at ht
      cases ht
      exact ⟨rfl, rfl⟩
  rw [bind_ok (branchDistances_eq (hchecked.2 ▸ hcloud) b), modify_bind]
  have hopened : ((t.opened name b none).pushElement b.body.toElement).footing.Poised :=
    hchecked.1 ▸ Footing.poised_none
  refine Traces.reached (t := { t with distances? := none, branch? := some b }) ?_ ⟨rfl, rfl, rfl⟩
  refine Traces.last (Traces.insideOrigin ?_) fun terminal u _ => ?_
  · refine Traces.last (Traces.insideElement ?_) fun _ u _ => ?_
    · have hscope : (t.opened name b none).scope = [] := (congrArg Footing.scope hchecked.1).symm
      have hmembers := traces_attachElements b.body.members hopened
      rwa [show ((t.opened name b none).pushElement b.body.toElement).scope = [] from hscope]
        at hmembers
    · exact (blameless_ensureTuple.bind fun _ => blameless_attachTerminal) u
  · rw [get_bind]
    exact (hcheck u).bind (fun _ => .pure terminal) u

/-- The branches of a rule are attached by meeting their references, one branch
    after the other. -/
theorem traces_branches (hcloud : s.base.config.isStream = false) (name : String)
    (bs : List Branch) :
    s.Traces (bs.flatMap Branch.citations) (bs.mapM (attachBranch name) s) := by
  induction bs generalizing s with
  | nil => exact traces_ok _ (.refl s)
  | cons b bs ih =>
    rw [List.mapM_cons, List.flatMap_cons]
    have hbranch := traces_attachBranch hcloud name b
    refine hbranch.bind fun terminal t ht => ?_
    rw [ht] at hbranch
    exact Traces.last (ih (hbranch.2.config ▸ hcloud)) fun _ _ _ => traces_ok _ (.refl _)

/-- Where attaching a rule finds a reference out of scope, it has stopped at the
    first one. -/
theorem attachRule_stopsAt {r : Rule} {o : Offset} {rd : Reading}
    (hcloud : s.base.config.isStream = false)
    (h : attachRule r s = .error (.unboundDeclaration o rd) t) :
    ∃ branches c, r.body.branches = .ok branches ∧
      s.StopsAt t (branches.flatMap Branch.citations) c ∧ o = c.offset ∧ rd = c.reading := by
  have hbranches := r.body.ends_branches
  cases hsplit : r.body.branches with
  | error f =>
    rw [hsplit] at hbranches
    rw [attachRule, hsplit] at h
    cases h
    cases hbranches
  | ok branches =>
    rw [attachRule, hsplit] at h
    have htraces := traces_branches hcloud r.name branches
    change branches.mapM (attachBranch r.name) s = _ at h
    rw [h] at htraces
    obtain ⟨c, hc, hfault⟩ := htraces o rd rfl
    cases hfault
    exact ⟨branches, c, rfl, hc, rfl, rfl⟩

end Session

/-! ## Adding rules -/

/-- A rule whose second branch is a universal statement that refers to nothing. -/
def Rule.astray : Rule where
  name := "astray"
  body := ⟨.and, [.pattern { offset := 0, type := 2 },
    .group .or [.pattern { offset := 1, type := 3 },
      .every { offset := 1, type := 3 }
        [{ offset := 2, type := 3, ownJoinTests := [.field 5 .equal ⟨7, 5⟩] },
          { offset := 3, type := 4 }]]]⟩

namespace Session

section Finishing
variable {α β : Type} {s t : Session}

/-- A step that meets no references finds none out of scope. -/
theorem Blameless.unrelated {step : Compile α} {f : Fault} (h : Blameless step)
    (hfail : step s = .error f t) : f.Unrelated := by
  have hs := h s
  rw [hfail] at hs
  cases f with
  | unboundDeclaration o rd =>
    obtain ⟨c, hc, -⟩ := hs o rd rfl
    exact Citation.not_firstStray_nil hc.first
  | _ => trivial

theorem blameless_finish : Blameless (take finish) := by
  intro s
  have hcheck := unrelated_checkBalanced s
  cases hb : s.checkBalanced with
  | error f =>
    rw [hb] at hcheck
    rw [take_error (show finish s = .error f by rw [finish, hb]; rfl)]
    exact traces_error hcheck
  | ok _ =>
    rw [take_ok (show finish s = .ok s.takeAttached by rw [finish, hb]; rfl)]
    exact traces_ok _ ⟨rfl, rfl, rfl⟩

theorem unrelated_registerRule (base : RuleBase) (entry : RuleEntry) :
    Except.Ends Fault.Unrelated (·.config = base.config) (base.registerRule entry) := by
  unfold RuleBase.registerRule
  split
  · trivial
  · exact rfl

theorem blameless_registerRule (entry : RuleEntry) (attached : List Attached) :
    Blameless (registerRule entry attached) := by
  intro s
  have hregister := unrelated_registerRule s.base entry
  rw [registerRule, get_bind]
  cases hr : s.base.registerRule entry with
  | ok base =>
    rw [hr] at hregister
    exact traces_ok _ ⟨rfl, rfl, hregister⟩
  | error f =>
    rw [hr] at hregister
    exact traces_error hregister

/-- A step of no place fails as it does elsewhere. -/
theorem placeless_inv {step : Compile α} {failure : Failure}
    (h : placeless step s = .error failure t) : step s = .error failure.fault t := by
  cases hstep : step s with
  | ok a u =>
    rw [placeless_ok hstep] at h
    cases h
  | error f u =>
    rw [placeless_error hstep] at h
    cases h
    rfl

/-- A step fails by its first part, or by the second one after the first. -/
theorem bind_error_inv {step : Building α} {k : α → Building β} {failure : Failure}
    (h : (step >>= k) s = .error failure t) :
    step s = .error failure t ∨ ∃ a u, step s = .ok a u ∧ k a u = .error failure t := by
  cases hstep : step s with
  | ok a u => exact .inr ⟨a, u, rfl, by rwa [bind_ok hstep] at h⟩
  | error f u =>
    rw [bind_error hstep] at h
    cases h
    exact .inl rfl

/-- Compiling a rule that has begun, if it finds a reference out of scope, fails
    while the rule is attached, and tells where that was. -/
theorem compileBegun_unbound {r : Rule} {begun : RuleId × PartitionId} {o : Offset} {rd : Reading}
    {place? : Option Place}
    (h : compileBegun r begun s = .error ⟨.unboundDeclaration o rd, place?⟩ t) :
    ∃ u, attachRule r s = .error (.unboundDeclaration o rd) u ∧ place? = some u.place := by
  have hlast {α : Type} {step : Compile α} (hstep : Blameless step) {s t : Session}
      (hfail : placeless step s = .error ⟨.unboundDeclaration o rd, place?⟩ t) : False :=
    hstep.unrelated (placeless_inv hfail)
  obtain hattach | ⟨_, s₁, -, h⟩ := bind_error_inv h
  · cases hr : attachRule r s with
    | ok terminals u =>
      rw [orUndone_ok hr] at hattach
      cases hattach
    | error f u =>
      obtain ⟨v, hundone, -⟩ := orUndone_error begun.1 hr
      rw [hundone] at hattach
      cases hattach
      exact ⟨u, rfl, rfl⟩
  obtain hfinish | ⟨attached, s₂, -, h⟩ := bind_error_inv h
  · exact (hlast blameless_finish hfinish).elim
  obtain hregister | ⟨_, s₃, -, h⟩ := bind_error_inv h
  · exact (hlast (blameless_registerRule _ _) hregister).elim
  obtain hannounce | ⟨_, _, -, h⟩ := bind_error_inv h
  · exact (hlast (fun _ => traces_ok _ ⟨rfl, rfl, rfl⟩) hannounce).elim
  · cases h

end Finishing

end Session

namespace RuleBase

variable {base : RuleBase} {r : Rule} {o : Offset} {rd : Reading} {place? : Option Place}

/-- **A failure points at what caused it.**  Where facts are timeless and adding
    a rule fails for a reference out of scope, that is the first reference of the
    branches that is out of scope, and the place of the failure is its place: the
    name of the rule, the texts of just the elements from the body of the branch
    down to the pattern or call that refers, and the offset of the latter, if it
    is not the one that the compiler gives. -/
theorem add_error_place (hcloud : base.config.isStream = false)
    (h : (base.add r).result = .error ⟨.unboundDeclaration o rd, place?⟩) :
    ∃ branches c, r.body.branches = .ok branches ∧
      Citation.FirstStray (branches.flatMap Branch.citations) c ∧
      o = c.offset ∧ rd = c.reading ∧ place? = some (c.place r.name) := by
  have hbare := (Session.settled_start base).toBare
  obtain ⟨t, hcompile⟩ : ∃ t, Session.compile r (Session.start base) =
      .error ⟨.unboundDeclaration o rd, place?⟩ t := by
    rw [add] at h
    cases hc : Session.compile r (Session.start base) with
    | ok built t =>
      rw [hc] at h
      cases h
    | error failure t =>
      rw [hc] at h
      cases h
      exact ⟨t, rfl⟩
  rw [Session.compile_eq] at hcompile
  by_cases hname : r.name ∈ base.names
  · rw [Session.bind_error (Session.placeless_error (hbare.beginRule_error hname))] at hcompile
    cases hcompile
  · rw [Session.bind_ok (Session.placeless_ok (hbare.beginRule_ok hname))] at hcompile
    obtain ⟨u, hattach, rfl⟩ := Session.compileBegun_unbound hcompile
    obtain ⟨p, hbegun⟩ := base.begun_eq
    have hbegunCloud : ((Session.start base).begun r).base.config.isStream = false := by
      rw [show ((Session.start base).begun r).base = base.begun.2 from rfl, hbegun]
      exact hcloud
    obtain ⟨branches, c, hbranches, hc, ho, hrd⟩ := Session.attachRule_stopsAt hbegunCloud hattach
    refine ⟨branches, c, hbranches, hc.first, ho, hrd, ?_⟩
    have hheld : c.Held := by
      obtain ⟨before, after, hsplit, -⟩ := hc.first.split
      have hmem : c ∈ branches.flatMap Branch.citations := by simp [hsplit]
      obtain ⟨b, -, hb⟩ := List.mem_flatMap.1 hmem
      exact b.held_citations c hb
    rw [hheld.place_eq (r := r) (hc.elements.trans (List.append_nil _)) hc.rule]

/-- The second branch of a rule is a universal statement whose rest refers to
    nothing: the failure points into the inner one of its negations, at the
    pattern with the guard that the compiler adds. -/
theorem add_error_place_every :
    let base := empty {}
    let place : Place := {
      rule? := some "astray"
      offset? := some 2
      frames := ["and (2 element(s))", "forall $1 Symbol(3)()", "not (2 element(s))",
        "not (2 element(s))", "$2 Symbol(3)(Symbol(5) == $7.Symbol(5), this == $1)"] }
    base.config.isStream = false ∧
      (base.add .astray).result = .error ⟨.unboundDeclaration 7 (.field 5), some place⟩ ∧
      ∃ branches c, Rule.astray.body.branches = .ok branches ∧
        Citation.FirstStray (branches.flatMap Branch.citations) c ∧
        7 = c.offset ∧ .field 5 = c.reading ∧ some place = some (c.place "astray") := by
  intro base place
  have hrefused : (match (base.add .astray).result with
      | .ok _ => none
      | .error failure => some failure) =
        some ⟨.unboundDeclaration 7 (.field 5), some place⟩ := by decide +kernel
  have hfail : (base.add .astray).result =
      .error ⟨.unboundDeclaration 7 (.field 5), some place⟩ := by
    cases hresult : (base.add .astray).result with
    | ok built =>
      rw [hresult] at hrefused
      cases hrefused
    | error failure =>
      rw [hresult] at hrefused
      rw [Option.some.inj hrefused]
  exact ⟨rfl, hfail, add_error_place rfl hfail⟩

end RuleBase

end RuleNet
