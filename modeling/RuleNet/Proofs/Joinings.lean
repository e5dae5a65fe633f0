/-
  RuleNet — the patterns that are joined while a rule is compiled.

  A positive pattern that finds a tuple at hand is joined to it.  Which patterns
  these are, and in what sessions they are joined, can be told by following the
  compilation (`Joining.ofRun`).  Along the way three facts hold of the tuple at
  hand (`Footing.Poised`): it has one fact for each pattern in scope, there is a
  node to take it from just if there is such a pattern, and then some pattern has
  been attached.  They hold in subnetworks as well, and after these have been cut
  off, as just the patterns go that the subnetwork has brought.
-/
import RuleNet.Proofs.Positions
import RuleNet.Proofs.Sessions

namespace RuleNet

/-! ## Joinings -/

/-- A positive pattern that is about to be joined to the tuple at hand. -/
structure Joining where
  pattern : Pattern
  /-- Where tuples come from. -/
  left : NodeId
  /-- Where the facts of the pattern come from. -/
  object : NodeId
  /-- The tests of the pattern, in terms of positions. -/
  tests : List JoinTest
  /-- The session in which it is joined. -/
  session : Session

namespace Joining

open Session

/-- The join that is asked for. -/
def candidate (j : Joining) : Join where
  kind := .join
  left := j.left
  right := j.object
  tests := j.tests
  tupleMemory := j.session.tupleMemory
  crossProduct := JoinTest.noneCounts j.session.guardsOut j.tests

/-- The report of a joining that no test relates to the tuple, after the pattern
    `previous`. -/
def report (j : Joining) (previous : Pattern) : CrossProduct where
  warning := !(previous.isSynthetic || Stack.encloses .not j.session.elements ||
    Stack.encloses .exists j.session.elements)
  rule := (j.session.rule?.map (·.name)).getD ""
  latest := j.pattern
  previous

/-- The session in which it is asked for. -/
def asking (j : Joining) : Session :=
  { (if j.session.scope.isCrossProduct j.pattern j.session.guardsOut then
      j.session.reportCrossProduct else j.session) with joinTests := j.tests }

/-- A cross product is the report of a joining. -/
def Reported (j : Joining) (c : CrossProduct) : Prop :=
  ∃ previous, j.session.recent.previous? = some previous ∧ c = j.report previous

/-! ### Following a compilation -/

variable {α β ε : Type}

/-- What is joined after a step, if the step ends well. -/
def following (step : EStateM ε Session α) (k : α → Session → List Joining) (s : Session) :
    List Joining :=
  match step s with
  | .ok a t => k a t
  | .error _ _ => []

/-- What is joined while steps are taken one after the other. -/
def inTurn (step : β → Compile α) (joined : β → Session → List Joining) :
    List β → Session → List Joining
  | [], _ => []
  | b :: bs, s => joined b s ++ following (step b) (fun _ => inTurn step joined bs) s

/-- A pattern is joined unless it starts the tuple. -/
def ofPattern (p : Pattern) (s : Session) : List Joining :=
  let s := (s.pushElement (.pattern p)).pushOrigin p.origin
  following (orFail (s.scope.resolve p.joinTests)) (fun tests =>
    following (attachObjectSide p) fun object t =>
      match t.tupleSource? with
      | none => []
      | some left => [⟨p, left, object, tests, t.recordPattern p⟩]) s

/-- A single pattern of a negation or existence claim is not positive. -/
def ofQuantified (q : Quantifier) (members : List Element) (joined : Session → List Joining)
    (s : Session) : List Joining :=
  if members.isEmpty then [] else
    following ensureTuple (fun _ => following (requireTuple .negationWithoutInput) fun _ t =>
        if (Element.single? members).isSome then [] else joined t)
      ((s.pushElement (.group q.connective members)).pushOrigin q.origin)

def ofUniversal (base : Pattern) (rest : List Pattern) (s : Session) : List Joining :=
  let u := Universal.of base rest
  ofQuantified .none u.outer
    (fun t => ofPattern u.base t ++ following (attachPattern u.base) (fun _ =>
      ofQuantified .none u.inner (inTurn attachPattern ofPattern u.rest)) t)
    (((s.pushElement (.every base rest)).pushOrigin .every).weigh u.guardsOnly)

mutual

/-- What is joined while an element is attached. -/
def ofElement : Element → Session → List Joining
  | .pattern p => ofPattern p
  | .group .and members => fun s => ofElements members (s.pushElement (.group .and members))
  | .group .or _ | .call _ => fun _ => []
  | .group .not members => ofQuantified .none members (ofElements members)
  | .group .exists members => ofQuantified .some members (ofElements members)
  | .every base rest => ofUniversal base rest

/-- What is joined while elements are attached. -/
def ofElements : List Element → Session → List Joining
  | [] => fun _ => []
  | e :: es => fun s => ofElement e s ++ following (attachElement e) (fun _ => ofElements es) s

end

def ofBranch (name : String) (b : Branch) (s : Session) : List Joining :=
  following (orFail s.resetBranch.checkBalanced) (fun _ =>
    following (branchDistances b) fun distances? t =>
      ofElements b.body.members ((t.opened name b distances?).pushElement b.body.toElement))
    s.resetBranch

def ofRule (r : Rule) : Session → List Joining :=
  following (orFail r.body.branches) fun bs => inTurn (attachBranch r.name) (ofBranch r.name) bs

/-- What is joined while a rule is compiled. -/
def ofRun (r : Rule) : Session → List Joining :=
  following (beginRule r) fun _ => ofRule r

end Joining

/-! ## Where a session stands -/

/-- What a session knows of the tuple at hand. -/
structure Footing where
  /-- The patterns of its facts. -/
  scope : Scope
  /-- How many facts it has. -/
  offset : Nat
  /-- The patterns attached last. -/
  recent : Recent
  /-- Where it comes from. -/
  tuple? : Option NodeId

def Session.footing (s : Session) : Footing := ⟨s.scope, s.offset, s.recent, s.tupleSource?⟩

namespace Footing

/-- At the beginning of a branch. -/
def none : Footing := ⟨[], 0, .none, Option.none⟩

/-- A pattern has been attached. -/
def record (o : Footing) (p : Pattern) : Footing := { o with recent := o.recent.record p }

/-- The fact of a pattern, attached last, became part of the tuple. -/
def extend (o : Footing) (x : NodeId) (p : Pattern) : Footing :=
  { o.record p with scope := o.scope ++ [p], offset := o.offset + 1, tuple? := some x }

/-- The patterns in scope tell what there is of a tuple. -/
structure Poised (o : Footing) : Prop where
  offset : o.offset = o.scope.length
  tuple : o.tuple?.isSome ↔ o.scope ≠ []
  /-- Some pattern has been attached if there is a tuple. -/
  latest : o.scope ≠ [] → o.recent.latest?.isSome

/-- There is a tuple with just this scope. -/
structure Stands (o : Footing) (scope : Scope) : Prop where
  poised : o.Poised
  scope : o.scope = scope

theorem poised_none : none.Poised := ⟨rfl, by simp [none], by simp [none]⟩

variable {o : Footing} {p : Pattern} {x : NodeId} {scope : Scope}

theorem Poised.extend (h : o.Poised) (x : NodeId) (p : Pattern) :
    (o.extend x p).Stands (o.scope ++ [p]) where
  poised :=
    { offset := by simp [Footing.extend, h.offset]
      tuple := by simp [Footing.extend]
      latest := fun _ => rfl }
  scope := rfl

/-- How the tuple at hand is once a negation, an existence claim or a call has
    begun: the initial fact starts it if there was none. -/
inductive Begins (o : Footing) : Footing → Prop where
  | there (nonempty : o.scope ≠ []) : o.Begins o
  | started (empty : o.scope = []) (x : NodeId) : o.Begins (o.extend x .initialFact)

theorem Poised.begins {o' : Footing} (h : o.Poised) (hb : o.Begins o') :
    o'.Stands o.scope.started := by
  cases hb with
  | there nonempty =>
    refine ⟨h, ?_⟩
    rw [Scope.started, List.isEmpty_eq_false_iff.2 nonempty]
    rfl
  | started empty x =>
    have hx := h.extend x .initialFact
    rwa [empty] at hx ⊢

theorem Stands.ne_nil (h : o.Stands scope.started) : o.scope ≠ [] := by
  rw [h.scope, Scope.started]
  split
  · simp
  · rename_i hempty
    exact fun hnil => hempty (List.isEmpty_iff.2 hnil)

theorem Stands.record (h : o.Stands scope) (p : Pattern) : (o.record p).Stands scope :=
  ⟨⟨h.poised.offset, h.poised.tuple, fun _ => rfl⟩, h.scope⟩

/-- The tuple comes from another node. -/
theorem Stands.source (h : o.Stands scope) (hne : o.scope ≠ []) (x : NodeId) :
    ({ o with tuple? := some x } : Footing).Stands scope :=
  ⟨⟨h.poised.offset, iff_of_true rfl hne, h.poised.latest⟩, h.scope⟩

/-- What a subnetwork has brought into scope goes out of scope. -/
theorem Poised.cut {o' : Footing} (h : o.Poised) (hne : o.scope ≠ []) (h' : o'.Poised)
    (hpre : o.scope <+: o'.scope) (x : NodeId) :
    (⟨o'.scope.take o.offset, o.offset, o'.recent, some x⟩ : Footing).Stands o.scope := by
  have hscope : o'.scope.take o.offset = o.scope := by
    rw [h.offset, List.prefix_iff_eq_take.1 hpre |>.symm]
  rw [hscope]
  exact ⟨⟨h.offset, iff_of_true rfl hne, fun _ => h'.latest fun hnil =>
    hne (List.prefix_nil.1 (hnil ▸ hpre))⟩, rfl⟩

end Footing

/-! ## What a step logs -/

/-- A joining that a run comes by: the tuple at hand has patterns, and the pattern
    is recorded as the latest one, after another. -/
structure Joining.Due (j : Joining) : Prop where
  left : j.session.tupleSource? = some j.left
  tests : j.session.scope.resolve j.pattern.joinTests = .ok j.tests
  scope : j.session.scope ≠ []
  latest : j.session.recent.latest? = some j.pattern
  previous : ∃ p, j.session.recent.previous? = some p

/-- Once the tests of a pattern have been resolved, each of them relates it to a
    pattern in scope. -/
theorem Scope.any_binds {scope : Scope} {ts us : List JoinTest} (g : Bool)
    (h : List.Forall₂ scope.Resolves ts us) :
    ((JoinTest.weighed g ts).any fun t => scope.binds t.target) =
      !(JoinTest.weighed g us).isEmpty := by
  induction h with
  | nil => rfl
  | @cons t u ts us hresolves _ ih =>
    obtain ⟨i, hi, rfl⟩ := hresolves
    have hbinds : scope.binds t.target := by
      rw [binds, find_eq_some_iff.2 hi]
      rfl
    have hguard : (t.retarget i).isGuard = t.isGuard := by cases t <;> rfl
    simp only [JoinTest.weighed, List.filter_cons, hguard] at ih ⊢
    split
    · rw [List.any_cons, hbinds]
      rfl
    · exact ih

/-- Both tests for a cross product agree where there is a tuple. -/
theorem Scope.isCrossProduct_eq {scope : Scope} {p : Pattern} {tests : List JoinTest} (g : Bool)
    (hscope : scope ≠ []) (h : scope.resolve p.joinTests = .ok tests) :
    scope.isCrossProduct p g = JoinTest.noneCounts g tests := by
  rw [isCrossProduct, any_binds g (resolve_eq_ok h), Bool.not_not, JoinTest.noneCounts,
    List.isEmpty_eq_false_iff.2 hscope]
  rfl

theorem Joining.Due.agrees {j : Joining} (h : j.Due) :
    j.session.scope.isCrossProduct j.pattern j.session.guardsOut =
      JoinTest.noneCounts j.session.guardsOut j.tests :=
  Scope.isCrossProduct_eq _ h.scope h.tests

namespace Session

variable {α β ε : Type} {s t : Session} {js js' : List Joining} {P P' : α → Footing → Prop}
variable {Q : β → Footing → Prop}

/-- From the session `s` to `t`, just the joinings `js` happened. -/
structure Logged (s : Session) (js : List Joining) (t : Session) : Prop where
  due : ∀ j ∈ js, j.Due
  /-- They happened inside the elements that enclose `s`. -/
  inside : ∀ j ∈ js, s.elements <:+ j.session.elements
  /-- Those that are cross products were reported, one after the other. -/
  reports : ∃ new, t.reports.toList = s.reports.toList ++ new ∧
    List.Forall₂ Joining.Reported (js.filter (·.candidate.crossProduct)) new

theorem logged_nil (h : t.reports = s.reports) : s.Logged [] t where
  due _ hj := by cases hj
  inside _ hj := by cases hj
  reports := ⟨[], by rw [h, List.append_nil], .nil⟩

theorem Logged.append {u : Session} (h : s.Logged js t) (ht : t.elements = s.elements)
    (h' : t.Logged js' u) : s.Logged (js ++ js') u where
  due := List.forall_mem_append.2 ⟨h.due, h'.due⟩
  inside := List.forall_mem_append.2 ⟨h.inside, ht ▸ h'.inside⟩
  reports := by
    obtain ⟨new, hnew, hreported⟩ := h.reports
    obtain ⟨new', hnew', hreported'⟩ := h'.reports
    refine ⟨new ++ new', by rw [hnew', hnew, List.append_assoc], ?_⟩
    rw [List.filter_append]
    exact List.rel_append hreported hreported'

/-- Whether just the joinings `js` happened in a step from the session `s`, which
    leaves the enclosing elements alone and ends as `P` says, or fails. -/
def Logs (s : Session) (js : List Joining) (P : α → Footing → Prop) :
    EStateM.Result ε Session α → Prop
  | .ok a t => s.Logged js t ∧ t.elements = s.elements ∧ P a t.footing
  | .error _ t => s.Logged js t

theorem Logs.mono {r : EStateM.Result ε Session α} (h : s.Logs js P r)
    (hP : ∀ a o, P a o → P' a o) : s.Logs js P' r := by
  cases r with
  | ok a t => exact ⟨h.1, h.2.1, hP _ _ h.2.2⟩
  | error f t => exact h

/-- Whether or not a step fails, just the joinings `js` happened. -/
theorem Logs.logged {r : EStateM.Result ε Session α} (h : s.Logs js P r) :
    s.Logged js (afterwards r) := by
  cases r with
  | ok a t => exact h.1
  | error f t => exact h

/-- A step may follow what has happened before. -/
theorem Logs.after {r : EStateM.Result ε Session α} (h : t.Logs js' P r) (hlogged : s.Logged js t)
    (helements : t.elements = s.elements) : s.Logs (js ++ js') P r := by
  cases r with
  | ok a u => exact ⟨hlogged.append helements h.1, h.2.1.trans helements, h.2.2⟩
  | error f u => exact hlogged.append helements h

/-- A step may begin with a change that is of no account. -/
theorem Logs.reached {r : EStateM.Result ε Session α} (h : t.Logs js P r)
    (helements : t.elements = s.elements) (hreports : t.reports = s.reports) : s.Logs js P r :=
  h.after (logged_nil hreports) helements

/-- What happens in two steps, if what happens in the second one is `joined`. -/
theorem Logs.bind {step : EStateM ε Session α} {k : α → EStateM ε Session β}
    {joined : α → Session → List Joining} (h : s.Logs js P (step s))
    (hk : ∀ a (t : Session), P a t.footing → t.Logs (joined a t) Q (k a t)) :
    s.Logs (js ++ Joining.following step joined s) Q ((step >>= k) s) := by
  cases hstep : step s with
  | ok a t =>
    rw [hstep] at h
    obtain ⟨hlogged, helements, hP⟩ := h
    rw [bind_ok hstep, Joining.following, hstep]
    exact (hk a t hP).after hlogged helements
  | error f t =>
    rw [hstep] at h
    rw [bind_error hstep, Joining.following, hstep, List.append_nil]
    exact h

/-- Nothing is joined in the second step. -/
theorem Logs.last {step : EStateM ε Session α} {k : α → EStateM ε Session β}
    (h : s.Logs js P (step s)) (hk : ∀ a (t : Session), P a t.footing → t.Logs [] Q (k a t)) :
    s.Logs js Q ((step >>= k) s) := by
  have hnone : Joining.following step (fun _ _ => []) s = [] := by
    unfold Joining.following
    split <;> rfl
  have hlogs := h.bind hk
  rwa [hnone, List.append_nil] at hlogs

/-- Nothing is joined in the first step. -/
theorem Logs.first {step : EStateM ε Session α} {k : α → EStateM ε Session β}
    {joined : α → Session → List Joining} (h : s.Logs [] P (step s))
    (hk : ∀ a (t : Session), P a t.footing → t.Logs (joined a t) Q (k a t)) :
    s.Logs (Joining.following step joined s) Q ((step >>= k) s) :=
  h.bind hk

/-- A check is made first. -/
theorem Logs.checked {x : Except Fault α} {k : α → Compile β} {joined : α → Session → List Joining}
    (h : ∀ a, x = .ok a → s.Logs (joined a s) Q (k a s)) :
    s.Logs (Joining.following (orFail x) joined s) Q ((orFail x >>= k) s) := by
  cases x with
  | ok a => exact h a rfl
  | error f => exact logged_nil rfl

theorem logs_pure (a : α) (h : P a s.footing) :
    s.Logs [] P ((pure a : EStateM ε Session α) s) :=
  ⟨logged_nil rfl, rfl, h⟩

theorem logs_throw (f : ε) : s.Logs [] P ((throw f : EStateM ε Session α) s) := logged_nil rfl

/-! ### Quiet steps -/

/-- A step that joins nothing and leaves the tuple at hand as it is. -/
def Quiet (step : EStateM ε Session α) : Prop :=
  ∀ s : Session, s.Logs [] (fun _ o => o = s.footing) (step s)

namespace Quiet

theorem pure (a : α) : Quiet (pure a : EStateM ε Session α) := fun _ =>
  logs_pure (P := fun _ o => o = _) a rfl

theorem throw (f : ε) : Quiet (throw f : EStateM ε Session α) := fun _ => logs_throw f

theorem bind {step : EStateM ε Session α} {k : α → EStateM ε Session β} (h : Quiet step)
    (hk : ∀ a, Quiet (k a)) : Quiet (step >>= k) := fun s =>
  (h s).last fun a t ht => (hk a t).mono fun _ _ ho => ho.trans ht

theorem modify {u : Session → Session} (hfooting : ∀ s, (u s).footing = s.footing)
    (helements : ∀ s, (u s).elements = s.elements) (hreports : ∀ s, (u s).reports = s.reports) :
    Quiet (modify u : Compile PUnit) :=
  fun s => ⟨logged_nil (hreports s), helements s, hfooting s⟩

/-- A step that depends on what it reads of the session. -/
theorem reads {k : Session → Compile α} (h : ∀ s, Quiet (k s)) : Quiet (get >>= k) := fun s => h s s

theorem foldlM {f : β → α → Compile β} (h : ∀ b a, Quiet (f b a)) (l : List α) (b : β) :
    Quiet (l.foldlM f b) := by
  induction l generalizing b with
  | nil => exact .pure _
  | cons a l ih => exact (h b a).bind ih

theorem orFail (x : Except Fault α) : Quiet (orFail x) := by
  cases x with
  | ok a => exact .pure a
  | error f => exact .throw f

end Quiet

/-! ### Frames and flags -/

/-- What happens inside a construct happens. -/
theorem Logs.insideOrigin {o : Origin} {step : Compile α}
    (h : (s.pushOrigin o).Logs js P (step (s.pushOrigin o))) :
    s.Logs js P (insideOrigin o step s) := by
  replace h : s.Logs js P (step (s.pushOrigin o)) := h.reached rfl rfl
  rw [Session.insideOrigin, modify_bind]
  cases hstep : step (s.pushOrigin o) with
  | error f t =>
    rw [hstep] at h
    rw [bind_error hstep]
    exact h
  | ok a t =>
    rw [hstep] at h
    rw [bind_ok hstep]
    cases hpop : popOrigin t with
    | error f =>
      rw [bind_error (take_error hpop)]
      exact h.1
    | ok top =>
      obtain ⟨⟨o, below⟩, -, htop⟩ := Except.bind_inv hpop
      cases htop
      rw [bind_ok (take_ok hpop)]
      exact ⟨⟨h.1.due, h.1.inside, h.1.reports⟩, h.2⟩

/-- What happens inside an element happens. -/
theorem Logs.insideElement {e : Element} {step : Compile α}
    (h : (s.pushElement e).Logs js P (step (s.pushElement e))) :
    s.Logs js P (insideElement e step s) := by
  have hinside {t : Session} (ht : (s.pushElement e).Logged js t) : s.Logged js t :=
    ⟨ht.due, fun j hj => (List.suffix_cons e s.elements).trans (ht.inside j hj), ht.reports⟩
  cases hstep : step (s.pushElement e) with
  | error f t =>
    rw [hstep] at h
    rw [insideElement_error hstep]
    exact hinside h
  | ok a t =>
    rw [hstep] at h
    obtain ⟨hlogged, helements, hP⟩ := h
    rw [insideElement_ok hstep helements]
    have hlogged := hinside hlogged
    exact ⟨⟨hlogged.due, hlogged.inside, hlogged.reports⟩, rfl, hP⟩

theorem Logs.inside {e : Element} {o : Origin} {step : Compile α}
    (h : ((s.pushElement e).pushOrigin o).Logs js P (step ((s.pushElement e).pushOrigin o))) :
    s.Logs js P (inside e o step s) :=
  Logs.insideElement (Logs.insideOrigin h)

/-- A flag may be put back at the end of a step, whether or not it fails. -/
theorem Logs.restored {r : EStateM.Result Fault Session α} {restore : Session → Session}
    (h : s.Logs js P r) (hfooting : ∀ t, (restore t).footing = t.footing)
    (helements : ∀ t, (restore t).elements = t.elements)
    (hreports : ∀ t, (restore t).reports = t.reports) :
    s.Logs js P (match r with
      | .ok a t => .ok a (restore t)
      | .error fault t => .error fault (restore t)) := by
  cases r with
  | ok a t =>
    obtain ⟨⟨hdue, hinside, hlog⟩, hsame, hP⟩ := h
    exact ⟨⟨hdue, hinside, hreports t ▸ hlog⟩, (helements t).trans hsame, hfooting t ▸ hP⟩
  | error fault t =>
    obtain ⟨hdue, hinside, hlog⟩ := h
    exact ⟨hdue, hinside, hreports t ▸ hlog⟩

theorem Logs.withTupleMemory {on : Bool} {step : Compile α}
    (h : Logs { s with tupleMemory := on } js P (step { s with tupleMemory := on })) :
    s.Logs js P (withTupleMemory on step s) :=
  have h : s.Logs js P (step { s with tupleMemory := on }) := h.reached rfl rfl
  h.restored (fun _ => rfl) (fun _ => rfl) fun _ => rfl

theorem Logs.withGuardsOut {on : Bool} {step : Compile α}
    (h : (s.weigh on).Logs js P (step (s.weigh on))) : s.Logs js P (withGuardsOut on step s) :=
  have h : s.Logs js P (step (s.weigh on)) := h.reached rfl rfl
  h.restored (fun _ => rfl) (fun _ => rfl) fun _ => rfl

/-! ### Single nodes -/

theorem quiet_issueId : Quiet issueId := fun _ => ⟨logged_nil rfl, rfl, rfl⟩

theorem quiet_change {f : Session → Except Fault Session}
    (h : ∀ s t, f s = .ok t →
      t.footing = s.footing ∧ t.elements = s.elements ∧ t.reports = s.reports) :
    Quiet (change f) := by
  intro s
  cases hf : f s with
  | error fault =>
    rw [change, get_bind, hf]
    exact logs_throw fault
  | ok t =>
    obtain ⟨hfooting, helements, hreports⟩ := h s t hf
    rw [change_ok hf]
    exact ⟨logged_nil hreports, helements, hfooting⟩

theorem quiet_releaseId (id : NodeId) : Quiet (releaseId id) := by
  refine quiet_change fun s t h => ?_
  obtain ⟨base, -, h⟩ := Except.bind_inv h
  cases h
  exact ⟨rfl, rfl, rfl⟩

theorem quiet_requireRule : Quiet requireRule := by
  refine .reads fun s => ?_
  cases s.ruleId? with
  | none => exact .throw _
  | some rule => exact .pure rule

theorem quiet_claim (id : NodeId) (expiration? : Option Expiration) :
    Quiet (claim id expiration?) := by
  refine quiet_requireRule.bind fun rule => quiet_change fun s t h => ?_
  obtain ⟨network, -, h⟩ := Except.bind_inv h
  cases h
  exact ⟨rfl, rfl, rfl⟩

theorem quiet_createNode (kind : NodeKind) (expiration? : Option Expiration) :
    Quiet (createNode kind expiration?) := by
  refine quiet_requireRule.bind fun _ => quiet_issueId.bind fun id s => ?_
  rw [get_bind]
  cases s.base.network.insert { id, kind, origin? := s.origin? } with
  | error fault => exact (quiet_releaseId id).bind (fun _ => .throw fault) s
  | ok network =>
    have hclaim := (quiet_claim id expiration?).bind fun _ => .pure id
    exact (hclaim _).reached rfl rfl

theorem quiet_shareNode (id : NodeId) (expiration? : Option Expiration) :
    Quiet (shareNode id expiration?) := by
  refine quiet_requireRule.bind fun rule s => ?_
  rw [get_bind]
  have hclaim := (quiet_claim id expiration?).bind fun _ => .pure id
  cases s.base.network.require id with
  | error fault => exact logs_throw fault
  | ok n =>
    simp only [orFail, pure_bind]
    split
    · exact hclaim s
    · exact (hclaim (s.attach ⟨id, false, n.partition?, n.retention.total⟩)).reached rfl rfl

theorem quiet_attachRoot (key : RootKey) (kind : NodeKind) (expiration? : Option Expiration) :
    Quiet (attachRoot key kind expiration?) := by
  refine .reads fun s => ?_
  cases s.base.network.roots[key]? with
  | none => exact quiet_createNode _ _
  | some id => exact quiet_shareNode id _

theorem quiet_attachNode (sharing : Bool) (wanted : NodeKind) (expiration? : Option Expiration) :
    Quiet (attachNode sharing wanted expiration?) := by
  refine .reads fun s => ?_
  cases if sharing then s.base.network.findServing s.guardsOut wanted else none with
  | none => exact quiet_createNode _ _
  | some id => exact quiet_shareNode id _

theorem quiet_attachAlpha (source : NodeId) (t : FieldTest) (expiration? : Option Expiration) :
    Quiet (attachAlpha source t expiration?) :=
  .reads fun _ => quiet_attachNode _ _ _

theorem quiet_attachBeta (wanted : NodeKind) (expiration? : Option Expiration) :
    Quiet (attachBeta wanted expiration?) :=
  .reads fun _ => quiet_attachNode _ _ _

theorem quiet_attachJoin (kind : JoinKind) (left right : NodeId) (tests : List JoinTest)
    (expiration? : Option Expiration) : Quiet (attachJoin kind left right tests expiration?) :=
  .bind (.modify (fun _ => rfl) (fun _ => rfl) fun _ => rfl) fun _ =>
    .reads fun _ => quiet_attachBeta _ _

theorem quiet_insideOrigin (o : Origin) {step : Compile α} (h : Quiet step) :
    Quiet (insideOrigin o step) := fun s =>
  Logs.insideOrigin (h (s.pushOrigin o))

theorem quiet_attachObjectSide (p : Pattern) : Quiet (attachObjectSide p) := by
  refine .reads fun s => ?_
  refine .bind (.modify (fun _ => rfl) (fun _ => rfl) fun _ => rfl) fun _ => ?_
  refine (quiet_attachRoot _ _ _).bind fun _ => .reads fun _ => ?_
  refine (quiet_attachRoot _ _ _).bind fun root => ?_
  refine .bind (.modify (fun _ => rfl) (fun _ => rfl) fun _ => rfl) fun _ => ?_
  refine (Quiet.foldlM (fun source t => quiet_insideOrigin (.fieldTest t)
    (quiet_attachAlpha source t (s.expirationOf p))) _ root).bind fun last => ?_
  exact .bind (.modify (fun _ => rfl) (fun _ => rfl) fun _ => rfl) fun _ => .pure last

theorem quiet_requireTuple (breach : Breach) : Quiet (requireTuple breach) := by
  refine .reads fun s => ?_
  cases s.tupleSource? with
  | none => exact .throw _
  | some source => exact .pure source

/-! ### Patterns -/

theorem reportCrossProduct_eq {latest previous : Pattern} (hlatest : s.recent.latest? = some latest)
    (hprevious : s.recent.previous? = some previous) : s.reportCrossProduct =
      { s with reports := s.reports.push ⟨!(previous.isSynthetic || Stack.encloses .not s.elements ||
        Stack.encloses .exists s.elements), (s.rule?.map (·.name)).getD "", latest, previous⟩ } := by
  rw [reportCrossProduct, hlatest, hprevious]

/-- What a report leaves alone. -/
theorem reportCrossProduct_rest (s : Session) : ∃ reports,
    s.reportCrossProduct = { s with reports } := by
  unfold reportCrossProduct
  split
  · exact ⟨_, rfl⟩
  · exact ⟨s.reports, rfl⟩

theorem attachJoin_eq (s : Session) (kind : JoinKind) (left right : NodeId) (tests : List JoinTest)
    (expiration? : Option Expiration) : attachJoin kind left right tests expiration? s =
      attachBeta (.join { kind, left, right, tests
                          tupleMemory := s.tupleMemory
                          crossProduct := JoinTest.noneCounts s.guardsOut tests }) expiration?
        { s with joinTests := tests } := by
  rw [attachJoin, modify_bind, get_bind]

/-- What joining a pattern to the tuple at hand does. -/
theorem joinPattern_eq {left : NodeId} (hleft : s.tupleSource? = some left) (p : Pattern)
    (object : NodeId) (tests : List JoinTest) : joinPattern p object tests s =
      attachJoin .join left object tests (s.expirationOf p)
        (if s.scope.isCrossProduct p s.guardsOut then s.reportCrossProduct else s) := by
  rw [joinPattern, get_bind, hleft]
  dsimp only
  rw [modify_bind, get_bind]
  split
  · obtain ⟨reports, hreports⟩ := s.reportCrossProduct_rest
    rw [hreports]
    rfl
  · rfl

/-- The join that is asked for is the candidate. -/
theorem joinPattern_eq_attachBeta {j : Joining} (h : j.Due) :
    joinPattern j.pattern j.object j.tests j.session =
      attachBeta (.join j.candidate) (j.session.expirationOf j.pattern) j.asking := by
  rw [joinPattern_eq h.left, attachJoin_eq, Joining.asking, Joining.candidate]
  split
  · obtain ⟨reports, hreports⟩ := j.session.reportCrossProduct_rest
    rw [hreports]
  · rfl

/-- A joining is reported if it is a cross product. -/
theorem logs_joining {j : Joining} (h : j.Due) :
    j.session.Logs [j] (fun _ o => o = j.session.footing)
      (joinPattern j.pattern j.object j.tests j.session) := by
  obtain ⟨previous, hprevious⟩ := h.previous
  have hlogged {t : Session} (new : List CrossProduct)
      (hnew : t.reports.toList = j.session.reports.toList ++ new)
      (hreported : List.Forall₂ Joining.Reported ([j].filter (·.candidate.crossProduct)) new) :
      j.session.Logged [j] t := by
    refine ⟨fun i hi => ?_, fun i hi => ?_, new, hnew, hreported⟩
    · rwa [List.mem_singleton.1 hi]
    · rw [List.mem_singleton.1 hi]
  have hquiet := quiet_attachJoin .join j.left j.object j.tests (j.session.expirationOf j.pattern)
  rw [joinPattern_eq h.left, h.agrees]
  cases hcross : JoinTest.noneCounts j.session.guardsOut j.tests with
  | false =>
    have hcandidate : j.candidate.crossProduct = false := hcross
    refine (hquiet j.session).after (hlogged [] (List.append_nil _).symm ?_) rfl
    rw [List.filter_singleton, hcandidate]
    exact .nil
  | true =>
    have hcandidate : j.candidate.crossProduct = true := hcross
    rw [if_pos rfl, reportCrossProduct_eq h.latest hprevious]
    refine (hquiet _).after (hlogged [j.report previous] ?_ ?_) rfl
    · rw [Array.toList_push]
      rfl
    · rw [List.filter_singleton, hcandidate]
      exact .cons ⟨previous, hprevious, rfl⟩ .nil

theorem logs_attachPattern (hs : s.footing.Poised) (p : Pattern) :
    s.Logs (Joining.ofPattern p s) (fun _ o => ∃ x, o = s.footing.extend x p)
      (attachPattern p s) := by
  refine Logs.inside ?_
  rw [get_bind, Joining.ofPattern]
  refine Logs.checked fun tests htests => ?_
  refine Logs.first (quiet_attachObjectSide p _) fun object t ht => ?_
  have hscope : t.scope = s.scope := congrArg Footing.scope ht
  have htuple : t.tupleSource? = s.tupleSource? := congrArg Footing.tuple? ht
  have hrecent : t.recent = s.recent := congrArg Footing.recent ht
  rw [modify_bind]
  refine Logs.reached (t := t.recordPattern p) (Logs.last (P := fun _ o => o = t.footing.record p)
    ?_ fun x u hu => ?_) rfl rfl
  · cases hx : t.tupleSource? with
    | none =>
      have hjoin : joinPattern p object tests (t.recordPattern p) =
          attachBeta (.leftInput object) none (t.recordPattern p) := by
        rw [joinPattern, get_bind, show (t.recordPattern p).tupleSource? = none from hx]
      rw [hjoin]
      exact quiet_attachBeta _ _ _
    | some left =>
      -- there is a tuple, so there is a pattern in scope, and one attached last
      have hnonempty : s.scope ≠ [] := hs.tuple.1 (Option.isSome_iff_exists.2
        ⟨left, htuple.symm.trans hx⟩)
      obtain ⟨latest, hlatest⟩ := Option.isSome_iff_exists.1 (hs.latest hnonempty)
      refine logs_joining (j := ⟨p, left, object, tests, t.recordPattern p⟩)
        ⟨hx, ?_, ?_, rfl, latest, ?_⟩
      · exact (congrArg (Scope.resolve · p.joinTests) hscope).trans htests
      · exact fun hnil => hnonempty (hscope ▸ hnil)
      · exact (congrArg Recent.latest? hrecent).trans hlatest
  · have hrecorded : u.footing = s.footing.record p := hu.trans (congrArg (·.record p) ht)
    exact ⟨logged_nil rfl, rfl, x, congrArg (fun o : Footing =>
      { o with scope := o.scope ++ [p], offset := o.offset + 1, tuple? := some x }) hrecorded⟩

/-- A pattern that starts the tuple is not joined. -/
theorem ofPattern_of_none (hx : s.tupleSource? = none) (p : Pattern) :
    Joining.ofPattern p s = [] := by
  unfold Joining.ofPattern
  dsimp only
  cases ((s.pushElement (.pattern p)).pushOrigin p.origin).scope.resolve p.joinTests with
  | error f => rfl
  | ok tests =>
    have hside := quiet_attachObjectSide p ((s.pushElement (.pattern p)).pushOrigin p.origin)
    change Joining.following (attachObjectSide p) _ _ = []
    unfold Joining.following
    cases hstep : attachObjectSide p ((s.pushElement (.pattern p)).pushOrigin p.origin) with
    | error f t => rfl
    | ok object t =>
      rw [hstep] at hside
      have hnone : t.tupleSource? = none := (congrArg Footing.tuple? hside.2.2).trans hx
      simp only [hnone]

theorem logs_ensureTuple (hs : s.footing.Poised) :
    s.Logs [] (fun _ o => s.footing.Begins o) (ensureTuple s) := by
  rw [ensureTuple, get_bind]
  cases hx : s.tupleSource? with
  | some x => exact logs_pure _ (.there (hs.tuple.1 (Option.isSome_iff_exists.2 ⟨x, hx⟩)))
  | none =>
    have hnil : s.scope = [] := by
      by_contra hscope
      obtain ⟨x, hsome⟩ := Option.isSome_iff_exists.1 (hs.tuple.2 hscope)
      rw [show s.tupleSource? = some x from hsome] at hx
      cases hx
    have hfirst : attachInitialFact s = attachPattern .initialFact s := by
      rw [attachInitialFact, get_bind, hx]
      rfl
    have hlogs := logs_attachPattern hs .initialFact
    rw [ofPattern_of_none hx] at hlogs
    simp only [Option.isNone_none, if_true, hfirst]
    refine hlogs.mono ?_
    rintro - o ⟨x, rfl⟩
    exact .started hnil x

/-! ### Negations, existence claims and calls -/

theorem logs_attachSingle (p : Pattern) :
    s.Logs [] (fun _ o => o = s.footing.record p) (attachSingle p s) := by
  refine Logs.inside ?_
  rw [get_bind]
  refine (Quiet.orFail _ _).last fun tests t ht => ?_
  refine (quiet_attachObjectSide p t).last fun source u hu => ?_
  rw [modify_bind, get_bind]
  exact (logs_pure _ (congrArg (·.record p) (hu.trans ht))).reached rfl rfl

theorem logs_attachSubnetwork (hs : s.footing.Poised) (hne : s.scope ≠ []) {members : Compile Unit}
    (left : NodeId) (h : s.Logs js (fun _ o => o.Poised ∧ s.scope <+: o.scope) (members s)) :
    s.Logs js (fun _ o => o.Stands s.scope) (attachSubnetwork left members s) := by
  rw [attachSubnetwork, get_bind]
  refine h.last fun _ t ht => ?_
  refine (quiet_requireTuple _ t).last fun last u hu => ?_
  refine (quiet_attachBeta _ _ u).last fun source v hv => ?_
  rw [modify_bind]
  rw [← hu, ← hv] at ht
  exact (logs_pure _ (hs.cut hne ht.1 ht.2 left)).reached rfl rfl

theorem logs_attachQuantified (hs : s.footing.Poised) (q : Quantifier) (members : List Element)
    {attachMembers : Compile Unit} {joined : Session → List Joining}
    (h : ∀ t : Session, t.footing.Poised →
      t.Logs (joined t) (fun _ o => o.Poised ∧ t.scope <+: o.scope) (attachMembers t)) :
    s.Logs (Joining.ofQuantified q members joined s) (fun _ o => o.Stands s.scope.started)
      (attachQuantified q members attachMembers s) := by
  have hjoin {t : Session} (ht : t.footing.Stands s.scope.started) (left : NodeId) (single : Bool)
      (right : RightInput) : t.Logs [] (fun _ o => o.Stands s.scope.started) ((do
        let memory := (← get).tupleMemory
        let node ← withTupleMemory (memory && !single)
          (attachJoin q.joinKind left right.source right.tests right.expiration?)
        modify ({ · with tupleSource? := some node }) : Compile Unit) t) := by
    rw [get_bind]
    refine Logs.last (Logs.withTupleMemory (quiet_attachJoin _ _ _ _ _ _)) fun node u hu => ?_
    have hu : u.footing = t.footing := hu
    rw [← hu] at ht
    exact ⟨logged_nil rfl, rfl, ht.source ht.ne_nil node⟩
  unfold attachQuantified Joining.ofQuantified
  by_cases hempty : members.isEmpty
  · simp only [hempty, if_true]
    exact logs_throw _
  · simp only [hempty]
    refine Logs.inside ?_
    refine Logs.first (logs_ensureTuple hs) fun _ t ht => ?_
    refine Logs.first (quiet_requireTuple _ t) fun left u hu => ?_
    have hstands : u.footing.Stands s.scope.started := hu ▸ hs.begins ht
    rw [get_bind]
    cases Element.single? members with
    | some p =>
      refine (logs_attachSingle p).last fun right v hv => hjoin ?_ left _ right
      exact hv ▸ hstands.record p
    | none =>
      have hsub := logs_attachSubnetwork hstands.poised hstands.ne_nil left (h u hstands.poised)
      refine hsub.last fun right v hv => hjoin ?_ left _ right
      rwa [show u.scope = s.scope.started from hstands.scope] at hv

theorem logs_patterns (hs : s.footing.Poised) (ps : List Pattern) :
    s.Logs (Joining.inTurn attachPattern Joining.ofPattern ps s)
      (fun _ o => o.Poised ∧ s.scope <+: o.scope) (ps.forM attachPattern s) := by
  induction ps generalizing s with
  | nil => exact logs_pure _ ⟨hs, List.prefix_rfl⟩
  | cons p ps ih =>
    refine (logs_attachPattern hs p).bind fun _ t ht => ?_
    obtain ⟨x, ht⟩ := ht
    have hstands := hs.extend x p
    rw [← ht] at hstands
    refine (ih hstands.poised).mono fun _ o ho => ⟨ho.1, ?_⟩
    exact (List.prefix_append s.scope [p]).trans (hstands.scope ▸ ho.2)

/-- What stands in the negation that a universal statement is. -/
theorem logs_universalMembers (hs : s.footing.Poised) (u : Universal) :
    s.Logs (Joining.ofPattern u.base s ++ Joining.following (attachPattern u.base) (fun _ =>
        Joining.ofQuantified .none u.inner (Joining.inTurn attachPattern Joining.ofPattern u.rest)) s)
      (fun _ o => o.Poised ∧ s.scope <+: o.scope)
      ((attachPattern u.base >>= fun _ =>
        attachQuantified .none u.inner (u.rest.forM attachPattern)) s) := by
  refine (logs_attachPattern hs _).bind fun _ t ht => ?_
  obtain ⟨x, ht⟩ := ht
  have hstands := hs.extend x u.base
  rw [← ht] at hstands
  refine (logs_attachQuantified hstands.poised .none _ fun v hv => logs_patterns hv _).mono ?_
  rintro - o ho
  have hscope : s.scope <+: t.scope := by
    rw [show t.scope = _ from hstands.scope]
    exact List.prefix_append _ _
  exact ⟨ho.poised, ho.scope ▸ hscope.trans (Element.scope_prefix_started _)⟩

theorem logs_attachUniversal (hs : s.footing.Poised) (base : Pattern) (rest : List Pattern) :
    s.Logs (Joining.ofUniversal base rest s) (fun _ o => o.Stands s.scope.started)
      (attachUniversal base rest s) :=
  have hweigh : (((s.pushElement (.every base rest)).pushOrigin .every).weigh
    (Universal.of base rest).guardsOnly).footing.Poised := hs
  Logs.inside (Logs.withGuardsOut (logs_attachQuantified hweigh .none _ fun _ ht =>
    logs_universalMembers ht _))

theorem logs_attachCall (hs : s.footing.Poised) (q : QueryCall) :
    s.Logs [] (fun _ o => ∃ o' x, s.footing.Begins o' ∧ o = o'.extend x q.result)
      (attachCall q s) := by
  have hcall : ((s.pushElement (.call q)).pushOrigin (.call q.query)).footing.Poised := hs
  refine Logs.inside ((logs_ensureTuple hcall).last fun _ t ht => ?_)
  refine (quiet_requireTuple _ t).last fun left u hu => ?_
  rw [get_bind]
  refine (Quiet.orFail _ u).last fun arguments v hv => ?_
  refine (quiet_attachBeta _ _ v).last fun node w hw => ?_
  refine ⟨logged_nil rfl, rfl, t.footing, node, ht, ?_⟩
  rw [← hu, ← hv, ← hw]
  rfl

/-! ### Elements -/

mutual

/-- **While an element is attached, just the joinings that are cross products are
    reported**, and its patterns come into scope. -/
theorem logs_attachElement : (e : Element) → ∀ {s : Session}, s.footing.Poised →
    s.Logs (Joining.ofElement e s) (fun _ o => o.Stands (e.scopeAfter s.scope)) (attachElement e s)
  | .pattern p, s, hs => by
    refine (logs_attachPattern hs p).mono ?_
    rintro - o ⟨x, rfl⟩
    exact hs.extend x p
  | .group .and members, s, hs => Logs.insideElement (logs_attachElements members hs)
  | .group .or _, _, _ => logs_throw _
  | .group .not members, s, hs => logs_attachQuantified hs .none members fun t ht => by
    refine (logs_attachElements members ht).mono fun _ o ho => ⟨ho.poised, ?_⟩
    exact ho.scope ▸ Element.scope_prefix_afterAll t.scope members
  | .group .exists members, s, hs => logs_attachQuantified hs .some members fun t ht => by
    refine (logs_attachElements members ht).mono fun _ o ho => ⟨ho.poised, ?_⟩
    exact ho.scope ▸ Element.scope_prefix_afterAll t.scope members
  | .every base rest, s, hs => logs_attachUniversal hs base rest
  | .call q, s, hs => by
    refine (logs_attachCall hs q).mono ?_
    rintro - o ⟨o', x, hbegins, rfl⟩
    have hstands := hs.begins hbegins
    have hresult := hstands.poised.extend x q.result
    rwa [hstands.scope] at hresult

theorem logs_attachElements : (es : List Element) → ∀ {s : Session}, s.footing.Poised →
    s.Logs (Joining.ofElements es s) (fun _ o => o.Stands (Element.scopeAfterAll s.scope es))
      (attachElements es s)
  | [], s, hs => logs_pure _ ⟨hs, rfl⟩
  | e :: es, s, hs => by
    refine (logs_attachElement e hs).bind fun _ t ht => ?_
    have hrest := logs_attachElements es ht.poised
    rwa [show t.scope = _ from ht.scope] at hrest

end

/-! ### Rules -/

theorem quiet_branchDistances (b : Branch) : Quiet (branchDistances b) := by
  refine .reads fun s => ?_
  split
  · exact (Quiet.orFail _).bind fun _ => .pure _
  · exact .pure _

theorem quiet_attachTerminal : Quiet attachTerminal :=
  (quiet_requireTuple _).bind fun _ => quiet_requireRule.bind fun _ => .reads fun _ =>
    quiet_createNode _ _

theorem logs_attachBranch (s : Session) (name : String) (b : Branch) :
    s.Logs (Joining.ofBranch name b s) (fun _ _ => True) (attachBranch name b s) := by
  rw [attachBranch, modify_bind, get_bind]
  refine Logs.reached (t := s.resetBranch) ?_ rfl rfl
  refine Logs.checked fun _ _ => ?_
  refine Logs.first (quiet_branchDistances b _) fun distances? t ht => ?_
  have hopened : ((t.opened name b distances?).pushElement b.body.toElement).footing.Poised :=
    ht ▸ Footing.poised_none
  rw [modify_bind]
  refine Logs.reached (t := { t with distances?, branch? := some b }) ?_ rfl rfl
  refine Logs.last (P := fun _ _ => True) (Logs.insideOrigin ?_) fun terminal u _ => ?_
  · refine (Logs.insideElement (logs_attachElements b.body.members hopened)).last fun _ u hu => ?_
    refine (logs_ensureTuple hu.poised).last fun _ v _ => ?_
    exact (quiet_attachTerminal v).mono fun _ _ _ => trivial
  · rw [get_bind]
    exact (Quiet.orFail _ u).last fun _ _ _ => logs_pure _ trivial

/-- **While a rule is attached, just the joinings that are cross products are
    reported.** -/
theorem logs_attachRule (s : Session) (r : Rule) :
    s.Logs (Joining.ofRule r s) (fun _ _ => True) (attachRule r s) := by
  refine Logs.checked fun bs hbs => ?_
  clear hbs
  induction bs generalizing s with
  | nil => exact logs_pure _ trivial
  | cons b bs ih =>
    rw [List.mapM_cons]
    refine (logs_attachBranch s r.name b).bind fun terminal t _ => ?_
    exact (ih t).last fun terminals u _ => logs_pure _ trivial

end Session

end RuleNet
