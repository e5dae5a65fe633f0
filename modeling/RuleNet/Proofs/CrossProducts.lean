/-
  RuleNet — the reports of cross products.

  A pattern that is joined to a tuple is reported if no test that counts relates it
  to a pattern in scope; the join that is asked for is noted as a cross product if
  none of its tests counts.  Both are the same whenever a pattern is joined, as its
  tests have been resolved and there is a pattern in scope.  So a run reports each
  joining that is a cross product once, and nothing else (`cross_products_reported`).
-/
import RuleNet.Proofs.Joinings

namespace RuleNet

namespace Session

variable {α ε : Type} {s : Session} {js : List Joining} {P : α → Footing → Prop}

/-! ## Whole runs -/

theorem Logs.placeless {step : Compile α} (h : s.Logs js P (step s)) :
    s.Logs js P (placeless step s) := by
  cases hstep : step s with
  | ok a t =>
    rw [placeless_ok hstep]
    rwa [hstep] at h
  | error f t =>
    rw [placeless_error hstep]
    rwa [hstep] at h

theorem following_placeless (step : Compile α) (k : α → Session → List Joining) (s : Session) :
    Joining.following (placeless step) k s = Joining.following step k s := by
  unfold Joining.following
  cases hstep : step s with
  | ok a t => rw [placeless_ok hstep]
  | error f t => rw [placeless_error hstep]

/-- What is undone stays reported. -/
theorem Logs.orUndone {rule : RuleId} {step : Compile α} (h : s.Logs js P (step s)) :
    s.Logs js P (orUndone rule step s) := by
  unfold Session.orUndone
  cases hstep : step s with
  | ok a t => rwa [hstep] at h
  | error f t =>
    rw [hstep] at h
    obtain ⟨hdue, hinside, hreports⟩ := h
    exact ⟨hdue, hinside, hreports⟩

theorem quiet_take {f : Session → Except Fault (α × Session)}
    (h : ∀ s a t, f s = .ok (a, t) →
      t.footing = s.footing ∧ t.elements = s.elements ∧ t.reports = s.reports) :
    Quiet (take f) := by
  intro s
  cases hf : f s with
  | error fault =>
    rw [take_error hf]
    exact logs_throw fault
  | ok r =>
    obtain ⟨hfooting, helements, hreports⟩ := h s r.1 r.2 hf
    rw [take_ok hf]
    exact ⟨logged_nil hreports, helements, hfooting⟩

/-- Nothing is joined when a rule begins; what a session stands on is
    forgotten. -/
theorem logs_beginRule (s : Session) (r : Rule) : s.Logs [] (fun _ _ => True) (beginRule r s) := by
  have hreset : s.Logs [] (fun _ _ => True) (change resetRule s) := by
    cases hf : resetRule s with
    | error fault =>
      rw [change, get_bind, hf]
      exact logs_throw fault
    | ok t =>
      obtain ⟨⟨⟩, hbalanced, ht⟩ := Except.bind_inv hf
      cases ht
      rw [change_ok hf]
      exact ⟨logged_nil rfl, (bare_of_checkBalanced hbalanced).elements.symm, trivial⟩
  refine hreset.last fun _ t _ => Logs.last (quiet_take (fun s a t h => ?_) t) fun id u _ => ?_
  · obtain ⟨_, -, h⟩ := Except.bind_inv h
    cases h
    exact ⟨rfl, rfl, rfl⟩
  refine Logs.last (P := fun _ _ => True) ⟨logged_nil rfl, rfl, trivial⟩ fun partition v _ => ?_
  exact ⟨logged_nil rfl, rfl, trivial⟩

theorem quiet_finish : Quiet (take finish) := by
  refine quiet_take fun s a t h => ?_
  obtain ⟨-, -, h⟩ := Except.bind_inv h
  cases h
  exact ⟨rfl, rfl, rfl⟩

theorem quiet_registerRule (entry : RuleEntry) (attached : List Attached) :
    Quiet (registerRule entry attached) := by
  intro s
  rw [registerRule, get_bind]
  cases s.base.registerRule entry with
  | ok base => exact ⟨logged_nil rfl, rfl, rfl⟩
  | error fault => exact logged_nil rfl

/-- **While a rule is compiled, just the joinings that are cross products are
    reported**, whether or not compiling fails. -/
theorem logs_compile (s : Session) (r : Rule) :
    s.Logs (Joining.ofRun r s) (fun _ _ => True) (compile r s) := by
  rw [compile_eq, Joining.ofRun, ← following_placeless]
  refine (logs_beginRule s r).placeless.first fun begun t _ => ?_
  refine (logs_attachRule t r).orUndone.last fun terminals u _ => ?_
  refine (quiet_finish u).placeless.last fun attached v _ => ?_
  refine (quiet_registerRule _ _ v).placeless.last fun _ w _ => ?_
  have hannounce : Quiet (announce begun.1 (attached.map (·.id))) := fun _ =>
    ⟨logged_nil rfl, rfl, rfl⟩
  exact (hannounce w).placeless.last fun _ _ _ => logs_pure _ trivial

end Session

/-- **Both tests for a cross product agree, and each cross product is reported
    once.**  Let a rule be compiled in a session; adding a rule does so in a new one,
    and adding several in the one that the rules before have left.  Whenever a positive pattern
    is joined to the tuple at hand, no written test that counts relates it to a
    pattern in scope just if none of the tests counts that the wanted join has in
    terms of positions, by which this is noted as a cross product.  So the reports
    of the run are those of the joinings that are cross products, in order. -/
theorem cross_products_reported (s : Session) (r : Rule) :
    (∀ j ∈ Joining.ofRun r s, j.session.tupleSource? = some j.left ∧
      j.session.scope.resolve j.pattern.joinTests = .ok j.tests ∧
      Session.joinPattern j.pattern j.object j.tests j.session =
        Session.attachBeta (.join j.candidate) (j.session.expirationOf j.pattern) j.asking ∧
      j.session.scope.isCrossProduct j.pattern j.session.guardsOut =
        JoinTest.noneCounts j.session.guardsOut j.tests ∧
      j.candidate.crossProduct = JoinTest.noneCounts j.session.guardsOut j.tests) ∧
    ∃ new, (Outcome.of (Session.compile r s)).reports = s.reports.toList ++ new ∧
      List.Forall₂ Joining.Reported
        ((Joining.ofRun r s).filter (·.candidate.crossProduct)) new := by
  have hlogged := (Session.logs_compile s r).logged
  refine ⟨fun j hj => ?_, ?_⟩
  · have hdue := hlogged.due j hj
    exact ⟨hdue.left, hdue.tests, Session.joinPattern_eq_attachBeta hdue, hdue.agrees, rfl⟩
  · rw [← Session.reports_afterwards]
    exact hlogged.reports

end RuleNet
