/-
  RuleNet — warnings of cross products.

  The report of a cross product is a warning if the pattern attached before stands
  in a rule and no negation or existence claim encloses the joined one.  The
  pattern attached before need not be in scope: after a negation, existence claim
  or universal statement, it is a pattern inside that.  So a pattern that follows
  a leading negation is warned of, though the tuple at hand has the initial fact
  alone (`not_warnings_grounded_denied`).

  Nothing else goes wrong.  If, in each branch, a pattern without tests that
  follows such a claim also follows a pattern or call (`Rule.GroundsFirst`), then
  warnings are about tuples that have something of the rule (`warnings_grounded`).
  The elements attached so far tell what the tuple at hand has, and what may have
  been attached last (`Footing.Past`).
-/
import RuleNet.Proofs.CrossProducts

namespace RuleNet

/-! ## What a tuple has of a rule -/

/-- There is a fact of a written pattern, or an answer to one of the calls `C`, and
    so more than the initial fact. -/
structure Scope.Grounded (C : QueryCall → Prop) (scope : Scope) : Prop where
  written : ∃ p ∈ scope, ¬ p.isSynthetic ∨ ∃ q, C q ∧ q.result = p
  more : scope ≠ [.initialFact]

namespace Scope

variable {C : QueryCall → Prop} {scope scope' : Scope}

theorem Grounded.mono (h : scope.Grounded C) (hpre : scope <+: scope') : scope'.Grounded C := by
  obtain ⟨p, hp, hwritten⟩ := h.written
  refine ⟨⟨p, hpre.subset hp, hwritten⟩, fun hinitial => ?_⟩
  rw [hinitial, List.prefix_cons_iff] at hpre
  obtain rfl | ⟨scope, rfl, hnil⟩ := hpre
  · cases hp
  · rw [List.prefix_nil.1 hnil] at h
    exact h.more rfl

theorem grounded_of_mem {p : Pattern} (hp : p ∈ scope) (hwritten : ¬ p.isSynthetic) :
    scope.Grounded C := by
  refine ⟨⟨p, hp, .inl hwritten⟩, fun hinitial => ?_⟩
  rw [hinitial, List.mem_singleton] at hp
  exact hwritten (hp ▸ rfl)

/-- A test refers to a written pattern. -/
theorem grounded_of_resolve {ts us : List JoinTest} (h : scope.resolve ts = .ok us)
    (hts : ts ≠ []) : scope.Grounded C := by
  cases resolve_eq_ok h with
  | nil => exact (hts rfl).elim
  | cons hresolves _ =>
    obtain ⟨i, hdeclares, -⟩ := hresolves
    obtain ⟨p, hp, -, hwritten⟩ := hdeclares.pattern
    exact grounded_of_mem (List.mem_of_getElem? hp) hwritten

/-- The answer to a call is not the only fact of a tuple. -/
theorem grounded_call {q : QueryCall} (hq : C q) (hscope : scope ≠ []) :
    Grounded C (scope ++ [q.result]) where
  written := ⟨q.result, List.mem_append_right _ List.mem_cons_self, .inr ⟨q, hq, rfl⟩⟩
  more hinitial := by
    rw [List.append_eq_singleton_iff] at hinitial
    obtain ⟨hnil, -⟩ | ⟨-, hanswer⟩ := hinitial
    · exact hscope hnil
    · cases hanswer

end Scope

/-! ## What stands in a branch -/

namespace Element

mutual

/-- What an element consists of, conjunctions being taken apart. -/
def parts : Element → List Element
  | pattern p => [pattern p]
  | group .and members => partsAll members
  | group .or members => [group .or members]
  | group .not members => [group .not members]
  | group .exists members => [group .exists members]
  | every base rest => [every base rest]
  | call q => [call q]

/-- What some elements consist of. -/
def partsAll : List Element → List Element
  | [] => []
  | e :: es => e.parts ++ partsAll es

end

/-- Whether an element tests a tuple without extending it: it is a negation, an
    existence claim or a universal statement. -/
def IsClaim : Element → Prop
  | group .not _ | group .exists _ | every .. => True
  | _ => False

/-- Whether an element extends a tuple by something of the rule. -/
def Grounds : Element → Prop
  | pattern p => ¬ p.isSynthetic
  | call _ => True
  | _ => False

/-- A pattern without tests that follows a claim also follows something that
    extends the tuple. -/
def GroundsFirst (es : List Element) : Prop :=
  ∀ before p after, es = before ++ .pattern p :: after → p.joinTests = [] →
    (∃ e ∈ before, e.IsClaim) → ∃ e ∈ before, e.Grounds

/-- Elements that begin with a pattern are such. -/
theorem groundsFirst_cons {p : Pattern} (hp : ¬ p.isSynthetic) (es : List Element) :
    GroundsFirst (.pattern p :: es) := by
  rintro before p' after hes - hclaim
  cases before with
  | nil =>
    obtain ⟨e, he, -⟩ := hclaim
    cases he
  | cons e before =>
    rw [List.cons_append, List.cons.injEq] at hes
    exact ⟨e, List.mem_cons_self, hes.1 ▸ hp⟩

end Element

/-- So it is in each branch of a rule. -/
def Rule.GroundsFirst (r : Rule) : Prop :=
  ∀ bs, r.body.branches = .ok bs → ∀ b ∈ bs, Element.GroundsFirst (Element.partsAll b.body.members)

/-! ## The tuple at hand -/

namespace Footing

/-- Where a session stands after the elements `before`. -/
structure Past (C : QueryCall → Prop) (before : List Element) (o : Footing) : Prop where
  poised : o.Poised
  scope : (∃ e ∈ before, e.Grounds) → o.scope.Grounded C
  /-- A written pattern was attached for something that has been attached. -/
  latest : ∀ p, o.recent.latest? = some p → ¬ p.isSynthetic → ∃ e ∈ before, e.IsClaim ∨ e.Grounds

theorem past_none (C : QueryCall → Prop) : none.Past C [] where
  poised := poised_none
  scope := by simp
  latest := by simp [none, Recent.none]

variable {C : QueryCall → Prop} {o o' : Footing} {before : List Element}

theorem Past.pattern (h : o.Past C before) (x : NodeId) (p : Pattern) :
    (o.extend x p).Past C (before ++ [.pattern p]) where
  poised := (h.poised.extend x p).poised
  scope := by
    rintro ⟨e, he, hgrounds⟩
    obtain he | he := List.mem_append.1 he
    · exact (h.scope ⟨e, he, hgrounds⟩).mono (List.prefix_append _ _)
    · obtain rfl := List.mem_singleton.1 he
      exact Scope.grounded_of_mem (List.mem_append_right _ List.mem_cons_self) hgrounds
  latest := by
    rintro _ ⟨rfl⟩ hwritten
    exact ⟨_, List.mem_append_right _ List.mem_cons_self, .inr hwritten⟩

theorem Past.call (h : o.Past C before) (hbegins : o.Begins o') (x : NodeId) {q : QueryCall}
    (hq : C q) : (o'.extend x q.result).Past C (before ++ [.call q]) where
  poised := ((h.poised.begins hbegins).poised.extend x q.result).poised
  scope _ := Scope.grounded_call hq (h.poised.begins hbegins).ne_nil
  latest _ _ _ := ⟨_, List.mem_append_right _ List.mem_cons_self, .inr trivial⟩

theorem Past.claim (h : o.Past C before) {e : Element} (he : e.IsClaim)
    (hstands : o'.Stands o.scope.started) : o'.Past C (before ++ [e]) where
  poised := hstands.poised
  scope := by
    rintro ⟨e', he', hgrounds⟩
    obtain he' | he' := List.mem_append.1 he'
    · exact hstands.scope ▸ (h.scope ⟨e', he', hgrounds⟩).mono (Element.scope_prefix_started _)
    · -- what claims something does not extend the tuple
      obtain rfl := List.mem_singleton.1 he'
      cases e' <;> simp_all [Element.IsClaim, Element.Grounds]
  latest _ _ _ := ⟨e, List.mem_append_right _ List.mem_cons_self, .inl he⟩

end Footing

namespace Session

variable {C : QueryCall → Prop} {s : Session}

mutual

/-- **What has been attached tells what the tuple at hand has.** -/
theorem past_attachElement : (e : Element) → ∀ {s : Session} {before : List Element},
    s.footing.Past C before → (∀ q ∈ e.calls, C q) →
      s.Logs (Joining.ofElement e s) (fun _ o => o.Past C (before ++ e.parts)) (attachElement e s)
  | .pattern p, s, before, hs, _ => by
    refine (logs_attachPattern hs.poised p).mono ?_
    rintro - o ⟨x, rfl⟩
    exact hs.pattern x p
  | .group .and members, s, before, hs, hC => Logs.insideElement (past_attachElements members hs hC)
  | .group .or _, _, _, _, _ => logs_throw _
  | .group .not members, s, before, hs, _ =>
    (logs_attachElement (.group .not members) hs.poised).mono fun _ _ => hs.claim trivial
  | .group .exists members, s, before, hs, _ =>
    (logs_attachElement (.group .exists members) hs.poised).mono fun _ _ => hs.claim trivial
  | .every base rest, s, before, hs, _ =>
    (logs_attachElement (.every base rest) hs.poised).mono fun _ _ => hs.claim trivial
  | .call q, s, before, hs, hC => by
    refine (logs_attachCall hs.poised q).mono ?_
    rintro - o ⟨o', x, hbegins, rfl⟩
    exact hs.call hbegins x (hC q List.mem_cons_self)

theorem past_attachElements : (es : List Element) → ∀ {s : Session} {before : List Element},
    s.footing.Past C before → (∀ q ∈ Element.callsList es, C q) →
      s.Logs (Joining.ofElements es s) (fun _ o => o.Past C (before ++ Element.partsAll es))
        (attachElements es s)
  | [], s, before, hs, _ => logs_pure _ (by rwa [Element.partsAll, List.append_nil])
  | e :: es, s, before, hs, hC => by
    rw [Element.callsList, List.forall_mem_append] at hC
    refine (past_attachElement e hs hC.1).bind fun _ t ht => ?_
    rw [Element.partsAll, ← List.append_assoc]
    exact past_attachElements es ht hC.2

end

end Session

/-! ## Joinings that deserve a warning -/

namespace Joining

open Session

variable {α β ε : Type} {C : QueryCall → Prop} {s : Session} {j : Joining}

/-- Whether the pattern is joined to something of the rule if its report is a
    warning. -/
def Deserved (C : QueryCall → Prop) (j : Joining) : Prop :=
  ∀ c, j.Reported c → c.warning → j.session.scope.Grounded C

theorem mem_following {step : EStateM ε Session α} {k : α → Session → List Joining}
    (h : j ∈ following step k s) : ∃ a t, step s = .ok a t ∧ j ∈ k a t := by
  unfold following at h
  split at h
  · exact ⟨_, _, ‹_›, h⟩
  · cases h

/-- What is joined after a step is joined from where that step ends. -/
theorem mem_following_of_logs {step : EStateM ε Session α} {k : α → Session → List Joining}
    {js : List Joining} {P : α → Footing → Prop} (hstep : s.Logs js P (step s))
    (h : j ∈ following step k s) :
    ∃ a t, j ∈ k a t ∧ t.elements = s.elements ∧ P a t.footing := by
  obtain ⟨a, t, hok, h⟩ := mem_following h
  rw [hok] at hstep
  exact ⟨a, t, h, hstep.2⟩

theorem mem_inTurn {step : β → Compile α} {joined : β → Session → List Joining} {bs : List β}
    (h : j ∈ inTurn step joined bs s) : ∃ b ∈ bs, ∃ t, j ∈ joined b t := by
  induction bs generalizing s with
  | nil => cases h
  | cons b bs ih =>
    obtain h | h := List.mem_append.1 h
    · exact ⟨b, List.mem_cons_self, s, h⟩
    · obtain ⟨_, t, -, h⟩ := mem_following h
      obtain ⟨b', hb', h⟩ := ih h
      exact ⟨b', List.mem_cons_of_mem _ hb', h⟩

/-- A pattern is joined to the tuple at hand, after the pattern attached last. -/
theorem mem_ofPattern {p : Pattern} (h : j ∈ ofPattern p s) :
    j.pattern = p ∧ j.session.scope = s.scope ∧ j.session.recent.previous? = s.recent.latest? := by
  obtain ⟨tests, t, h, -, ht⟩ := mem_following_of_logs (Quiet.orFail _ _) h
  obtain ⟨object, u, h, -, hu⟩ := mem_following_of_logs (quiet_attachObjectSide p t) h
  have hfooting : u.footing = s.footing := hu.trans ht
  split at h
  · cases h
  · rw [List.mem_singleton.1 h]
    exact ⟨rfl, congrArg Footing.scope hfooting,
      congrArg (fun o => o.recent.latest?) hfooting⟩

/-- What is joined inside a negation or existence claim is enclosed by it. -/
theorem mem_ofQuantified {q : Quantifier} {members : List Element}
    {joined : Session → List Joining} (hs : s.footing.Poised)
    (hjoined : ∀ t : Session, t.footing.Poised → ∀ j ∈ joined t, t.elements <:+ j.session.elements)
    (h : j ∈ ofQuantified q members joined s) :
    .group q.connective members ∈ j.session.elements := by
  unfold ofQuantified at h
  split at h
  · cases h
  have hensure := logs_ensureTuple
    (s := (s.pushElement (.group q.connective members)).pushOrigin q.origin) hs
  obtain ⟨_, t, h, ht, hbegins⟩ := mem_following_of_logs hensure h
  obtain ⟨_, u, h, hu, hfooting⟩ := mem_following_of_logs (quiet_requireTuple _ t) h
  have hpoised : u.footing.Poised := hfooting ▸ (Footing.Poised.begins hs hbegins).poised
  split at h
  · cases h
  refine (hjoined u hpoised j h).subset ?_
  rw [hu, ht]
  exact List.mem_cons_self

/-- What a negation or existence claim encloses is not warned of. -/
theorem deserved_of_mem {q : Quantifier} {members : List Element}
    (h : .group q.connective members ∈ j.session.elements) : j.Deserved C := by
  rintro c ⟨previous, -, rfl⟩ hwarning
  have hencloses : Stack.encloses q.connective j.session.elements :=
    List.any_eq_true.2 ⟨_, h, beq_self_eq_true q.connective⟩
  cases q with
  | none =>
    rw [report, show Stack.encloses .not j.session.elements = true from hencloses] at hwarning
    simp at hwarning
  | some =>
    rw [report, show Stack.encloses .exists j.session.elements = true from hencloses] at hwarning
    simp at hwarning

/-- A universal statement is a negation. -/
theorem deserved_ofUniversal {base : Pattern} {rest : List Pattern} (hs : s.footing.Poised)
    (h : j ∈ ofUniversal base rest s) : j.Deserved C := by
  unfold ofUniversal at h
  refine deserved_of_mem (mem_ofQuantified ?_ (fun t ht => ?_) h)
  · exact hs
  · exact (logs_universalMembers ht (.of base rest)).logged.inside

theorem deserved_ofPattern {before : List Element} (hs : s.footing.Past C before) {p : Pattern}
    (hfirst : p.joinTests = [] → (∃ e ∈ before, e.IsClaim) → ∃ e ∈ before, e.Grounds)
    (h : j ∈ ofPattern p s) : j.Deserved C := by
  rintro c ⟨previous, hprevious, rfl⟩ hwarning
  obtain ⟨hpattern, hscope, hrecent⟩ := mem_ofPattern h
  rw [hscope]
  have hwritten : ¬ previous.isSynthetic := by
    intro hsynthetic
    rw [report, hsynthetic] at hwarning
    cases hwarning
  obtain ⟨e, he, hclaim | hgrounds⟩ := hs.latest previous (hrecent ▸ hprevious) hwritten
  · by_cases htests : p.joinTests = []
    · exact hs.scope (hfirst htests ⟨e, he, hclaim⟩)
    · have hdue := (logs_attachPattern hs.poised p).logged.due j h
      rw [← hpattern] at htests
      exact hscope ▸ Scope.grounded_of_resolve hdue.tests htests
  · exact hs.scope ⟨e, he, hgrounds⟩

mutual

/-- **Warnings are deserved while an element is attached** that stands well among
    the others. -/
theorem deserved_ofElement : (e : Element) → ∀ {s : Session} {before after : List Element},
    Element.GroundsFirst (before ++ e.parts ++ after) → s.footing.Past C before →
      (∀ q ∈ e.calls, C q) → ∀ j ∈ ofElement e s, j.Deserved C
  | .pattern p, s, before, after, hfirst, hs, _, j, hj =>
    deserved_ofPattern hs (hfirst before p after (by simp [Element.parts])) hj
  | .group .and members, s, before, after, hfirst, hs, hC, j, hj =>
    deserved_ofElements members hfirst (s := s.pushElement (.group .and members)) hs hC j hj
  | .group .or _, _, _, _, _, _, _, _, hj => by cases hj
  | .group .not members, s, before, after, _, hs, _, j, hj =>
    deserved_of_mem (mem_ofQuantified (q := .none) hs.poised
      (fun _ ht => (logs_attachElements members ht).logged.inside) hj)
  | .group .exists members, s, before, after, _, hs, _, j, hj =>
    deserved_of_mem (mem_ofQuantified (q := .some) hs.poised
      (fun _ ht => (logs_attachElements members ht).logged.inside) hj)
  | .every base rest, s, before, after, _, hs, _, j, hj =>
    deserved_ofUniversal hs.poised hj
  | .call _, _, _, _, _, _, _, _, hj => by cases hj

theorem deserved_ofElements : (es : List Element) → ∀ {s : Session} {before after : List Element},
    Element.GroundsFirst (before ++ Element.partsAll es ++ after) → s.footing.Past C before →
      (∀ q ∈ Element.callsList es, C q) → ∀ j ∈ ofElements es s, j.Deserved C
  | [], _, _, _, _, _, _, _, hj => by cases hj
  | e :: es, s, before, after, hfirst, hs, hC, j, hj => by
    rw [Element.callsList, List.forall_mem_append] at hC
    rw [Element.partsAll, ← List.append_assoc] at hfirst
    obtain hj | hj := List.mem_append.1 hj
    · rw [List.append_assoc] at hfirst
      exact deserved_ofElement e hfirst hs hC.1 j hj
    · obtain ⟨_, t, ht, hj⟩ := mem_following hj
      have hpast := past_attachElement e hs hC.1
      rw [ht] at hpast
      exact deserved_ofElements es hfirst hpast.2.2 hC.2 j hj

end

theorem deserved_ofBranch {name : String} {b : Branch}
    (hfirst : Element.GroundsFirst (Element.partsAll b.body.members))
    (hC : ∀ q ∈ Element.callsList b.body.members, C q) (h : j ∈ ofBranch name b s) :
    j.Deserved C := by
  obtain ⟨_, t, h, -, ht⟩ := mem_following_of_logs (Quiet.orFail _ _) h
  obtain ⟨distances?, u, h, -, hu⟩ := mem_following_of_logs (quiet_branchDistances b t) h
  have hfooting : u.footing = .none := hu.trans ht
  have hstart : u.footing.Past C [] := hfooting ▸ Footing.past_none C
  rw [← List.append_nil (Element.partsAll _), ← List.nil_append (Element.partsAll _)] at hfirst
  exact deserved_ofElements _ hfirst (s := (u.opened name b distances?).pushElement _) hstart hC j h

theorem deserved_ofRun {r : Rule} (hr : r.GroundsFirst) (h : j ∈ ofRun r s) :
    j.Deserved r.Calls := by
  obtain ⟨_, t, -, h⟩ := mem_following h
  cases hbranches : r.body.branches with
  | error f =>
    rw [ofRule, hbranches] at h
    cases h
  | ok bs =>
    rw [ofRule, hbranches] at h
    obtain ⟨b, hb, u, h⟩ := mem_inTurn h
    exact deserved_ofBranch (hr bs hbranches b hb) (r.calls_of_branch hbranches hb) h

end Joining

/-! ## Warnings -/

/-- **Warnings of cross products are no false alarms** in rules in which a pattern
    without tests that follows a claim also follows a pattern or call.  Let such a
    rule be compiled in a session.  The reports of the run are those of the
    joinings that are cross products, in order, and where a report is a warning,
    the pattern is joined to a tuple that has a fact of a written pattern or an
    answer to a call, and not to the initial fact alone. -/
theorem warnings_grounded (s : Session) {r : Rule} (hr : r.GroundsFirst) :
    ∃ new, (Outcome.of (Session.compile r s)).reports = s.reports.toList ++ new ∧
      List.Forall₂ (fun j c => j.Reported c ∧ (c.warning → j.session.scope.Grounded r.Calls))
        ((Joining.ofRun r s).filter (·.candidate.crossProduct)) new := by
  obtain ⟨new, hnew, hreported⟩ := (Session.logs_compile s r).logged.reports
  rw [Session.reports_afterwards] at hnew
  have hdeserved : ∀ j ∈ (Joining.ofRun r s).filter (·.candidate.crossProduct),
      j.Deserved r.Calls := fun j hj =>
    Joining.deserved_ofRun hr (List.mem_of_mem_filter hj)
  refine ⟨new, hnew, ((List.forall₂_and_left _ _).2 ⟨hdeserved, hreported⟩).imp ?_⟩
  exact fun j c ⟨hj, hc⟩ => ⟨hc, hj c hc⟩

/-- A rule with a claim between two patterns that no test relates. -/
def Rule.parted : Rule where
  name := "parted"
  body := ⟨.and, [.pattern { offset := 0, type := 2 },
    .group .not [.pattern { offset := 1, type := 3 }], .pattern { offset := 2, type := 4 }]⟩

/-- The author is warned of the last pattern, which is joined to the first one. -/
theorem warnings_grounded_parted : Rule.parted.GroundsFirst ∧
    ∃ j ∈ Joining.ofRun .parted (.start (.empty {})),
      j.Reported ⟨true, "parted", { offset := 2, type := 4 }, { offset := 1, type := 3 }⟩ ∧
        j.session.scope.Grounded Rule.parted.Calls := by
  have hfirst : Rule.parted.GroundsFirst := by
    intro bs hbs b hb
    cases hbs
    rw [List.mem_singleton.1 hb]
    exact Element.groundsFirst_cons (by decide) _
  have hreports : (Outcome.of (Session.compile .parted (.start (.empty {})))).reports =
      [⟨true, "parted", { offset := 2, type := 4 }, { offset := 1, type := 3 }⟩] := by
    decide +kernel
  obtain ⟨new, hnew, hgrounded⟩ := warnings_grounded (.start (.empty {})) hfirst
  rw [hreports] at hnew
  obtain rfl : _ = new := hnew
  obtain ⟨j, _, ⟨hreported, hscope⟩, -, hjs⟩ := List.forall₂_cons_right_iff.1 hgrounded
  have hj := List.mem_filter.1 (hjs ▸ List.mem_cons_self)
  exact ⟨hfirst, j, hj.1, hreported, hscope rfl⟩

/-- A rule that begins with a claim and goes on with a pattern. -/
def Rule.denied : Rule where
  name := "denied"
  body := ⟨.and, [.group .not [.pattern { offset := 0, type := 2 }],
    .pattern { offset := 1, type := 3 }]⟩

/-- The author is warned of the pattern, though it is the only one joined, to the
    initial fact alone. -/
theorem not_warnings_grounded_denied :
    ((RuleBase.empty {}).add .denied).reports =
        [⟨true, "denied", { offset := 1, type := 3 }, { offset := 0, type := 2 }⟩] ∧
      (Joining.ofRun .denied (.start (.empty {}))).map (fun j => (j.pattern, j.session.scope)) =
        [({ offset := 1, type := 3 }, [.initialFact])] := by
  constructor <;> decide +kernel

end RuleNet
