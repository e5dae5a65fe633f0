/-
  RuleNet — what a join has on its right.

  That is the facts of a pattern, and then the tests of the join are those of the
  pattern; or it is a subnetwork, and then there are none (`Kinds.Poses`).  Each join
  that a rule asks for is given this by the requests before it (`Posed`,
  `Rule.posed_requests`).

  A join is noted as a cross product if none of its tests counts, and guards, which
  count for one rule, do not count for another in a universal statement that leaves
  them out.  Between two joins that serve each other, this only shows where they
  have no other tests than guards.  So it does not show if no pattern that only
  guards relate to earlier ones, where they count, is about the same facts as one
  that nothing else relates where they do not (`Pattern.Apart`,
  `Kinds.Poses.noneCounts_eq`).
-/
import RuleNet.Proofs.Meaning
import RuleNet.Proofs.Scoping
import RuleNet.Proofs.Sides

namespace RuleNet

/-! ## Guards that are the only tests -/

namespace JoinTest

variable {ts us : List JoinTest} {g : Bool}

theorem noneCounts_cons (g : Bool) (t : JoinTest) (ts : List JoinTest) :
    noneCounts g (t :: ts) = (g && t.isGuard && noneCounts g ts) := by
  rw [noneCounts, weighed, List.filter_cons]
  cases g && t.isGuard <;> rfl

theorem noneCounts_append (g : Bool) (ts us : List JoinTest) :
    noneCounts g (ts ++ us) = (noneCounts g ts && noneCounts g us) := by
  induction ts with
  | nil => rfl
  | cons t ts ih => simp only [List.cons_append, noneCounts_cons, ih, Bool.and_assoc]

theorem noneCounts_false : noneCounts false ts ↔ ts = [] := by
  rw [noneCounts, weighed_false, List.isEmpty_iff]

/-- Where all tests count, none counts less. -/
theorem noneCounts_true_of_false (h : noneCounts false ts) : noneCounts true ts := by
  rw [noneCounts_false.1 h]
  rfl

theorem noneCounts_of_agree (h : agree g ts us) : noneCounts g ts = noneCounts g us := by
  rw [noneCounts, agree_iff.1 h, noneCounts]

end JoinTest

/-- In terms of positions, the same tests count. -/
theorem Scope.noneCounts_resolve {scope : Scope} {ts us : List JoinTest}
    (h : scope.resolve ts = .ok us) (g : Bool) :
    JoinTest.noneCounts g us = JoinTest.noneCounts g ts := by
  have hresolves := resolve_eq_ok h
  clear h
  induction hresolves with
  | nil => rfl
  | @cons t u ts us hresolves _ ih =>
    obtain ⟨i, -, rfl⟩ := hresolves
    have hguard : (t.retarget i).isGuard = t.isGuard := by cases t <;> rfl
    rw [JoinTest.noneCounts_cons, JoinTest.noneCounts_cons, hguard, ih]

namespace Pattern

/-- Only guards relate the pattern to earlier ones. -/
def RelatedByGuards (p : Pattern) : Prop := p.joinTests ≠ [] ∧ ¬ p.isRelated

/-- Both patterns are about the facts of one type and entry point that stand the
    same field tests. -/
structure SameFacts (p p' : Pattern) : Prop where
  entry : p.entry = p'.entry
  type : p.type = p'.type
  fieldTests : p.fieldTests = p'.fieldTests

/-- Where guards do not count, none of the tests counts if nothing else relates
    the pattern to earlier ones. -/
theorem noneCounts_joinTests (p : Pattern) :
    JoinTest.noneCounts true p.joinTests = !p.isRelated := by
  have hown : JoinTest.noneCounts true p.ownJoinTests =
      !p.ownJoinTests.any fun t => !t.isGuard := by
    induction p.ownJoinTests with
    | nil => rfl
    | cons t ts ih => simp [JoinTest.noneCounts_cons, ih]
  have htime : JoinTest.noneCounts true (p.timeTests.map TimeTest.toJoinTest) =
      p.timeTests.isEmpty := by
    cases p.timeTests with
    | nil => rfl
    | cons t ts => exact JoinTest.noneCounts_cons _ _ _
  rw [joinTests, JoinTest.noneCounts_append, hown, htime, isRelated]
  cases p.timeTests.isEmpty <;> simp

end Pattern

/-- How the tests of the patterns in an element are weighed: with guards left out,
    or not. -/
inductive Element.Weighs (e : Element) : Bool → Pattern → Prop where
  | pattern {p : Pattern} (inside : Occurs (.pattern p) e) : Weighs e false p
  | every {base p : Pattern} {rest : List Pattern} (inside : Occurs (.every base rest) e)
      (mem : p ∈ (Universal.of base rest).base :: (Universal.of base rest).rest) :
      Weighs e (Universal.of base rest).guardsOnly p

/-- How the tests of the patterns of some rules are weighed. -/
def Rule.Weigh (rs : List Rule) (guardsOut : Bool) (p : Pattern) : Prop :=
  ∃ r ∈ rs, r.body.toElement.Weighs guardsOut p

/-- A pattern that only guards relate to earlier ones, where they count, is about
    other facts than a pattern that nothing else relates, where they do not. -/
def Pattern.Apart (W : Bool → Pattern → Prop) : Prop :=
  ∀ p p', W false p → W true p' → p.RelatedByGuards → ¬ p'.isRelated → ¬ p.SameFacts p'

/-! ## What is joined -/

namespace Kinds

/-- The facts of a node: those of a type, from an entry point, that stand some
    field tests. -/
inductive Facts (kinds : Kinds) : NodeId → EntryPoint → Symbol → List FieldTest → Prop where
  | root {x : NodeId} {entry : EntryPoint} {type : Symbol} {memory : Bool}
      (kind : kinds x = some (.objectType entry type memory)) : Facts kinds x entry type []
  | alpha {x source : NodeId} {entry : EntryPoint} {type : Symbol} {ts : List FieldTest}
      {test : FieldTest} (kind : kinds x = some (.alpha source test))
      (above : Facts kinds source entry type ts) : Facts kinds x entry type (ts ++ [test])

/-- What a join has on its right, and its tests: those of a pattern, whose tests
    are weighed in a way that is allowed, or a subnetwork and none. -/
inductive Poses (kinds : Kinds) (W : Bool → Pattern → Prop) (g : Bool) (j : Join) : Prop where
  | pattern {p : Pattern} (weighed : W g p)
      (facts : kinds.Facts j.right p.entry p.type p.fieldTests)
      (tests : ∀ b, JoinTest.noneCounts b j.tests = JoinTest.noneCounts b p.joinTests)
  | subnetwork {last : NodeId} (adapter : kinds j.right = some (.rightInput last))
      (tests : j.tests = [])

variable {kinds kinds' : Kinds} {W : Bool → Pattern → Prop} {x : NodeId} {g g' : Bool} {j k : Join}
variable {entry entry' : EntryPoint} {type type' : Symbol} {ts ts' : List FieldTest}

theorem Facts.unique (h : kinds.Facts x entry type ts) (h' : kinds.Facts x entry' type' ts') :
    entry = entry' ∧ type = type' ∧ ts = ts' := by
  induction h generalizing entry' type' ts' with
  | root kind =>
    cases h' with
    | root kind' =>
      cases kind.symm.trans kind'
      exact ⟨rfl, rfl, rfl⟩
    | alpha kind' => cases kind.symm.trans kind'
  | alpha kind _ ih =>
    cases h' with
    | root kind' => cases kind.symm.trans kind'
    | alpha kind' above' =>
      cases kind.symm.trans kind'
      obtain ⟨rfl, rfl, rfl⟩ := ih above'
      exact ⟨rfl, rfl, rfl⟩

theorem Facts.not_adapter {last : NodeId} (h : kinds.Facts x entry type ts) :
    kinds x ≠ some (.rightInput last) := by
  intro hx
  cases h with
  | root kind | alpha kind => cases kind.symm.trans hx

theorem Facts.map {f : NodeId → NodeId} {r : RuleId → RuleId} (h : kinds.Facts x entry type ts)
    (hs : kinds.Served f r kinds') : kinds'.Facts (f x) entry type ts := by
  induction h with
  | root kind => exact .root (hs.kind kind (by simp))
  | alpha kind _ ih => exact .alpha (hs.kind kind (by simp)) ih

/-- Facts come down an object side. -/
theorem Bears.facts {s : Side} (h : kinds.Bears s) (hx : s.nodes.getLast? = some x) :
    kinds.Facts x s.pattern.entry s.pattern.type s.pattern.fieldTests :=
  h.last_induction (P := fun y ts => kinds.Facts y s.pattern.entry s.pattern.type ts) hx
    (fun _ _ hkind => .root hkind) fun _ _ _ _ hkind habove => .alpha hkind habove

theorem Poses.map {f : NodeId → NodeId} {r : RuleId → RuleId} (h : kinds.Poses W g j)
    (hs : kinds.Served f r kinds') (hright : k.right = f j.right) (htests : k.tests = j.tests) :
    kinds'.Poses W g k := by
  cases h with
  | pattern weighed facts tests =>
    exact .pattern weighed (hright ▸ facts.map hs) fun b => by rw [htests, tests]
  | subnetwork adapter tests =>
    exact .subnetwork (hright ▸ hs.kind adapter (by simp)) (htests.trans tests)

theorem Poses.mono (h : kinds.Poses W g j) (hw : kinds.Within kinds') : kinds'.Poses W g j :=
  h.map hw.served rfl rfl

/-- Of two joins of the same facts that have no tests but guards, the one for which
    guards count has none at all, if they do not count for the other. -/
theorem Poses.noneCounts_false_of_true (hW : Pattern.Apart W) (h : kinds.Poses W false j)
    (h' : kinds.Poses W true k) (hright : j.right = k.right)
    (hj : JoinTest.noneCounts true j.tests) (hk : JoinTest.noneCounts true k.tests) :
    JoinTest.noneCounts false j.tests := by
  by_contra hcounts
  rw [JoinTest.noneCounts_false] at hcounts
  cases h with
  | subnetwork _ tests => exact hcounts tests
  | @pattern p weighed facts tests =>
    have hguards : p.RelatedByGuards := by
      refine ⟨fun hnil => hcounts (JoinTest.noneCounts_false.1 ?_), ?_⟩
      · rw [tests, hnil]
        rfl
      · rw [tests, p.noneCounts_joinTests] at hj
        simpa using hj
    cases h' with
    | subnetwork adapter => exact facts.not_adapter (hright ▸ adapter)
    | @pattern p' weighed' facts' tests' =>
      obtain ⟨hentry, htype, hfield⟩ := facts.unique (hright ▸ facts')
      refine hW p p' weighed weighed' hguards ?_ ⟨hentry, htype, hfield⟩
      rw [tests', p'.noneCounts_joinTests] at hk
      simpa using hk

/-- **None of the tests of a join counts just if none of those counts that the node
    serving it was made with**, though guards may count for one and not for the
    other. -/
theorem Poses.noneCounts_eq (hW : Pattern.Apart W) (h : kinds.Poses W g k)
    (h' : kinds.Poses W g' j) (hserves : (NodeKind.join k).serves g' (.join j)) :
    JoinTest.noneCounts g k.tests = JoinTest.noneCounts g' j.tests := by
  obtain ⟨-, -, hright, -, hagree⟩ := NodeKind.serves_join.1 hserves
  have hsame := JoinTest.noneCounts_of_agree hagree
  have hbare : JoinTest.noneCounts true k.tests = JoinTest.noneCounts true j.tests := by
    rw [JoinTest.noneCounts, JoinTest.weighed_true_of_agree hagree, JoinTest.noneCounts]
  cases g <;> cases g'
  · exact hsame
  · rw [← hbare, Bool.eq_iff_iff]
    refine ⟨JoinTest.noneCounts_true_of_false, fun hk => ?_⟩
    exact h.noneCounts_false_of_true hW h' hright hk (hbare ▸ hk)
  · rw [hbare, Bool.eq_iff_iff]
    refine ⟨fun hj => ?_, JoinTest.noneCounts_true_of_false⟩
    exact h'.noneCounts_false_of_true hW h hright.symm hj (hbare ▸ hj)
  · exact hsame

end Kinds

/-! ## Drawing -/

section Drawing

open Draw

variable {W : Bool → Pattern → Prop} {steps new : List Request} {q : Request} {c : Setting}
variable {d : Draft} {p : Pattern} {tests : List JoinTest} {left : Nat}

/-- Each join that some steps ask for is given, by the steps before it, what it
    has on its right. -/
def Posed (W : Bool → Pattern → Prop) (steps : List Request) : Prop :=
  ∀ (i : Nat) (q : Request) (j : Join), steps[i]? = some q → q.kind = .join j →
    (stepKinds (steps.take i)).Poses W q.guardsOut j

theorem posed_nil (W : Bool → Pattern → Prop) : Posed W [] :=
  fun i q j hq => by cases hq

theorem posed_concat : Posed W (steps ++ [q]) ↔ Posed W steps ∧
    ∀ j, q.kind = .join j → (stepKinds steps).Poses W q.guardsOut j := by
  constructor
  · intro h
    refine ⟨fun i q' j hq hj => ?_, fun j hj => ?_⟩
    · have hi := (List.getElem?_eq_some_iff.1 hq).1
      have hposes := h i q' j (by rwa [List.getElem?_append_left hi]) hj
      rwa [List.take_append_of_le_length hi.le] at hposes
    · have hposes := h steps.length q j List.getElem?_concat_length hj
      rwa [List.take_left] at hposes
  · rintro ⟨h, hq⟩ i q' j hi hj
    obtain hi | ⟨rfl, rfl⟩ := getElem?_concat_cases hi
    · rw [List.take_append_of_le_length (List.getElem?_eq_some_iff.1 hi).1.le]
      exact h i q' j hi hj
    · rw [List.take_left]
      exact hq j hj

theorem Posed.append (h : Posed W steps) (hnew : ∀ q ∈ new, ∀ j, q.kind ≠ .join j) :
    Posed W (steps ++ new) := by
  induction new generalizing steps with
  | nil => rwa [List.append_nil]
  | cons q new ih =>
    obtain ⟨hq, hnew⟩ := List.forall_mem_cons.1 hnew
    rw [List.append_cons]
    exact ih (posed_concat.2 ⟨h, fun j hj => absurd hj (hq j)⟩) hnew

theorem Posed.snoc (h : Posed W steps) (hq : ∀ j, q.kind ≠ .join j) : Posed W (steps ++ [q]) :=
  posed_concat.2 ⟨h, fun j hj => absurd hj (hq j)⟩

namespace Draft

theorem posed_sided (h : Posed W d.steps) : Posed W (d.sided c p).steps :=
  h.append fun _ hq => not_join_of_mem_side hq

/-- A pattern is what is on the right where its object side is joined. -/
theorem poses_sided {j : Join} (hp : W c.guardsOut p)
    (htests : d.scope.resolve p.joinTests = .ok tests) (hj : j.tests = tests)
    (hright : j.right = p.sideEnd d.steps.length) :
    (stepKinds (d.sided c p).steps).Poses W c.guardsOut j :=
  .pattern hp (hright ▸ (bears_sided List.prefix_rfl).facts getLast?_sideNodes) fun b => by
    rw [hj, Scope.noneCounts_resolve htests]

theorem posed_joined (h : Posed W d.steps) (hp : d.tuple? ≠ none → W c.guardsOut p)
    (htests : d.scope.resolve p.joinTests = .ok tests) : Posed W (d.joined c p tests).steps := by
  rw [steps_joined]
  refine posed_concat.2 ⟨posed_sided h, fun j hj => ?_⟩
  cases ht : d.tuple? with
  | none =>
    rw [ht] at hj
    cases hj
  | some left =>
    rw [ht] at hj
    cases hj
    exact poses_sided (hp (by simp [ht])) htests rfl rfl

/-- The initial fact is joined to nothing. -/
theorem posed_started (h : Posed W d.steps) : Posed W (d.started c).steps := by
  cases ht : d.tuple? with
  | some i => rwa [started_of_some ht]
  | none =>
    rw [started_of_none ht]
    exact posed_joined h (fun hsome => absurd ht hsome) rfl

end Draft

namespace Draw

/-- Drawing leaves steps whose joins are given what they have on their right,
    whether or not it fails. -/
def Posing {α : Type} (W : Bool → Pattern → Prop) : EStateM.Result Fault Draft α → Prop :=
  Ends (fun d => Posed W d.steps) fun _ d => Posed W d.steps

theorem posing_pattern (h : Posed W d.steps) (hp : W c.guardsOut p) :
    Posing W (pattern c p d) :=
  ends_pattern h fun _ htests => Draft.posed_joined h (fun _ => hp) htests

theorem posing_patterns {ps : List Pattern} (h : Posed W d.steps)
    (hps : ∀ p ∈ ps, W c.guardsOut p) :
    Posing W (ps.forM (fun p => do let _ ← pattern c p : Pattern → Draw Unit) d) := by
  induction ps generalizing d with
  | nil => exact h
  | cons p ps ih =>
    obtain ⟨hp, hps⟩ := List.forall_mem_cons.1 hps
    have hdrop : Posing W ((do let _ ← pattern c p : Draw Unit) d) :=
      Ends.bind (posing_pattern h hp) fun _ _ h => h
    exact Ends.bind hdrop fun _ _ h => ih h hps

theorem posing_quantified {q : Session.Quantifier} {members : List Element}
    {drawMembers : Draw Unit} (h : Posed W d.steps)
    (hsingle : ∀ p, Element.single? members = some p → W c.guardsOut p)
    (hm : ∀ d : Draft, Posed W d.steps → Posing W (drawMembers d)) :
    Posing W (quantified c q members drawMembers d) := by
  have hs := Draft.posed_started (c := c) h
  refine ends_quantified h hs (fun left p tests _ hp htests => ?_) fun left _ _ => ?_
  · refine posed_concat.2 ⟨Draft.posed_sided hs, fun j hj => ?_⟩
    cases hj
    exact Draft.poses_sided (hsingle p hp) htests rfl rfl
  · refine (hm _ hs).mono fun _ d₂ hd₂ => ⟨hd₂, fun last _ => ?_⟩
    refine posed_concat.2 ⟨hd₂.snoc (by simp), fun j hj => ?_⟩
    cases hj
    exact .subnetwork (stepKinds_concat _ _) rfl

theorem posing_call {q : QueryCall} (h : Posed W d.steps) : Posing W (call c q d) := by
  have hs := Draft.posed_started (c := c) h
  exact ends_call hs fun _ _ _ _ => hs.snoc (by simp)

theorem posing_universal {base : Pattern} {rest : List Pattern} (h : Posed W d.steps)
    (hW : ∀ p ∈ (Universal.of base rest).base :: (Universal.of base rest).rest,
      W (Universal.of base rest).guardsOnly p) : Posing W (universal c base rest d) := by
  obtain ⟨hbase, hrest⟩ := List.forall_mem_cons.1 hW
  rw [universal]
  refine posing_quantified h (fun p hp => ?_) fun d₁ hd₁ => ?_
  · simp [Universal.outer, Element.single?] at hp
  refine Ends.bind (posing_pattern hd₁ hbase) fun _ d₂ hd₂ => ?_
  refine posing_quantified hd₂ (fun p hp => hrest p ?_) fun d₃ hd₃ => posing_patterns hd₃ hrest
  rw [Element.single?_map_pattern.1 hp]
  exact List.mem_singleton_self p

end Draw

/-- The patterns of an element are weighed in ways that are allowed. -/
def Element.Within (W : Bool → Pattern → Prop) (e : Element) : Prop :=
  ∀ g p, e.Weighs g p → W g p

theorem Element.within_group {conn : Connective} {members : List Element} :
    Element.Within W (.group conn members) ↔ ∀ e ∈ members, e.Within W := by
  constructor
  · intro h e he g p hp
    cases hp with
    | pattern inside => exact h _ _ (.pattern (.member he inside))
    | every inside mem => exact h _ _ (.every (.member he inside) mem)
  · intro h g p hp
    cases hp with
    | pattern inside =>
      obtain heq | ⟨e, he, inside⟩ := Element.occurs_group.1 inside
      · cases heq
      · exact h e he _ _ (.pattern inside)
    | every inside mem =>
      obtain heq | ⟨e, he, inside⟩ := Element.occurs_group.1 inside
      · cases heq
      · exact h e he _ _ (.every inside mem)

namespace Draw

/-- The pattern of a negation or existence claim is one of its members. -/
theorem within_single {conn : Connective} {members : List Element}
    (h : Element.Within W (.group conn members)) (hp : Element.single? members = some p) :
    W false p := by
  rw [Element.single?_eq_some_iff.1 hp] at h
  exact h _ _ (.pattern (.member (List.mem_singleton_self _) .self))

theorem posing_quantifiedMembers {q : Session.Quantifier} {conn : Connective}
    {members : List Element} {drawMembers : Draw Unit} (hc : c.guardsOut = false)
    (h : Posed W d.steps) (he : Element.Within W (.group conn members))
    (hm : ∀ d : Draft, Posed W d.steps → Posing W (drawMembers d)) :
    Posing W (quantified c q members drawMembers d) := by
  refine posing_quantified h (fun p hp => ?_) hm
  rw [hc]
  exact within_single he hp

mutual

theorem posing_element {d : Draft} (hc : c.guardsOut = false) (h : Posed W d.steps) :
    (e : Element) → e.Within W → Posing W (element c e d)
  | .pattern p, he => by
    rw [element]
    have hp : W c.guardsOut p := by
      rw [hc]
      exact he _ _ (.pattern .self)
    exact Ends.bind (posing_pattern h hp) fun _ _ h => h
  | .group .and members, he => by
    rw [element]
    exact posing_elements hc h members (Element.within_group.1 he)
  | .group .or _, _ => by
    rw [element]
    exact h
  | .group .not members, he => by
    rw [element]
    exact posing_quantifiedMembers hc h he fun d hd =>
      posing_elements hc hd members (Element.within_group.1 he)
  | .group .exists members, he => by
    rw [element]
    exact posing_quantifiedMembers hc h he fun d hd =>
      posing_elements hc hd members (Element.within_group.1 he)
  | .every _ _, he => by
    rw [element]
    exact posing_universal h fun p hp => he _ _ (.every .self hp)
  | .call _, _ => by
    rw [element]
    exact posing_call h

/-- **Drawing elements asks for joins that are given what they have on their
    right.** -/
theorem posing_elements {d : Draft} (hc : c.guardsOut = false) (h : Posed W d.steps) :
    (es : List Element) → (∀ e ∈ es, e.Within W) → Posing W (elements c es d)
  | [], _ => by
    rw [elements]
    exact h
  | e :: es, he => by
    rw [elements]
    obtain ⟨hfirst, hrest⟩ := List.forall_mem_cons.1 he
    exact Ends.bind (posing_element hc h e hfirst) fun _ _ h => posing_elements hc h es hrest

end

theorem posing_branch {config : Config} {query : Bool} {b : Branch} (h : Posed W d.steps)
    (hb : ∀ e ∈ b.body.members, e.Within W) : Posing W (branch config query b d) := by
  have hnext : Posed W d.nextBranch.steps := h
  refine ends_branch hnext fun distances? _ => ends_terminal ?_
  have hdrawn : Posing W (elements ⟨config.objectTypeMemory, distances?, false⟩ b.body.members
      d.nextBranch) := posing_elements rfl hnext _ hb
  exact hdrawn.mono fun _ d₁ hd₁ last _ => (Draft.posed_started hd₁).snoc (by simp)

end Draw

end Drawing

theorem Rule.posed_requests {W : Bool → Pattern → Prop} {r : Rule} (config : Config)
    (h : r.body.toElement.Within W) : Posed W (r.requests config) := by
  refine requests_of_ends (P := Posed W) (Draw.ends_check (posed_nil W) fun bs hbs => ?_)
  refine Draw.ends_mapM (posed_nil W) fun b hb d hd => ?_
  exact Draw.posing_branch hd
    (Body.branches_inherit (fun _ _ => Element.within_group) hbs h b hb)

theorem Rule.blueprint_requests {r : Rule} {config : Config} {b : Blueprint}
    (h : r.blueprint config = .ok b) : b.steps = r.requests config := by
  rw [blueprint] at h
  unfold requests
  cases hd : Draw.rule config r .empty with
  | ok _ d =>
    rw [hd] at h
    cases h
    rfl
  | error _ d =>
    rw [hd] at h
    cases h

end RuleNet
