/-
  RuleNet — compiling a rule never breaks a promise of its own.

  Of the faults that a compilation knows, only those that lie in a rule are ever
  raised: a name that is taken, a group that must not be empty, a reference to
  nothing, times that contradict each other (`Fault.InRule`).  That this is so is
  told by the blueprint: drawing a branch without disjunctions fails for nothing
  else (`Draft.fails_elements`), and the compilation fails as drawing does.

  When a compilation fails, what was attached is undone.  Each of these steps
  could fail itself; none does (`RuleBase.Traced.unwinds`).  Either way both
  stacks are empty in the end.

  Main result: `RuleBase.add_keeps_contract`.
-/
import RuleNet.Proofs.Acceptance
import RuleNet.Proofs.Distances
import RuleNet.Proofs.Sessions

namespace RuleNet

/-! ## Faults in rules -/

namespace Fault

/-- The faults for which a branch without disjunctions cannot be drawn. -/
inductive InBranch : Fault → Prop
  /-- Nothing that is in scope has the offset. -/
  | unbound (offset : Offset) (reading : Reading) : InBranch (.unboundDeclaration offset reading)
  /-- A negation or existence claim is empty. -/
  | emptyGroup (q : Session.Quantifier) : InBranch (.unexpectedElement q.emptyGroup)

variable {f : Fault}

end Fault

/-! ## Checks -/

namespace Except

variable {ε α β : Type} {E : ε → Prop}

theorem ends_mapM {f : α → Except ε β} {l : List α}
    (hf : ∀ a ∈ l, Ends E (fun _ => True) (f a)) : Ends E (fun _ => True) (l.mapM f) := by
  induction l with
  | nil => trivial
  | cons a l ih =>
    rw [List.mapM_cons]
    refine (hf a List.mem_cons_self).bind fun b _ => ?_
    exact (ih fun a ha => hf a (List.mem_cons_of_mem _ ha)).bind fun _ _ => trivial

end Except

namespace Scope

variable {scope : Scope} {offset : Offset} {reading : Reading}

theorem ends_position :
    Except.Ends Fault.InBranch (fun _ => True) (scope.position offset reading) := by
  unfold position
  cases scope.find offset with
  | some position => trivial
  | none => exact .unbound offset reading

theorem ends_resolve (ts : List JoinTest) :
    Except.Ends Fault.InBranch (fun _ => True) (scope.resolve ts) :=
  Except.ends_mapM fun _ _ => ends_position.bind fun _ _ => trivial

theorem ends_resolveArguments (as : List Argument) :
    Except.Ends Fault.InBranch (fun _ => True) (scope.resolveArguments as) := by
  refine Except.ends_mapM fun a _ => ?_
  cases a with
  | literal v => trivial
  | bound read => exact ends_position.bind fun _ _ => trivial

end Scope

namespace Element

mutual

/-- A body cannot be split only where a disjunction in it is empty. -/
theorem ends_branches : (e : Element) →
    Except.Ends (· = .unexpectedElement .emptyOr) (fun _ => True) e.branches
  | pattern _ | every .. | call _ => by rw [branches]; trivial
  | group .and members => by
    rw [branches]
    exact ends_choices members
  | group .or members => by
    rw [branches]
    split
    · rfl
    · exact ends_alternatives members
  | group .not members => by
    rw [branches]
    split
    · exact (ends_choices members).bind fun _ _ => trivial
    · trivial
  | group .exists members => by
    rw [branches]
    split
    · exact (ends_choices members).bind fun _ _ => trivial
    · trivial

theorem ends_choices : (es : List Element) →
    Except.Ends (· = .unexpectedElement .emptyOr) (fun _ => True) (choices es)
  | [] => trivial
  | e :: es => by
    rw [choices]
    exact (ends_branches e).bind fun _ _ => (ends_choices es).bind fun _ _ => trivial

theorem ends_alternatives : (es : List Element) →
    Except.Ends (· = .unexpectedElement .emptyOr) (fun _ => True) (alternatives es)
  | [] => trivial
  | e :: es => by
    rw [alternatives]
    exact (ends_branches e).bind fun _ _ => (ends_alternatives es).bind fun _ _ => trivial

end

end Element

theorem Body.ends_branches (body : Body) :
    Except.Ends (· = .unexpectedElement .emptyOr) (fun _ => True) body.branches := by
  unfold branches
  split
  · exact (Element.ends_branches body.toElement).bind fun _ _ => trivial
  · trivial

/-- No disjunction stands in a branch, whatever the group is that it comes
    from. -/
theorem Body.hasOr_of_branches {body : Body} {bs : List Branch} (h : body.branches = .ok bs) :
    ∀ b ∈ bs, Element.hasOrList b.body.members = false := by
  intro b hb
  have hfree := (splits_branches (default : Interpretation Unit) h).2.1 b hb
  rw [hasOr, toElement, Element.hasOr, Bool.or_eq_false_iff] at hfree
  exact hfree.2

namespace Draw

variable {α β : Type} {E E' : Fault → Prop} {G : Draft → Prop} {P : α → Draft → Prop}
variable {m : Draw α} {k : α → Draw β} {d : Draft} {c : Setting} {p : Pattern}

/-- If drawing fails, it is for a fault of a certain kind. -/
def Fails (E : Fault → Prop) : EStateM.Result Fault Draft α → Prop
  | .ok _ _ => True
  | .error f _ => E f

theorem Fails.mono {r : EStateM.Result Fault Draft α} (h : Fails E r) (hE : ∀ f, E f → E' f) :
    Fails E' r := by
  cases r with
  | ok a d => trivial
  | error f d => exact hE f h

theorem Fails.bind (h : Fails E (m d)) (hends : Ends G P (m d))
    (hk : ∀ a d', P a d' → Fails E (k a d')) : Fails E ((m >>= k) d) := by
  cases hm : m d with
  | ok a d' =>
    rw [hm] at hends
    rw [Session.bind_ok hm]
    exact hk a d' hends
  | error f d' =>
    rw [hm] at h
    rw [Session.bind_error hm]
    exact h

/-- What follows never fails. -/
theorem Fails.then (h : Fails E (m d)) (hk : ∀ a d', Fails E (k a d')) : Fails E ((m >>= k) d) := by
  have hends : Ends (fun _ => True) (fun _ _ => True) (m d) := by
    cases m d <;> trivial
  exact h.bind hends fun a d' _ => hk a d'

theorem fails_check {e : Except Fault α} (he : Except.Ends E (fun _ => True) e)
    (hk : ∀ a, Fails E (k a d)) : Fails E ((ofExcept e >>= k) d) := by
  cases e with
  | ok a => exact hk a
  | error f => exact he

theorem fails_pattern : Fails Fault.InBranch (pattern c p d) := by
  have hresolve : Except.Ends Fault.InBranch (fun _ => True) (d.scope.resolve p.joinTests) :=
    Scope.ends_resolve p.joinTests
  cases h : d.scope.resolve p.joinTests with
  | ok tests =>
    rw [pattern_eq h]
    trivial
  | error f =>
    rw [h] at hresolve
    rw [pattern_error h]
    exact hresolve

theorem fails_single : Fails Fault.InBranch (single c p d) := by
  rw [single, Session.get_bind]
  refine fails_check (Scope.ends_resolve _) fun tests => ?_
  rw [Session.bind_ok objectSide_eq]
  trivial

theorem fails_call {q : QueryCall} : Fails Fault.InBranch (call c q d) := by
  obtain ⟨left, hleft⟩ := d.exists_tuple_started c
  rw [call, Session.bind_ok (tuple_eq hleft), Session.get_bind]
  exact fails_check (Scope.ends_resolveArguments _) fun _ => trivial

/-- A subnetwork has an output if its members give a tuple. -/
theorem fails_subnetwork {left : Nat} {members : Draw Unit} (h : Fails E (members d))
    (hends : Ends G (fun _ d' => ∃ last, d'.tuple? = some last) (members d)) :
    Fails E (subnetwork c left members d) := by
  rw [subnetwork, Session.get_bind]
  refine h.bind hends fun _ d' hd' => ?_
  obtain ⟨last, hlast⟩ := hd'
  rw [Session.get_bind, hlast]
  trivial

end Draw

namespace Draft

open Draw Element

variable {d : Draft} {c : Setting} {members : List Element}

/-- Once there is a tuple, elements leave one. -/
theorem Good.ends_tuple (h : d.Good) (hd : ∃ i, d.tuple? = some i) (es : List Element) :
    Draw.Ends (fun _ => True) (fun _ d' => ∃ last, d'.tuple? = some last)
      (Draw.elements c es d) := by
  obtain ⟨i, hi⟩ := hd
  refine (h.elements es).mono fun _ d' hd' => Option.ne_none_iff_exists'.1 fun hnone => ?_
  have hnil := hd'.1.tuple?_eq_none_iff.1 hnone
  have hprefix := scope_prefix_afterAll d.scope es
  rw [← hd'.2, hnil, List.prefix_nil, ← h.tuple?_eq_none_iff, hi] at hprefix
  cases hprefix

/-- A negation or existence claim fails as its members do, or because it is
    empty. -/
theorem Good.fails_group (h : d.Good) (q : Session.Quantifier)
    (hm : ∀ d₁ : Draft, d₁.Good → Fails Fault.InBranch (Draw.elements c members d₁)) :
    Fails Fault.InBranch (quantified c q members (Draw.elements c members) d) := by
  obtain ⟨hgood, -⟩ := h.started (c := c)
  obtain ⟨left, hleft⟩ := d.exists_tuple_started c
  unfold quantified
  by_cases hempty : members.isEmpty
  · simp only [hempty, if_true]
    exact Fault.InBranch.emptyGroup q
  simp only [hempty, Bool.false_eq_true, if_false]
  rw [Session.bind_ok (tuple_eq hleft), Session.get_bind]
  cases single? members with
  | some p => exact fails_single.then fun _ _ => trivial
  | none =>
    refine Fails.then ?_ fun _ _ => trivial
    exact fails_subnetwork (hm _ hgood) (hgood.ends_tuple ⟨left, hleft⟩ members)

theorem fails_pattern_element (p : Pattern) :
    Fails Fault.InBranch (Draw.element c (.pattern p) d) := by
  rw [Draw.element]
  exact fails_pattern.then fun _ _ => trivial

theorem Good.fails_cons (h : d.Good) {e : Element} {es : List Element}
    (he : Fails Fault.InBranch (Draw.element c e d))
    (hes : ∀ d₁ : Draft, d₁.Good → Fails Fault.InBranch (Draw.elements c es d₁)) :
    Fails Fault.InBranch (Draw.elements c (e :: es) d) := by
  rw [Draw.elements]
  exact he.bind (h.element e) fun _ d₁ hd₁ => hes d₁ hd₁.1

theorem fails_nil : Fails Fault.InBranch (Draw.elements c [] d) := by
  rw [Draw.elements]
  trivial

theorem Good.fails_patterns (h : d.Good) (ps : List Pattern) :
    Fails Fault.InBranch (Draw.elements c (ps.map .pattern) d) := by
  induction ps generalizing d with
  | nil => exact fails_nil
  | cons p ps ih => exact h.fails_cons (fails_pattern_element p) fun _ h₁ => ih h₁

theorem Good.fails_universal (h : d.Good) (base : Pattern) (rest : List Pattern) :
    Fails Fault.InBranch (universal c base rest d) := by
  rw [universal_eq, Draw.element]
  refine h.fails_group .none fun d₁ h₁ => ?_
  refine h₁.fails_cons (fails_pattern_element _) fun d₂ h₂ => ?_
  refine h₂.fails_cons ?_ fun _ _ => fails_nil
  rw [Draw.element]
  exact h₂.fails_group .none fun _ h₃ => h₃.fails_patterns _

mutual

theorem fails_element {d : Draft} (h : d.Good) : (e : Element) → e.hasOr = false →
    Fails Fault.InBranch (Draw.element c e d)
  | .pattern p, _ => fails_pattern_element p
  | .group .and members, hor => by
    rw [Draw.element]
    exact fails_elements h members hor
  | .group .or _, hor => by cases hor
  | .group .not members, hor => by
    rw [Draw.element]
    exact h.fails_group .none fun _ h₁ => fails_elements h₁ members hor
  | .group .exists members, hor => by
    rw [Draw.element]
    exact h.fails_group .some fun _ h₁ => fails_elements h₁ members hor
  | .every base rest, _ => by
    rw [Draw.element]
    exact h.fails_universal base rest
  | .call q, _ => by
    rw [Draw.element]
    exact fails_call

/-- **Elements without disjunctions are not drawn only where a group among them
    is empty or something that they refer to is not in scope.** -/
theorem fails_elements {d : Draft} (h : d.Good) : (es : List Element) →
    hasOrList es = false → Fails Fault.InBranch (Draw.elements c es d)
  | [], _ => fails_nil
  | e :: es, hor => by
    rw [hasOrList, Bool.or_eq_false_iff] at hor
    exact h.fails_cons (fails_element h e hor.1) fun _ h₁ => fails_elements h₁ es hor.2

end

end Draft

/-! ## Branches and rules -/

/-- Where facts may be events, a fault for which the distances of a branch cannot
    be worked out. -/
def Config.OfTimes (config : Config) (bs : List Branch) (f : Fault) : Prop :=
  config.isStream ∧ ∃ b ∈ bs, Distances.ofPatterns b.body.patterns = .error f

namespace Draw

variable {d : Draft} {config : Config} {b : Branch} {bs bs' : List Branch} (query : Bool)

theorem fails_branch (hb : b ∈ bs)
    (hor : Element.hasOrList b.body.members = false) :
    Fails (fun f => f.InBranch ∨ config.OfTimes bs f) (branch config query b d) := by
  have hbody : ∀ distances? : Option Distances, Fails Fault.InBranch ((do
      elements ⟨config.objectTypeMemory, distances?, false⟩ b.body.members
      let source ← tuple ⟨config.objectTypeMemory, distances?, false⟩
      request ⟨config.objectTypeMemory, distances?, false⟩ (.terminal source 0 b.index query)
        none : Draw Nat) d.nextBranch) := by
    intro distances?
    refine (Draft.fails_elements d.good_nextBranch _ hor).then fun _ d' => ?_
    obtain ⟨i, hi⟩ := d'.exists_tuple_started ⟨config.objectTypeMemory, distances?, false⟩
    rw [Session.bind_ok (tuple_eq hi)]
    trivial
  rw [branch, modify_bind]
  by_cases hstream : config.isStream
  · simp only [hstream, if_true]
    cases hd : Distances.ofPatterns b.body.patterns with
    | error f => exact .inr ⟨hstream, b, hb, hd⟩
    | ok M => exact (hbody (some M)).mono fun _ => .inl
  · simp only [hstream]
    exact (hbody none).mono fun _ => .inl

theorem fails_branches (hor : ∀ b ∈ bs', Element.hasOrList b.body.members = false) (hsub : bs' ⊆ bs) :
    Fails (fun f => f.InBranch ∨ config.OfTimes bs f) (bs'.mapM (branch config query) d) := by
  induction bs' generalizing d with
  | nil => trivial
  | cons b bs' ih =>
    rw [List.forall_mem_cons] at hor
    rw [List.cons_subset] at hsub
    rw [List.mapM_cons]
    refine (fails_branch query hsub.1 hor.1).bind (ends_any _) fun t d₁ _ => ?_
    exact (ih hor.2 hsub.2).then fun _ _ => trivial

end Draw

/-- **Why a rule has no blueprint**: a disjunction in it is empty; or the fault
    lies in a branch, or in the times of one. -/
theorem Rule.blueprint_fault {r : Rule} {config : Config} {f : Fault}
    (h : r.blueprint config = .error f) :
    f = .unexpectedElement .emptyOr ∨
      ∃ bs, r.body.branches = .ok bs ∧ (f.InBranch ∨ config.OfTimes bs f) := by
  have hdrawn : ∃ d, Draw.rule config r .empty = .error f d := by
    rw [blueprint] at h
    cases hd : Draw.rule config r .empty with
    | ok terminals d =>
      rw [hd] at h
      cases h
    | error f' d =>
      rw [hd] at h
      cases h
      exact ⟨d, rfl⟩
  obtain ⟨d, hd⟩ := hdrawn
  rw [Draw.rule] at hd
  have hsplit := r.body.ends_branches
  cases hbs : r.body.branches with
  | error f' =>
    rw [hbs] at hd hsplit
    cases hd
    exact .inl hsplit
  | ok bs =>
    have hfails : Draw.Fails (fun f => f.InBranch ∨ config.OfTimes bs f)
        (bs.mapM (Draw.branch config r.isQuery) .empty) :=
      Draw.fails_branches r.isQuery (Body.hasOr_of_branches hbs) (List.Subset.refl bs)
    rw [hbs] at hd
    have hd : bs.mapM (Draw.branch config r.isQuery) Draft.empty = .error f d := hd
    rw [hd] at hfails
    exact .inr ⟨bs, rfl, hfails⟩

namespace RuleBase

variable {base₀ base : RuleBase} {rule : RuleId} {partition : PartitionId} {as : List Attached}
variable {a : Attached}

/-- One step of a rollback, as an edit that shows the fault if it cannot be
    done. -/
def undoing (rule : RuleId) (a : Attached) : Edit Unit :=
  if a.created then do
    let _ ← takeNetwork (·.remove a.id)
    take fun base => return ((), ← base.releaseId a.id)
  else takeNetwork fun net => return ((), ← net.update a.id (·.undone rule a))

/-- A node that is not there is not changed. -/
theorem modify_of_not_there {net : Network} {x : NodeId} {f : Node → Node}
    (hx : net.nodes[x]? = none) : net.modify x f = net := by
  have hnodes : (net.modify x f).nodes = net.nodes := by
    refine Std.ExtTreeMap.ext_getElem? fun y => ?_
    rw [Network.getElem?_modify_nodes]
    split
    · subst y
      rw [hx, Option.map_none]
    · rfl
  exact congrArg (fun nodes => { net with nodes }) hnodes

theorem Edit.leaves_of_ok {α : Type} {edit : Edit α} {x : α} {base' : RuleBase}
    (h : edit base = .ok x base') : edit.leaves base = base' := by
  rw [leaves, h]

theorem Edit.leaves_of_error {α : Type} {edit : Edit α} {f : Fault} {base' : RuleBase}
    (h : edit base = .error f base') : edit.leaves base = base' := by
  rw [leaves, h]

/-- A node that was made is removed and its number returned; what cannot be done
    of that leaves the rule base as it then is. -/
theorem leaves_undoing_created (hc : a.created) :
    (undoing rule a).leaves base = base.undo rule a := by
  rw [undoing, undo, if_pos hc, if_pos hc]
  cases hremove : base.network.remove a.id with
  | error f =>
    have hfail : takeNetwork (·.remove a.id) base = .error f base := by
      refine take_error ?_
      simp only [hremove]
      rfl
    exact Edit.leaves_of_error (Session.bind_error hfail)
  | ok removed =>
    obtain ⟨n, net⟩ := removed
    simp only []
    cases hrelease : ({ base with network := net } : RuleBase).releaseId a.id with
    | error f =>
      refine Edit.leaves_of_error (f := f)
        ((Session.bind_ok (takeNetwork_eq hremove)).trans (take_error ?_))
      rw [hrelease]
      rfl
    | ok base' =>
      refine Edit.leaves_of_ok (x := ())
        ((Session.bind_ok (takeNetwork_eq hremove)).trans (take_eq ?_))
      rw [hrelease]
      rfl

/-- A node that was there before is marked, if it is there. -/
theorem leaves_undoing_shared (hc : ¬ a.created) :
    (undoing rule a).leaves base = base.undo rule a := by
  rw [undoing, undo, if_neg hc, if_neg hc]
  cases hn : base.network.nodes[a.id]? with
  | none =>
    rw [modify_of_not_there hn]
    have hfail : takeNetwork (fun net => return ((), ← net.update a.id (·.undone rule a))) base =
        .error (.nodeNotFound a.id) base := by
      refine take_error ?_
      simp only [Network.update, Network.require, hn]
      rfl
    exact Edit.leaves_of_error hfail
  | some n =>
    refine Edit.leaves_of_ok (takeNetwork_eq (a := ()) ?_)
    simp only [Network.update, Network.require, hn]
    rfl

/-- The steps of a rollback are these edits, their faults passed over. -/
theorem leaves_undoing : (undoing rule a).leaves base = base.undo rule a := by
  by_cases hc : a.created
  · exact leaves_undoing_created hc
  · exact leaves_undoing_shared hc

/-- Every step of undoing some attachments can be done. -/
def Unwinds (base : RuleBase) (rule : RuleId) (as : List Attached) : Prop :=
  ∀ before a after, as = before ++ a :: after →
    ∃ base', undoing rule a (base.rollback rule after) = .ok () base'

/-- The newest attachment can be undone: nothing hangs below a node that was made
    last, and its number is live. -/
theorem Traced.undoing_ok (h : Traced base₀ base rule partition (as ++ [a]))
    (hthere : ¬ a.created → ∃ n, base₀.network.nodes[a.id]? = some n) :
    ∃ base', undoing rule a base = .ok () base' := by
  by_cases hc : a.created
  · rw [undoing, if_pos hc]
    obtain ⟨n, hn, hbare⟩ := h.newest_bare hc
    have hrelease := IdPool.release_eq ((h.numbered.live a.id).2 ⟨n, hn⟩)
    refine ⟨{ base with network := base.network.unlink n, ids := base.ids.recycle a.id }, ?_⟩
    refine (Session.bind_ok (takeNetwork_eq (Network.remove_eq hn hbare))).trans (take_eq ?_)
    rw [releaseId, hrelease]
    rfl
  · rw [undoing, if_neg hc]
    obtain ⟨n₀, hn₀⟩ := hthere hc
    -- what was there before still is
    obtain ⟨n, hn⟩ : ∃ n, base.network.nodes[a.id]? = some n := by
      have hformer := h.former a.id
      cases hn : base.network.nodes[a.id]? with
      | some n => exact ⟨n, rfl⟩
      | none =>
        rw [hn₀, hn] at hformer
        cases hformer
    refine ⟨{ base with network := base.network.modify a.id (·.undone rule a) },
      takeNetwork_eq ?_⟩
    simp only [Network.update, Network.require, hn]
    rfl

/-- **What has been attached can be undone**, step by step. -/
theorem Traced.unwinds (h : Traced base₀ base rule partition as)
    (hthere : ∀ a ∈ as, ¬ a.created → ∃ n, base₀.network.nodes[a.id]? = some n) :
    base.Unwinds rule as := by
  induction as using List.reverseRecOn generalizing base with
  | nil =>
    intro before a after heq
    simp at heq
  | append_singleton as b ih =>
    intro before a after heq
    obtain ⟨rfl, rfl⟩ | ⟨l, rfl, hl⟩ := concat_eq_split heq
    · exact h.undoing_ok (hthere b (by simp))
    · have hrest := ih h.undo fun a ha => hthere a (List.mem_append_left _ ha)
      rw [RuleBase.rollback, List.foldr_append]
      exact hrest before a l hl

end RuleBase

/-- What serving requests has attached can be undone. -/
theorem Site.Runs.unwinds {base : RuleBase} {w : Site} {rule : RuleId} {partition : PartitionId}
    {I : Installation} (hr : Runs rule partition ⟨base, []⟩ I w)
    (h₀ : Site.Standing ⟨base, []⟩ rule .empty) : w.base.Unwinds rule w.attached := by
  have htraced := hr.traced h₀
  refine htraced.unwinds fun a ha hc => ?_
  obtain ⟨n, hn, -⟩ := (hr.standing h₀).listed a.id (List.mem_map_of_mem ha)
  have hold : a.id ∉ createdIds w.attached := by
    intro hin
    obtain ⟨b, hb, hcreated, hid⟩ := mem_createdIds.1 hin
    obtain rfl := List.inj_on_of_nodup_map htraced.nodup hb ha hid
    exact hc hcreated
  have hformer := htraced.former a.id
  rw [hn, Option.bind_some, Node.former_of_not_created hold] at hformer
  cases hn₀ : base.network.nodes[a.id]? with
  | some n₀ => exact ⟨n₀, rfl⟩
  | none =>
    rw [hn₀] at hformer
    cases hformer

namespace Session

/-- The rollbacks that compiling a rule comes to: for which rule, in which rule
    base, of which attachments. -/
inductive RollsBack (r : Rule) (s : Session) : RuleId → RuleBase → List Attached → Prop
  /-- The rule could not be attached. -/
  | unattached {id : RuleId} {partition : PartitionId} {s' t : Session} {fault : Fault}
      (begun : beginRule r s = .ok (id, partition) s')
      (failed : attachRule r s' = .error fault t) : RollsBack r s id t.base t.attached
  /-- The rule could not be registered. -/
  | unregistered {id : RuleId} {partition : PartitionId} {s' t u : Session}
      {terminals : List NodeId} {attached : List Attached} {fault : Fault}
      (begun : beginRule r s = .ok (id, partition) s')
      (built : attachRule r s' = .ok terminals t)
      (finished : take finish t = .ok attached u)
      (refused : u.base.registerRule ⟨id, r.name, r.isQuery, partition, attached.map (·.id)⟩ =
        .error fault) : RollsBack r s id u.base attached

variable {s : Session} {r : Rule} {id : RuleId} {base : RuleBase} {as : List Attached}
variable {failure : Failure} {t : Session}

/-- In a rollback, what was attached is what has served requests. -/
theorem RollsBack.unwinds (h : RollsBack r s id base as) (hs : s.Idle)
    (h₀ : Site.Standing ⟨s.base.begun.2, []⟩ s.base.nextRule .empty) : base.Unwinds id as := by
  have hserved : ∀ {t : Session} {J : Installation},
      t.Served ⟨s.base.begun.2, []⟩ s.base.nextRule s.base.begun.1 J →
        t.base.Unwinds s.base.nextRule t.attached :=
    fun hserved => Site.Runs.unwinds hserved h₀
  have hagree := hs.between_begun.agree_rule (r := r) h₀
  cases h with
  | unattached begun failed =>
    obtain ⟨⟨⟩, rfl⟩ := hs.eq_of_beginRule begun
    rw [failed] at hagree
    generalize Draw.rule (Site.base ⟨s.base.begun.2, []⟩).config r .empty = drawn at hagree
    cases hagree with
    | error hfail =>
      obtain ⟨J, -, hJ⟩ := hfail
      exact hserved hJ
  | unregistered begun built finished refused =>
    obtain ⟨⟨⟩, rfl⟩ := hs.eq_of_beginRule begun
    rw [built] at hagree
    generalize Draw.rule (Site.base ⟨s.base.begun.2, []⟩).config r .empty = drawn at hagree
    cases hagree with
    | ok hpost =>
      obtain ⟨J, hJ, -⟩ := hpost
      rw [take, get_bind, finish, checkBalanced_eq hJ.elements hJ.trail] at finished
      cases finished
      exact hserved hJ.served

/-- What is undone when a rule gets the number of another. -/
theorem compile_collided_rollsBack (hs : s.Idle)
    (h₀ : Site.Standing ⟨s.base.begun.2, []⟩ s.base.nextRule .empty)
    (hname : r.name ∉ s.base.names) {b : Blueprint} (hb : r.blueprint s.base.config = .ok b)
    (hnumber : (s.base.rules[s.base.nextRule]?).isSome) :
    ∃ t base as, compile r s = .error ⟨.duplicateRule r.name, none⟩ t ∧
      RollsBack r s s.base.nextRule base as ∧ t.base = base.rollback s.base.nextRule as := by
  obtain ⟨_, t, _, J, u, hattach, hJ, -, htaken, hcompile, hbase⟩ :=
    compile_collided hs h₀ hname hb hnumber
  have hrefused := registerRule_taken (s := { t with attached := [] })
    ⟨s.base.nextRule, r.name, r.isQuery, s.base.begun.1, t.attached.map (·.id)⟩ htaken
  exact ⟨u, _, _, hcompile,
    .unregistered (hs.beginRule_ok hname) hattach (finish_ok hJ.elements hJ.trail) hrefused, hbase⟩

/-- A rule that is refused is refused for its name, and nothing is done; or as its
    blueprint is, or for its number, and what remains is what a rollback leaves. -/
theorem compile_fault (hs : s.Idle)
    (h₀ : Site.Standing ⟨s.base.begun.2, []⟩ s.base.nextRule .empty)
    (h : compile r s = .error failure t) :
    (failure.fault = .duplicateRule r.name ∧ t.base = s.base) ∨
      ((r.blueprint s.base.config = .error failure.fault ∨
          (failure.fault = .duplicateRule r.name ∧ (s.base.rules[s.base.nextRule]?).isSome)) ∧
        ∃ id base as, RollsBack r s id base as ∧ t.base = base.rollback id as) := by
  by_cases hname : r.name ∈ s.base.names
  · obtain ⟨t', ht', hbase⟩ := compile_duplicate hs hname
    rw [ht'] at h
    cases h
    exact .inl ⟨rfl, hbase⟩
  have hbegin := hs.beginRule_ok hname
  cases hb : r.blueprint s.base.config with
  | error f =>
    obtain ⟨p, hbegun⟩ := s.base.begun_eq
    have hconfig : s.base.config = s.base.begun.2.config := by rw [hbegun]
    obtain ⟨t', J, hattach, -⟩ := hs.between_begun.attachRule_error h₀ (hconfig ▸ hb)
    obtain ⟨u, hundone, hbase⟩ := orUndone_error s.base.nextRule hattach
    have hcompile : compile r s = .error ⟨f, some t'.place⟩ u := by
      rw [compile, bind_ok (placeless_ok hbegin)]
      exact bind_error hundone
    rw [hcompile] at h
    cases h
    exact .inr ⟨.inl rfl, _, t'.base, t'.attached, .unattached hbegin hattach, hbase⟩
  | ok b =>
    cases hnumber : s.base.rules[s.base.nextRule]? with
    | none =>
      obtain ⟨t', built, I, ht', -⟩ := compile_ok hs h₀ hname hb hnumber
      rw [ht'] at h
      cases h
    | some entry =>
      obtain ⟨t', base, as, hrefused, hrolls, hbase⟩ :=
        compile_collided_rollsBack hs h₀ hname hb (by rw [hnumber]; rfl)
      rw [hrefused] at h
      cases h
      exact .inr ⟨.inr ⟨rfl, rfl⟩, _, base, as, hrolls, hbase⟩

end Session

/-! ## Adding rules -/

namespace RuleBase

variable {base : RuleBase} {r : Rule} {failure : Failure}

/-- Why a rule is refused, and what is left then. -/
theorem Sound.add_fault {defs : RuleId → Option Rule} {inst : RuleId → Option Installation}
    (h : base.Sound defs inst) (hfail : (base.add r).result = .error failure) :
    (failure.fault = .duplicateRule r.name ∧ (base.add r).base = base) ∨
      ((r.blueprint base.config = .error failure.fault ∨
          (failure.fault = .duplicateRule r.name ∧ (base.rules[base.nextRule]?).isSome)) ∧
        ∃ id base' as, Session.RollsBack r (Session.start base) id base' as ∧
          (base.add r).base = base'.rollback id as) := by
  rw [add] at hfail ⊢
  cases hc : Session.compile r (Session.start base) with
  | ok built t =>
    rw [hc] at hfail
    cases hfail
  | error failure' t =>
    rw [hc] at hfail
    cases hfail
    exact Session.compile_fault (s := Session.start base) h.idle h.standing hc

end RuleBase

end RuleNet
