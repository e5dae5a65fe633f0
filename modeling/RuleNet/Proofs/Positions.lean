/-
  RuleNet — positions in tuples.

  Between the elements of a rule that is compiled, the scope of the session and
  the slots of the tuple at hand are those that the rule tells
  (`Session.Positioned`).  A node that is made for the rule and reads tuples is
  made when some element is attached: it reads slots of the tuple at hand there,
  and those that the element means where it stands (`Session.MadeFor`), even if
  the rule cannot be compiled to its end (`Session.positions_correct`).
-/
import RuleNet.Proofs.History
import RuleNet.Proofs.Origins
import RuleNet.Proofs.Readings

namespace RuleNet

/-! ## Nodes made for a rule -/

namespace Site

variable {w v w₀ : Site} {rule : RuleId} {I J : Installation} {partition : PartitionId}
variable {q : Request} {x y : NodeId}

/-- What is listed was got for some request. -/
theorem Runs.mem_nodes (hr : Runs rule partition w₀ I w) (h₀ : w₀.Standing rule .empty)
    (hnone : w₀.attached = []) : ∀ a ∈ w.attached, a.id ∈ I.nodes := by
  induction hr with
  | start => simp [hnone]
  | @step I w q origin? before follows ih =>
    intro a ha
    rw [Network.mem_snoc_nodes]
    rw [← before.config_eq] at follows
    unfold serve at ha ⊢
    split at ha
    · rename_i x hx
      obtain ⟨n, hn, -⟩ := existing_serves (before.standing h₀).stands follows hx
      rw [Standing.attached_touch rule partition _ hn] at ha
      split at ha
      · exact .inl (ih a ha)
      · obtain ha | rfl := List.mem_append.1 ha |>.imp_right List.mem_singleton.1
        · exact .inl (ih a ha)
        · exact .inr rfl
    · obtain ha | rfl := List.mem_append.1 ha |>.imp_right List.mem_singleton.1
      · exact .inl (ih a ha)
      · exact .inr rfl

/-- A node was made at the first step that got it, and does just what was asked
    for there. -/
def MadeAt (w : Site) (rule : RuleId) (I : Installation) (x : NodeId) (i : Nat) (q : Request) : Prop :=
  I.nodes[i]? = some x ∧ (∀ j < i, I.nodes[j]? ≠ some x) ∧ I.steps[i]? = some q ∧
    ∃ n, w.base.network.nodes[x]? = some n ∧ n.kind = I.wanted rule q

/-- A node that was made stays so when one more request has been served. -/
theorem MadeAt.snoc {i : Nat} {p : Request} {n : Node} (h : w.MadeAt rule I x i p)
    (hs : w.Standing rule I)
    (hg : w.base.network.Gains v.base.network w.base.config rule I q y n) :
    v.MadeAt rule (I.snoc q y) x i p := by
  obtain ⟨hx, hfirst, hp, m, hm, hkind⟩ := h
  obtain ⟨m', hm', hkeeps⟩ := hg.keeps hm
  have hi : i < I.nodes.length := (List.getElem?_eq_some_iff.1 hx).1
  refine ⟨(I.below_snoc q y).node hx, fun j hj => ?_, (I.below_snoc q y).step hp, m', hm', ?_⟩
  · rw [Installation.snoc, List.getElem?_append_left (hj.trans hi)]
    exact hfirst j hj
  · rw [hkeeps, hkind, hs.stands.wanted_snoc hp]

/-- A node that is taken into use is not listed as one that was made. -/
theorem mem_attached_of_touch {a : Attached} (partition : PartitionId) (e? : Option Expiration)
    (hx : ∃ n, w.base.network.nodes[x]? = some n)
    (ha : a ∈ (w.touch rule partition e? x).attached) (hc : a.created) : a ∈ w.attached := by
  obtain ⟨n, hn⟩ := hx
  rw [Standing.attached_touch rule partition e? hn] at ha
  split at ha
  · exact ha
  · obtain ha | rfl := List.mem_append.1 ha |>.imp_right List.mem_singleton.1
    · exact ha
    · cases hc

/-- The node that is made next. -/
theorem Standing.madeAt_make (h : w.Standing rule I)
    (hq : q.Follows w.base.config.objectTypeMemory I.steps) (partition : PartitionId)
    (origin? : Option Origin)
    (hx : w.base.network.existing w.base.config q.guardsOut (I.wanted rule q) = none) :
    (w.make rule partition q.expiration? (I.wanted rule q) origin?).MadeAt rule
      (I.snoc q w.base.ids.issue.1) w.base.ids.issue.1 I.nodes.length q := by
  have hf := wanted_fits h.stands hq origin? hx h.fresh
  have hmade := make_nodes w rule partition q.expiration? origin? hf.parents_nodup
    w.base.ids.issue.1
  rw [if_pos rfl] at hmade
  refine ⟨List.getElem?_concat_length, fun j hj => ?_, ?_, _, hmade, ?_⟩
  · -- its number is that of no node that was got before
    rw [Installation.snoc, List.getElem?_append_left hj]
    intro hgot
    obtain ⟨p, hp⟩ := h.stands.step_of_node hgot
    obtain ⟨n, hn, -⟩ := h.stands.placed hp hgot
    rw [h.fresh] at hn
    cases hn
  · rw [Installation.snoc, h.stands.lengths, List.getElem?_concat_length]
  · rw [Node.claimed_kind, h.stands.wanted_snoc_self hq]

/-- **A node made for a rule does just what was asked for when it was got first.** -/
theorem Runs.madeAt (hr : Runs rule partition w₀ I w) (h₀ : w₀.Standing rule .empty)
    (hnone : w₀.attached = []) {a : Attached} (ha : a ∈ w.attached) (hc : a.created) :
    ∃ i q, w.MadeAt rule I a.id i q := by
  induction hr with
  | start =>
    rw [hnone] at ha
    cases ha
  | @step I w q origin? before follows ih =>
    have hstanding := before.standing h₀
    rw [← before.config_eq] at follows
    unfold serve at ha ⊢
    split at ha
    · rename_i x hx
      obtain ⟨n, hn, -⟩ := existing_serves hstanding.stands follows hx
      obtain ⟨n', hg⟩ := hstanding.gains_touch follows partition hx
      obtain ⟨i, p, hmade⟩ := ih (mem_attached_of_touch partition _ ⟨n, hn⟩ ha hc)
      exact ⟨i, p, hmade.snoc hstanding hg⟩
    · rename_i hx
      obtain ⟨n', hg⟩ := hstanding.gains_make follows partition origin? hx
      obtain ha | rfl := List.mem_append.1 ha |>.imp_right List.mem_singleton.1
      · obtain ⟨i, p, hmade⟩ := ih ha
        exact ⟨i, p, hmade.snoc hstanding hg⟩
      · exact ⟨_, q, hstanding.madeAt_make follows partition origin? hx⟩

/-- What has been served was served step by step. -/
theorem Runs.exists_prefix (hr : Runs rule partition w₀ I w) {steps : List Request}
    (h : steps <+: I.steps) : ∃ J v, Runs rule partition w₀ J v ∧ J.steps = steps ∧ J.Below I := by
  induction hr with
  | start =>
    obtain rfl : steps = [] := List.prefix_nil.1 h
    exact ⟨_, _, .start, rfl, .refl _⟩
  | @step I w q origin? before follows ih =>
    obtain rfl | h := List.prefix_concat_iff.1 h
    · exact ⟨_, _, .step q origin? before follows, rfl, .refl _⟩
    · obtain ⟨J, v, hv, hsteps, hb⟩ := ih h
      exact ⟨J, v, hv, hsteps, hb.trans (I.below_snoc q _)⟩

/-- Where fewer of the same requests have been served, they got the same nodes. -/
theorem Runs.below_of_prefix (h : Runs rule partition w₀ J v) (h' : Runs rule partition w₀ I w)
    (hsteps : J.steps <+: I.steps) : J.Below I := by
  obtain ⟨K, u, hu, hK, hb⟩ := h'.exists_prefix hsteps
  rwa [(h.unmarked_eq hu hK.symm).1]

end Site

/-! ## Between elements -/

namespace Session

open Element

/-- Guards are left out, or not, when tests are weighed. -/
def weigh (s : Session) (on : Bool) : Session := { s with guardsOut := on }

/-- Attaching some elements from a session on comes by another one: before or
    after an element, or between the elements inside.  Both stand where a layout
    is; what follows in the innermost group is still to be attached. -/
inductive Passes : Layout → List Element → Session → Layout → List Element → Session → Prop where
  | here {l : Layout} {es : List Element} {s : Session} : Passes l es s l es s
  | later {l l' : Layout} {e : Element} {es es' : List Element} {s t u : Session}
      (attached : attachElement e s = .ok () t) (after : Passes (l.after e) es t l' es' u) :
      Passes l (e :: es) s l' es' u
  | and {l l' : Layout} {members es es' : List Element} {s u : Session}
      (inside : Passes l members (s.pushElement (.group .and members)) l' es' u) :
      Passes l (.group .and members :: es) s l' es' u
  /-- There is a tuple at the beginning of a negation or existence claim; if it
      is not one of a single pattern, its members are attached one by one. -/
  | quantified {l l' : Layout} {q : Quantifier} {members es es' : List Element} {s t u : Session}
      (nonempty : members ≠ [])
      (begun : ensureTuple ((s.pushElement (.group q.connective members)).pushOrigin q.origin) =
        .ok () t)
      (inside : Passes l.started (if (single? members).isSome then [] else members) t l' es' u) :
      Passes l (.group q.connective members :: es) s l' es' u
  /-- A universal statement is attached as the negation that it is. -/
  | every {l l' : Layout} {base : Pattern} {rest : List Pattern} {es es' : List Element}
      {s u : Session}
      (inside : Passes l [.group .not (Universal.of base rest).outer]
        (((s.pushElement (.every base rest)).pushOrigin .every).weigh
          (Universal.of base rest).guardsOnly) l' es' u) :
      Passes l (.every base rest :: es) s l' es' u
  | call {l : Layout} {q : QueryCall} {es : List Element} {s t : Session}
      (begun : ensureTuple ((s.pushElement (.call q)).pushOrigin (.call q.query)) = .ok () t) :
      Passes l (.call q :: es) s l.started [] t

/-- The session in which a branch is attached. -/
def opened (s : Session) (name : String) (b : Branch) (distances? : Option Distances) : Session :=
  ({ s with distances?, branch? := some b }).pushOrigin (.rule name)

/-- Attaching some branches from a session on comes by another one, between
    elements or at the end of a branch. -/
inductive PassesBranches (name : String) :
    List Branch → Session → Layout → List Element → Session → Prop where
  | inside {b : Branch} {bs : List Branch} {s s' u : Session} {distances? : Option Distances}
      {l : Layout} {es : List Element} (known : branchDistances b s.resetBranch = .ok distances? s')
      (passes : Passes .empty b.body.members
        ((s'.opened name b distances?).pushElement b.body.toElement) l es u) :
      PassesBranches name (b :: bs) s l es u
  /-- The branch has been attached but for its terminal. -/
  | ended {b : Branch} {bs : List Branch} {s s' t u : Session} {distances? : Option Distances}
      (known : branchDistances b s.resetBranch = .ok distances? s')
      (attached : insideElement b.body.toElement (attachElements b.body.members)
        (s'.opened name b distances?) = .ok () t)
      (ended : ensureTuple t = .ok () u) :
      PassesBranches name (b :: bs) s (Layout.empty.afterAll b.body.members).started [] u
  | next {b : Branch} {bs : List Branch} {s t u : Session} {terminal : NodeId} {l : Layout}
      {es : List Element} (attached : attachBranch name b s = .ok terminal t)
      (after : PassesBranches name bs t l es u) : PassesBranches name (b :: bs) s l es u

/-- The session has come to where a layout is: it has a pattern in scope for each
    slot of the tuple at hand. -/
structure Positioned (l : Layout) (s : Session) : Prop where
  scope : s.scope = l.scope
  /-- These are the slots of the tuple. -/
  tuple : s.base.network.kinds.TupleSlots l.slots s.tupleSource?
  offset : s.offset = l.slots.length
  length : s.scope.length = l.slots.length

/-- When an element is attached that stands where a layout is, a node gives the
    tuple at hand that was not listed before, and is what the element means
    there. -/
structure MadeFor (kinds : Kinds) (l : Layout) (e : Element) (s t : Session) (x : NodeId)
    (k : NodeKind) : Prop where
  attached : attachElement e s = .ok () t
  new : ∀ a ∈ s.attached, a.id ≠ x
  tuple : t.tupleSource? = some x
  built : e.BuiltAs kinds l k

/-! ### Following a draft -/

variable {s t u : Session} {d d' : Draft} {c c' : Setting} {l l' : Layout} {e : Element}
variable {es es' : List Element} {site : Site} {rule : RuleId} {partition : PartitionId}

/-- The session matches a draft that is drawn with a setting. -/
def Follows (site : Site) (rule : RuleId) (partition : PartitionId) (c : Setting) (s : Session)
    (d : Draft) : Prop :=
  ∃ (g : Stage) (I : Installation), g.site = site ∧ g.rule = rule ∧ g.partition = partition ∧
    g.setting = c ∧ g.tupleMemory = true ∧ g.Matches s d I

namespace Follows

theorem pushElement (h : s.Follows site rule partition c d) (e : Element) :
    (s.pushElement e).Follows site rule partition c d := by
  obtain ⟨g, I, hsite, hrule, hpartition, hc, hmemory, hm⟩ := h
  exact ⟨g.enterElement e, I, hsite, hrule, hpartition, hc, hmemory, hm.enterElement e⟩

theorem pushOrigin (h : s.Follows site rule partition c d) (o : Origin) :
    (s.pushOrigin o).Follows site rule partition c d := by
  obtain ⟨g, I, hsite, hrule, hpartition, hc, hmemory, hm⟩ := h
  exact ⟨g.enter o, I, hsite, hrule, hpartition, hc, hmemory, hm.enter o⟩

theorem weigh (h : s.Follows site rule partition c d) (on : Bool) :
    (s.weigh on).Follows site rule partition { c with guardsOut := on } d := by
  obtain ⟨g, I, hsite, hrule, hpartition, rfl, hmemory, hm⟩ := h
  exact ⟨g.weighing on, I, hsite, hrule, hpartition, rfl, hmemory, hm.weighing on⟩

theorem of_post {α β : Type} {g : Stage} {R : α → β → Draft → Installation → Prop} {a : α} {b : β}
    (hmemory : g.tupleMemory = true) (h : g.Post R a t b d) :
    t.Follows g.site g.rule g.partition g.setting d := by
  obtain ⟨I, hm, -⟩ := h
  exact ⟨g, I, rfl, rfl, rfl, rfl, hmemory, hm⟩

variable (h₀ : site.Standing rule .empty)
include h₀

/-- Attaching an element and drawing it end alike. -/
theorem agree_element (h : s.Follows site rule partition c d) (e : Element) :
    Agree (fun _ _ => True) (fun _ t _ d' => t.Follows site rule partition c d')
      (attachElement e s) (Draw.element c e d) := by
  obtain ⟨g, I, rfl, rfl, rfl, rfl, hmemory, hm⟩ := h
  exact (Stage.agree_element hm h₀ hmemory e).imp (fun _ => trivial) (of_post hmemory)

theorem agree_tuple (h : s.Follows site rule partition c d) :
    Agree (fun _ _ => True) (fun _ t _ d' => t.Follows site rule partition c d')
      (ensureTuple s) (Draw.tuple c d) := by
  obtain ⟨g, I, rfl, rfl, rfl, rfl, hmemory, hm⟩ := h
  exact (hm.agree_tuple h₀ hmemory).imp (fun _ => trivial) (of_post hmemory)

theorem agree_members (h : s.Follows site rule partition c d) (e : Element) (es : List Element) :
    Agree (fun _ _ => True) (fun _ t _ d' => t.Follows site rule partition c d')
      (insideElement e (attachElements es) s) (Draw.elements c es d) := by
  obtain ⟨g, I, rfl, rfl, rfl, rfl, hmemory, hm⟩ := h
  exact (Stage.agree_insideElement (Stage.agree_elements (hm.enterElement e) h₀ hmemory es)).imp
    (fun _ => trivial) (of_post hmemory)

theorem positioned (h : s.Follows site rule partition c d) (ha : d.Aligned l) :
    s.Positioned l := by
  obtain ⟨g, I, rfl, rfl, rfl, rfl, -, hm⟩ := h
  have hlength : d.scope.length = l.slots.length := by rw [ha.scope, ha.length]
  refine ⟨hm.scope.trans ha.scope, ?_, hm.offset.trans hlength, hm.scope ▸ hlength⟩
  have htuple := ha.tuple
  have hrel := hm.tuple
  rw [← hm.steps] at htuple
  generalize s.tupleSource? = x?, d.tuple? = i? at hrel htuple
  cases hrel with
  | none => exact htuple
  | some hgot =>
    rw [← hgot.nodeAt]
    exact Slots.map (hm.standing h₀).stands.served htuple

/-- Where drawing comes by, attaching comes by as well. -/
theorem exists_passes (hp : Draw.Passes c l es d c' l' es' d')
    (h : s.Follows site rule partition c d) :
    ∃ u, Passes l es s l' es' u ∧ u.Follows site rule partition c' d' := by
  induction hp generalizing s with
  | here => exact ⟨s, .here, h⟩
  | @later _ _ _ _ e _ _ _ _ _ drawn _ ih =>
    have hagree := h.agree_element h₀ e
    rw [drawn] at hagree
    obtain ⟨_, t, hattach, ht⟩ := hagree.of_drawn
    obtain ⟨u, hu, hfollows⟩ := ih ht
    exact ⟨u, .later hattach hu, hfollows⟩
  | and _ ih =>
    obtain ⟨u, hu, hfollows⟩ := ih (h.pushElement _)
    exact ⟨u, .and hu, hfollows⟩
  | @quantified c _ _ _ q members _ _ d _ nonempty many _ ih =>
    have hagree :=
      ((h.pushElement (.group q.connective members)).pushOrigin q.origin).agree_tuple h₀
    obtain ⟨i, hi⟩ := d.exists_tuple_started c
    rw [Draw.tuple_eq hi] at hagree
    obtain ⟨_, t, hbegun, ht⟩ := hagree.of_drawn
    obtain ⟨u, hu, hfollows⟩ := ih ht
    refine ⟨u, .quantified nonempty hbegun ?_, hfollows⟩
    rwa [many]
  | @every _ _ _ _ base rest _ _ _ _ _ ih =>
    obtain ⟨u, hu, hfollows⟩ := ih (((h.pushElement (.every base rest)).pushOrigin .every).weigh
      (Universal.of base rest).guardsOnly)
    exact ⟨u, .every hu, hfollows⟩

omit h₀ in
/-- A session between two branches follows the draft of the next one. -/
theorem opened {query : Bool} {b : Branch} {distances? : Option Distances} {I : Installation}
    (name : String) (h : s.Between site rule partition query d I)
    (hk : branchDistances b s.resetBranch = .ok distances? t) :
    (t.opened name b distances?).Follows site rule partition
      ⟨site.base.config.objectTypeMemory, distances?, false⟩ d.nextBranch := by
  have hreset : s.resetBranch.Between site rule partition query d I := { h with }
  have hdistances := hreset.agree_distances b (F := fun _ _ => True) trivial
  rw [hk] at hdistances
  obtain ⟨_, _, -, -, rfl, -⟩ := hdistances.of_ok
  have hm := (h.matches_start b distances?).enter (.rule name)
  exact ⟨_, I, rfl, rfl, rfl, rfl, rfl, hm⟩

end Follows

theorem branchDistances_ok {b : Branch} {distances? : Option Distances}
    (h : Draw.Knows s.base.config b distances?) : branchDistances b s = .ok distances? s := by
  rw [branchDistances, get_bind]
  unfold Draw.Knows at h
  split
  · rename_i hstream
    rw [if_pos hstream] at h
    obtain ⟨M, hM, rfl⟩ := h
    rw [hM]
    rfl
  · rename_i hstream
    rw [if_neg hstream] at h
    rw [h]
    rfl

/-- Where drawing some branches comes by, attaching them comes by as well. -/
theorem Between.exists_passes {query : Bool} {bs : List Branch} {I : Installation} (name : String)
    (hp : Draw.PassesBranches site.base.config query bs d c l es d')
    (h : s.Between site rule partition query d I) (h₀ : site.Standing rule .empty) :
    ∃ u, PassesBranches name bs s l es u ∧ u.Follows site rule partition c d' := by
  induction hp generalizing s I with
  | @inside b _ _ _ distances? _ _ _ known passes =>
    have hreset : s.resetBranch.Between site rule partition query _ I := { h with }
    have hknown : branchDistances b s.resetBranch = .ok distances? s.resetBranch := by
      refine branchDistances_ok ?_
      rwa [Site.Runs.config_eq hreset.served]
    have hopened := (Follows.opened name h hknown).pushElement b.body.toElement
    obtain ⟨u, hu, hfollows⟩ := hopened.exists_passes h₀ passes
    exact ⟨u, .inside hknown hu, hfollows⟩
  | @next b _ _ _ _ _ _ _ _ drawn _ ih =>
    have hagree := h.agree_branch h₀ name b
    rw [drawn] at hagree
    obtain ⟨_, t, hattach, J, hJ, -⟩ := hagree.of_drawn
    obtain ⟨u, hu, hfollows⟩ := ih hJ
    exact ⟨u, .next hattach hu, hfollows⟩

/-! ### Tracking -/

/-- The session follows a draft that has come to where a layout is. -/
def Tracked (site : Site) (rule : RuleId) (partition : PartitionId) (l : Layout) (s : Session) :
    Prop :=
  ∃ c d, s.Follows site rule partition c d ∧ d.Aligned l

namespace Tracked

/-- What comes of a step that agrees with drawing is tracked, if drawing walks to
    the place. -/
theorem of_agree {α β : Type} {step : Compile α} {draw : Draw β} {a : α}
    (hagree : Agree (fun _ _ => True) (fun _ t _ d' => t.Follows site rule partition c d')
      (step s) (draw d)) (hs : step s = .ok a t) (hd : Draft.Walks l d (draw d)) :
    t.Tracked site rule partition l := by
  rw [hs] at hagree
  obtain ⟨b, d', hdraw, hfollows⟩ := hagree.of_ok
  rw [hdraw] at hd
  exact ⟨c, d', hfollows, hd.aligned⟩

theorem pushElement (h : s.Tracked site rule partition l) (e : Element) :
    (s.pushElement e).Tracked site rule partition l := by
  obtain ⟨c, d, hf, ha⟩ := h
  exact ⟨c, d, hf.pushElement e, ha⟩

theorem pushOrigin (h : s.Tracked site rule partition l) (o : Origin) :
    (s.pushOrigin o).Tracked site rule partition l := by
  obtain ⟨c, d, hf, ha⟩ := h
  exact ⟨c, d, hf.pushOrigin o, ha⟩

theorem weigh (h : s.Tracked site rule partition l) (on : Bool) :
    (s.weigh on).Tracked site rule partition l := by
  obtain ⟨c, d, hf, ha⟩ := h
  exact ⟨_, d, hf.weigh on, ha⟩

variable (h₀ : site.Standing rule .empty)
include h₀

theorem attachElement (h : s.Tracked site rule partition l)
    (hs : attachElement e s = .ok () t) : t.Tracked site rule partition (l.after e) := by
  obtain ⟨c, d, hf, ha⟩ := h
  exact of_agree (hf.agree_element h₀ e) hs (Draft.walks_element ha e)

theorem ensureTuple (h : s.Tracked site rule partition l) (hs : ensureTuple s = .ok () t) :
    t.Tracked site rule partition l.started := by
  obtain ⟨c, d, hf, ha⟩ := h
  exact of_agree (hf.agree_tuple h₀) hs (Draft.walks_tuple ha)

/-- Whatever attaching some elements comes by is tracked. -/
theorem of_passes (hp : Passes l es s l' es' u) (h : s.Tracked site rule partition l) :
    u.Tracked site rule partition l' := by
  induction hp with
  | here => exact h
  | later attached _ ih => exact ih (h.attachElement h₀ attached)
  | and _ ih => exact ih (h.pushElement _)
  | quantified _ begun _ ih => exact ih (((h.pushElement _).pushOrigin _).ensureTuple h₀ begun)
  | every _ ih => exact ih (((h.pushElement _).pushOrigin _).weigh _)
  | call begun => exact ((h.pushElement _).pushOrigin _).ensureTuple h₀ begun

/-- Whatever attaching some branches comes by is tracked. -/
theorem of_passesBranches {query : Bool} {name : String} {bs : List Branch} {I : Installation}
    (hp : PassesBranches name bs s l es u) (h : s.Between site rule partition query d I) :
    u.Tracked site rule partition l := by
  induction hp generalizing d I with
  | @inside b _ s _ _ _ _ _ known passes =>
    have hopened : Tracked site rule partition .empty _ :=
      ⟨_, _, Follows.opened name h known, d.aligned_nextBranch⟩
    exact of_passes h₀ passes (hopened.pushElement _)
  | ended known attached ended =>
    have hattached := of_agree ((Follows.opened name h known).agree_members h₀ _ _) attached
      (Draft.walks_elements d.aligned_nextBranch _)
    exact hattached.ensureTuple h₀ ended
  | @next b _ _ _ _ _ _ _ attached _ ih =>
    have hagree := h.agree_branch h₀ name b
    rw [attached] at hagree
    obtain ⟨i, d', -, J, hJ, -⟩ := hagree.of_ok
    exact ih hJ

theorem positioned (h : s.Tracked site rule partition l) : s.Positioned l := by
  obtain ⟨c, d, hf, ha⟩ := h
  exact hf.positioned h₀ ha

end Tracked

/-! ## The rule at hand -/

/-- Wherever attaching some elements comes to, the slots of the tuple at hand suit
    the patterns in scope. -/
theorem Passes.suited {C : QueryCall → Prop} (hp : Passes l es s l' es' u) (h : l.Suited C)
    (hC : ∀ q ∈ callsList es, C q) : l'.Suited C := by
  induction hp with
  | here => exact h
  | @later _ _ e _ _ _ _ _ _ _ ih =>
    obtain ⟨hC, hC'⟩ := List.forall_mem_append.1 hC
    exact ih (h.after e hC) hC'
  | and _ ih => exact ih h (List.forall_mem_append.1 hC).1
  | quantified _ _ _ ih =>
    refine ih h.started ?_
    split
    · simp [callsList]
    · exact (List.forall_mem_append.1 hC).1
  | every _ ih =>
    refine ih h ?_
    simp [callsList, calls, Universal.outer, Universal.inner]
  | call => exact h.started

theorem PassesBranches.suited {C : QueryCall → Prop} {name : String} {bs : List Branch}
    (hp : PassesBranches name bs s l es u)
    (hC : ∀ b ∈ bs, ∀ q ∈ callsList b.body.members, C q) : l.Suited C := by
  induction hp with
  | inside _ passes => exact passes.suited Layout.suited_empty (hC _ List.mem_cons_self)
  | ended => exact (Layout.suited_empty.afterAll _ (hC _ List.mem_cons_self)).started
  | next _ _ ih => exact ih fun b hb => hC b (List.mem_cons_of_mem _ hb)

/-- A session that follows a draft has served what was drawn, and it has listed
    nothing else. -/
theorem Follows.below {I : Installation} (h : s.Follows site rule partition c d)
    (h₀ : site.Standing rule .empty) (hnone : site.attached = [])
    (ht : t.Served site rule partition I) (hgrows : d.steps <+: I.steps) : ∃ J : Installation,
      J.Below I ∧ J.nodes.length = d.steps.length ∧ (∀ a ∈ s.attached, a.id ∈ J.nodes) ∧
        Option.Rel (J.Got .tuples) s.tupleSource? d.tuple? := by
  obtain ⟨g, J, rfl, rfl, rfl, rfl, -, hm⟩ := h
  refine ⟨J, Site.Runs.below_of_prefix hm.served ht (hm.steps ▸ hgrows), hm.length h₀, ?_, hm.tuple⟩
  exact Site.Runs.mem_nodes hm.served h₀ hnone

/-- A node made for a rule that reads tuples was made when some element of the
    rule was attached. -/
theorem Between.madeFor {r : Rule} (h : s.Between site rule partition r.isQuery .empty .empty)
    (h₀ : site.Standing rule .empty) (hnone : site.attached = [])
    (hl : Leaves (attachRule r) s t) {a : Attached} (ha : a ∈ t.attached) (hc : a.created) :
    ∃ n, t.base.network.nodes[a.id]? = some n ∧ (n.kind.ReadsTuples → ∃ bs l e es u u',
      r.body.branches = .ok bs ∧ PassesBranches r.name bs s l (e :: es) u ∧
        MadeFor t.base.network.kinds l e u u' a.id n.kind) := by
  obtain ⟨I, hserved, hsteps⟩ := h.requests h₀ hl
  have hstands : t.base.network.Stands t.base.config rule I :=
    (Site.Runs.standing hserved h₀).stands
  obtain ⟨i, q, hx, hfirst, hq, n, hn, hkind⟩ := Site.Runs.madeAt hserved h₀ hnone ha hc
  refine ⟨n, hn, fun hreads => ?_⟩
  rw [hkind, Installation.wanted, NodeKind.readsTuples_map] at hreads
  rw [hsteps] at hq
  obtain ⟨bs, hbs, c, l, e, es, d₁, d₂, hpasses, hmakes, hgrows⟩ := Draw.made_requests hq hreads
  rw [← hsteps] at hgrows
  -- attaching comes by the place where the request was drawn
  obtain ⟨u, hu, hfollows⟩ := Between.exists_passes r.name hpasses h h₀
  have hagree := hfollows.agree_element h₀ e
  rw [hmakes.drawn] at hagree
  obtain ⟨_, u', hattached, hfollows'⟩ := hagree.of_drawn
  refine ⟨bs, l, e, es, u, u', hbs, hu, hattached, fun b hb hid => ?_, ?_, ?_⟩
  · obtain ⟨J, hb', hlength, hlisted, -⟩ :=
      hfollows.below h₀ hnone hserved (hmakes.grows.trans hgrows)
    obtain ⟨j, hj⟩ := List.mem_iff_getElem?.1 (hlisted b hb)
    have hlt : j < J.nodes.length := (List.getElem?_eq_some_iff.1 hj).1
    refine hfirst j (hlt.trans_le (hlength ▸ hmakes.new)) ?_
    rw [hb'.node hj, hid]
  · obtain ⟨J, hb, -, -, htuple⟩ := hfollows'.below h₀ hnone hserved hgrows
    rw [hmakes.tuple] at htuple
    generalize u'.tupleSource? = x? at htuple ⊢
    cases htuple with
    | some hgot =>
      rw [← hx, hb.node hgot.1]
  · rw [hkind]
    exact (hmakes.built.mono (stepKinds_within hgrows)).map hstands.served

/-- Whatever attaching the branches of a rule comes by has come to where the rule
    tells. -/
theorem PassesBranches.positioned {s : Session} {name : String} {r : Rule} {bs : List Branch}
    (hp : PassesBranches name bs (s.begun r) l es u) (hidle : s.Idle) (hbase : s.base.Reachable) :
    u.Positioned l := by
  obtain ⟨defs, inst, hsound⟩ := hbase.sound
  have h₀ := site_standing hsound.houses hsound.numbered
  exact (Tracked.of_passesBranches h₀ hp hidle.between_begun).positioned h₀

/-- **Tuple positions are right.**  Let a rule be compiled into a rule base that
    commands lead to.  Between any two elements, the scope and the slots of the
    tuple at hand are those that the rule tells: the number of patterns in scope,
    the offset and the number of slots are the same, and each slot is of the type of
    its pattern, or of the query if the pattern is the answer of a call.  And a node
    made for the rule that reads tuples was made when some element was attached:
    what its tests and arguments read are slots of the tuples on its left, each that
    of the first pattern in scope there that was declared at the offset written in
    the element. -/
theorem positions_correct {s s₀ : Session} {r : Rule} {begun : RuleId × PartitionId}
    (hidle : s.Idle) (hbase : s.base.Reachable) (hbegin : beginRule r s = .ok begun s₀) :
    (∀ {bs : List Branch} {l : Layout} {es : List Element} {u : Session},
      r.body.branches = .ok bs → PassesBranches r.name bs s₀ l es u →
        u.Positioned l ∧ l.Suited r.Calls) ∧
    ∀ {t : Session}, Leaves (attachRule r) s₀ t → ∀ a ∈ t.attached, a.created →
      ∃ n, t.base.network.nodes[a.id]? = some n ∧ (n.kind.ReadsTuples → ∃ bs l e es u u',
        r.body.branches = .ok bs ∧ PassesBranches r.name bs s₀ l (e :: es) u ∧
          MadeFor t.base.network.kinds l e u u' a.id n.kind) := by
  obtain ⟨-, rfl⟩ := hidle.eq_of_beginRule hbegin
  refine ⟨fun {bs l es u} hbs hp => ⟨hp.positioned hidle hbase, ?_⟩, fun {t} hl a ha hc => ?_⟩
  · exact hp.suited fun b hb => Rule.calls_of_branch hbs hb
  · obtain ⟨defs, inst, hsound⟩ := hbase.sound
    exact hidle.between_begun.madeFor (site_standing hsound.houses hsound.numbered) rfl hl ha hc

end Session

/-- A query is asked about a fact that follows a negation; its answers are of some
    type. -/
def Rule.asking (type : Symbol) : Rule where
  name := "asking"
  body := ⟨.and, [.group .not [.pattern { offset := 1, type := 3 }],
    .pattern { offset := 0, type := 2 }, .call ⟨5, [.bound ⟨0, 4⟩], { offset := 2, type }⟩]⟩

namespace Session

/-- The session that a step leaves behind. -/
def left {α : Type} : EStateM.Result Fault Session α → Session
  | .ok _ t => t
  | .error _ t => t

/-- Whether a step ended well. -/
def endedWell {α : Type} : EStateM.Result Fault Session α → Bool
  | .ok .. => true
  | .error .. => false

theorem leaves_left {α : Type} (step : Compile α) (s : Session) : Leaves step s (left (step s)) := by
  unfold Leaves left
  cases step s with
  | ok a t => exact .inl ⟨a, rfl⟩
  | error f t => exact .inr ⟨f, rfl⟩

theorem eq_ok_left {step : Compile Unit} {s : Session} (h : endedWell (step s)) :
    step s = .ok () (left (step s)) := by
  generalize step s = r at h ⊢
  cases r with
  | ok a t => rfl
  | error f t => cases h

/-- A session in which that rule has been begun. -/
def asking (type : Symbol) : Session := (start (.empty {})).begun (.asking type)

/-- The session after the rule has been attached. -/
def asked (type : Symbol) : Session := left (attachRule (.asking type) (asking type))

/-- The session after the elements of its only branch have been attached. -/
def askedMembers (type : Symbol) : Session :=
  left (insideElement (Rule.asking type).body.toElement
    (attachElements (Rule.asking type).body.members)
    ((asking type).resetBranch.opened "asking" ⟨0, (Rule.asking type).body⟩ none))

/-- The session before its terminal is attached. -/
def askedTuple (type : Symbol) : Session := left (ensureTuple (askedMembers type))

/-- What the rule tells there. -/
def askedLayout (type : Symbol) : Layout where
  scope := [.initialFact, { offset := 0, type := 2 }, { offset := 2, type }]
  slots := [Symbol.initialFact, 2, 5]

theorem passes_asking (type : Symbol)
    (hmembers : endedWell (insideElement (Rule.asking type).body.toElement
      (attachElements (Rule.asking type).body.members)
      ((asking type).resetBranch.opened "asking" ⟨0, (Rule.asking type).body⟩ none)))
    (htuple : endedWell (ensureTuple (askedMembers type))) :
    PassesBranches "asking" [⟨0, (Rule.asking type).body⟩] (asking type) (askedLayout type) []
      (askedTuple type) :=
  .ended rfl (eq_ok_left hmembers) (eq_ok_left htuple)

/-- The fact declared at offset 0 is at position 1, after the initial fact. -/
theorem positions_correct_asking : (start (.empty {})).Idle ∧ (start (.empty {})).base.Reachable ∧
    beginRule (.asking 5) (start (.empty {})) = .ok (0, .shared) (asking 5) ∧
    (askedTuple 5).Positioned (askedLayout 5) ∧ (askedLayout 5).Suited (Rule.asking 5).Calls ∧
    Leaves (attachRule (.asking 5)) (asking 5) (asked 5) ∧ ∃ bs l e es u u',
      (Rule.asking 5).body.branches = .ok bs ∧
        PassesBranches "asking" bs (asking 5) l (e :: es) u ∧
          MadeFor (asked 5).base.network.kinds l e u u' 7 (.queryElement 6 5 [.bound ⟨1, 4⟩]) := by
  have hidle : (start (.empty {})).Idle := idle_start rfl
  have hbase : (start (.empty {})).base.Reachable := .empty rfl
  have hbegin : beginRule (.asking 5) (start (.empty {})) = .ok (0, .shared) (asking 5) :=
    hidle.beginRule_ok (by decide +kernel)
  have hpasses := passes_asking 5 (by decide +kernel) (by decide +kernel)
  have hpositioned := (positions_correct hidle hbase hbegin).1 rfl hpasses
  have hleaves : Leaves (attachRule (.asking 5)) (asking 5) (asked 5) := leaves_left _ _
  have hmade : (⟨7, true, none, none⟩ : Attached) ∈ (asked 5).attached := by decide +kernel
  have hkind : ((asked 5).base.network.nodes[(7 : NodeId)]?).map (·.kind) =
      some (.queryElement 6 5 [.bound ⟨1, 4⟩]) := by decide +kernel
  obtain ⟨n, hn, hreads⟩ := (positions_correct hidle hbase hbegin).2 hleaves _ hmade rfl
  rw [hn, Option.map_some, Option.some.injEq] at hkind
  rw [hkind] at hreads
  exact ⟨hidle, hbase, hbegin, hpositioned.1, hpositioned.2, hleaves, hreads trivial⟩

/-- A rule is accepted though it gives the answers of a query another type; the
    slot of an answer is of the query all the same. -/
theorem not_positions_correct_answering : ¬ ∀ (s s₀ : Session) (r : Rule)
    (begun : RuleId × PartitionId), s.Idle → s.base.Reachable → beginRule r s = .ok begun s₀ →
      (∃ built, (s.base.add r).result = .ok built) → ∀ bs l es u, r.body.branches = .ok bs →
        PassesBranches r.name bs s₀ l es u → ∀ slots,
          u.base.network.kinds.TupleSlots slots u.tupleSource? → u.scope.map (·.type) = slots := by
  intro hall
  have hidle : (start (.empty {})).Idle := idle_start rfl
  have hbase : (start (.empty {})).base.Reachable := .empty rfl
  have hbegin : beginRule (.asking 3) (start (.empty {})) = .ok (0, .shared) (asking 3) :=
    hidle.beginRule_ok (by decide +kernel)
  have hpasses := passes_asking 3 (by decide +kernel) (by decide +kernel)
  have haccepted : ((start (.empty {})).base.add (.asking 3)).result.toBool := by decide +kernel
  have haccepted : ∃ built, ((start (.empty {})).base.add (.asking 3)).result = .ok built := by
    generalize ((start (.empty {})).base.add (.asking 3)).result = result at haccepted
    cases result with
    | ok built => exact ⟨built, rfl⟩
    | error failure => cases haccepted
  -- what the session is does not matter any more
  generalize askedTuple 3 = u at hpasses
  have hpositioned := hpasses.positioned hidle hbase
  have htypes := hall _ _ _ _ hidle hbase hbegin haccepted _ _ _ _ rfl hpasses _ hpositioned.tuple
  rw [hpositioned.scope] at htypes
  exact absurd htypes (by decide)

end Session

end RuleNet
