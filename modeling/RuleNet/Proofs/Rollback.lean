/-
  RuleNet — undoing what a rule has taken into use.

  While requests are served, every node can be traced back to what it was like
  before (`RuleBase.Traced`): one made for the rule was not there, and of any
  other the list of attachments holds what undoing needs.  Undoing the newest
  attachment leaves a rule base that is traced by the shorter list, so undoing
  all of them restores the rule base (`Traced.rollback`): its nodes and roots
  are the same again, and the same numbers will be given out next.

  A node that the rule used before is not listed, so undoing leaves the marks of
  its being taken into use again (`Node.Marked`).  Only a rule whose number is
  already that of another has used nodes before.
-/
import RuleNet.Proofs.Site
import RuleNet.Session.Compile

namespace RuleNet

/-! ## Nodes before and after -/

/-- The nodes that were made. -/
def createdIds (as : List Attached) : List NodeId := (as.filter (·.created)).map (·.id)

/-- A node after a rule has given it back. -/
def Node.undone (n : Node) (rule : RuleId) (a : Attached) : Node :=
  { n.disown rule with
    partition? := a.previousPartition?
    retention := n.retention.restore rule a.previousTotal? }

/-- What the node `n` under the number `x` was like before the attachments, if
    it was there. -/
def Node.former (rule : RuleId) (as : List Attached) (x : NodeId) (n : Node) : Option Node :=
  if x ∈ createdIds as then none
  else
    let m := (as.find? (·.id == x)).elim n (n.undone rule)
    some { m with sinks := n.sinks.filter (· ∉ createdIds as) }

namespace Node

/-- A node that the rule `k`, which used it before, has taken into use again as a
    rule of the partition `p`, any number of times. -/
inductive Marked (k : RuleId) (p : PartitionId) (n : Node) : Node → Prop where
  | refl : Marked k p n n
  | claimed {n' : Node} (h : Marked k p n n') (hk : k ∈ n.rules) (e? : Option Expiration) :
      Marked k p n (n'.claimed k p e?)

namespace Marked
variable {k : RuleId} {p q : PartitionId} {n n' : Node}

/-- What the node is has not changed, nor who uses it. -/
theorem same (h : n.Marked k p n') :
    n' = { n with partition? := n'.partition?, retention := n'.retention } := by
  induction h with
  | refl => rfl
  | @claimed n' _ hk e? ih =>
    obtain ⟨p?, hp⟩ := n'.claimed_eq k p e?
    have hrules : n.rules.insert k = n.rules := by
      ext r
      rw [Std.ExtTreeSet.mem_insert, Std.compare_eq_iff_eq, or_iff_right_iff_imp]
      rintro rfl
      exact hk
    rw [hp, ih]
    simp only [hrules]

theorem kind (h : n.Marked k p n') : n'.kind = n.kind := by rw [h.same]

theorem sinks (h : n.Marked k p n') : n'.sinks = n.sinks := by rw [h.same]

theorem rules (h : n.Marked k p n') : n'.rules = n.rules := by rw [h.same]

/-- There are no marks on a node that the rule did not use. -/
theorem untouched (h : n.Marked k p n') (hk : k ∉ n.rules) : n' = n := by
  cases h with
  | refl => rfl
  | claimed _ hk' => exact absurd hk' hk

/-- Other rules demand what they did. -/
theorem demands (h : n.Marked k p n') {r : RuleId} (hr : r ≠ k) :
    n'.retention.demands[r]? = n.retention.demands[r]? := by
  induction h with
  | refl => rfl
  | claimed _ _ _ ih => rw [claimed_demands, if_neg hr, ih]

theorem totalled (h : n.Marked k p n') (htotal : n.retention.Totalled) : n'.retention.Totalled := by
  induction h with
  | refl => exact htotal
  | claimed _ _ _ ih => exact claimed_totalled ih

theorem map_kind {o o' : Option Node} (h : Option.Rel (Marked k p) o o') :
    o'.map (·.kind) = o.map (·.kind) := by
  cases h with
  | none => rfl
  | some h => exact congrArg some h.kind

end Marked

/-- Taking a node into use has nothing to do with what hangs below it. -/
theorem claimed_sinks_eq (n : Node) (rule : RuleId) (partition : PartitionId)
    (e? : Option Expiration) (sinks : List NodeId) :
    { n.claimed rule partition e? with sinks } = { n with sinks }.claimed rule partition e? := by
  unfold claimed own stamp stampOf require
  cases e? <;> cases n.partition? <;> simp only [Option.elim_none, Option.elim_some] <;>
    split <;> rfl

end Node

section Former
variable {rule : RuleId} {as : List Attached} {a : Attached} {x : NodeId} {n : Node}
variable {partition : PartitionId} {e? : Option Expiration}

theorem createdIds_append (as bs : List Attached) :
    createdIds (as ++ bs) = createdIds as ++ createdIds bs := by
  simp [createdIds]

theorem createdIds_concat_created (as : List Attached) (hc : a.created) :
    createdIds (as ++ [a]) = createdIds as ++ [a.id] := by
  rw [createdIds_append]
  simp [createdIds, hc]

theorem createdIds_concat_shared (as : List Attached) (hc : ¬ a.created) :
    createdIds (as ++ [a]) = createdIds as := by
  rw [createdIds_append]
  simp [createdIds, hc]

theorem mem_createdIds : x ∈ createdIds as ↔ ∃ a ∈ as, a.created ∧ a.id = x := by
  simp [createdIds, and_assoc]

theorem createdIds_subset (h : x ∈ createdIds as) : x ∈ as.map (·.id) := by
  obtain ⟨a, ha, -, rfl⟩ := mem_createdIds.1 h
  exact List.mem_map_of_mem ha

theorem find?_concat_of_ne (h : x ≠ a.id) :
    (as ++ [a]).find? (·.id == x) = as.find? (·.id == x) := by
  rw [List.find?_append, List.find?_singleton, if_neg (by simpa using Ne.symm h), Option.or_none]

theorem find?_eq_none_of_not_mem (h : x ∉ as.map (·.id)) : as.find? (·.id == x) = none := by
  refine List.find?_eq_none.2 fun a ha hid => h ?_
  rw [← beq_iff_eq.1 hid]
  exact List.mem_map_of_mem ha

/-- Undoing does not depend on how often the rule took the node into use. -/
theorem Node.undone_claimed : (n.claimed rule partition e?).undone rule a = n.undone rule a := by
  obtain ⟨p?, h⟩ := n.claimed_eq rule partition e?
  rw [h]
  have hrules : (n.rules.insert rule).erase rule = n.rules.erase rule := by
    ext r
    by_cases hr : rule = r <;> simp [Std.ExtTreeSet.mem_erase, Std.ExtTreeSet.mem_insert, hr]
  have hret : (e?.elim n.retention (n.retention.require rule)).restore rule a.previousTotal? =
      n.retention.restore rule a.previousTotal? := by
    cases e? with
    | none => rfl
    | some e =>
      simp only [Option.elim_some, Retention.restore, Retention.require, Retention.mk.injEq, and_true]
      ext r : 1
      simp only [Std.ExtTreeMap.getElem?_erase, Std.ExtTreeMap.getElem?_insert]
      split <;> simp_all
  simp only [undone, disown, hrules, hret]

/-- A rule that did not use a node gives it back as it was. -/
theorem Node.undone_of_not_mem (h : rule ∉ n.rules) (hd : n.retention.demands[rule]? = none) :
    n.undone rule ⟨x, false, n.partition?, n.retention.total⟩ = n := by
  have hrules : n.rules.erase rule = n.rules := by
    ext r
    rw [Std.ExtTreeSet.mem_erase]
    refine and_iff_right_of_imp fun hr => ?_
    rintro heq
    rw [Std.compare_eq_iff_eq] at heq
    exact h (heq ▸ hr)
  have hdemands : n.retention.demands.erase rule = n.retention.demands := by
    ext r : 1
    rw [Std.ExtTreeMap.getElem?_erase]
    split
    · rename_i heq
      rw [Std.compare_eq_iff_eq] at heq
      rw [← heq, hd]
    · rfl
  simp only [undone, disown, hrules, Retention.restore, hdemands]

theorem concat_eq_split {b : Attached} {l₁ l₂ : List Attached} (h : as ++ [b] = l₁ ++ a :: l₂) :
    (l₂ = [] ∧ b = a) ∨ ∃ l, l₂ = l ++ [b] ∧ as = l₁ ++ a :: l := by
  rcases List.eq_nil_or_concat l₂ with rfl | ⟨l, c, rfl⟩
  · exact Or.inl ⟨rfl, (List.append_inj' h rfl).2 |> List.singleton_inj.1⟩
  · have h' : as ++ [b] = (l₁ ++ a :: l) ++ [c] := by simpa using h
    obtain ⟨hl, hb⟩ := List.append_inj' h' rfl
    exact Or.inr ⟨l, by rw [List.singleton_inj.1 hb, List.concat_eq_append], hl⟩

namespace Node

theorem former_of_created (h : x ∈ createdIds as) : n.former rule as x = none := if_pos h

theorem former_of_not_created (h : x ∉ createdIds as) : n.former rule as x =
    some { (as.find? (·.id == x)).elim n (n.undone rule) with
      sinks := n.sinks.filter (· ∉ createdIds as) } := if_neg h

/-- Of a node that is not listed, only the sinks are known to have changed. -/
theorem former_of_not_listed (h : x ∉ as.map (·.id)) : n.former rule as x =
    some { n with sinks := n.sinks.filter (· ∉ createdIds as) } := by
  rw [former_of_not_created (mt createdIds_subset h), find?_eq_none_of_not_mem h]
  rfl

/-- Only the first time that a rule takes a node into use counts. -/
theorem former_claimed (h : x ∈ as.map (·.id)) :
    (n.claimed rule partition e?).former rule as x = n.former rule as x := by
  by_cases hx : x ∈ createdIds as
  · rw [former_of_created hx, former_of_created hx]
  · obtain ⟨a, ha, hid⟩ := List.mem_map.1 h
    obtain ⟨b, hb⟩ : ∃ b, as.find? (·.id == x) = some b :=
      Option.isSome_iff_exists.1 (List.find?_isSome.2 ⟨a, ha, beq_iff_eq.2 hid⟩)
    rw [former_of_not_created hx, former_of_not_created hx, hb]
    simp only [Option.elim_some, undone_claimed, claimed_sinks]

/-- Undoing the newest attachment of a node that was there. -/
theorem former_undone (h : a.id ∉ as.map (·.id)) (hc : ¬ a.created) :
    (n.undone rule a).former rule as a.id = n.former rule (as ++ [a]) a.id := by
  have hx : a.id ∉ createdIds as := fun hx => h (createdIds_subset hx)
  have hids := createdIds_concat_shared as hc
  rw [former_of_not_created hx, former_of_not_created (by rwa [hids]), hids,
    find?_eq_none_of_not_mem h, List.find?_append, find?_eq_none_of_not_mem h, Option.none_or,
    List.find?_singleton, if_pos (beq_self_eq_true _)]
  rfl

/-- An attachment of one node tells nothing about another. -/
theorem former_concat (hx : x ≠ a.id) (hc : ¬ a.created) :
    n.former rule (as ++ [a]) x = n.former rule as x := by
  have hids := createdIds_concat_shared as hc
  simp only [former, hids, find?_concat_of_ne hx]

/-- Undoing the newest attachment, of a node that was made. -/
theorem former_dropSink (hx : x ≠ a.id) (hc : a.created) :
    (n.dropSink a.id).former rule as x = n.former rule (as ++ [a]) x := by
  have hids := createdIds_concat_created as hc
  have hmem : x ∈ createdIds (as ++ [a]) ↔ x ∈ createdIds as := by
    rw [hids, List.mem_append, List.mem_singleton]
    exact or_iff_left hx
  have hsinks : (n.sinks.filter (· ≠ a.id)).filter (· ∉ createdIds as) =
      n.sinks.filter (· ∉ createdIds (as ++ [a])) := by
    rw [List.filter_filter, hids]
    refine List.filter_congr fun s _ => ?_
    simp [not_or]
  by_cases hx' : x ∈ createdIds as
  · rw [former_of_created hx', former_of_created (hmem.2 hx')]
  · rw [former_of_not_created hx', former_of_not_created (mt hmem.1 hx'), find?_concat_of_ne hx,
      ← hsinks]
    cases as.find? (·.id == x) <;> rfl

/-- A node that does not hang above the one that was made last. -/
theorem former_concat_created (hx : x ≠ a.id) (hc : a.created) (hs : a.id ∉ n.sinks) :
    n.former rule (as ++ [a]) x = n.former rule as x := by
  rw [← former_dropSink hx hc, dropSink_of_not_mem hs]

/-- A node that hangs above the one that was made last. -/
theorem former_addSink (hx : x ≠ a.id) (hc : a.created) (hs : a.id ∉ n.sinks) :
    (n.addSink a.id).former rule (as ++ [a]) x = n.former rule as x := by
  rw [← former_dropSink hx hc, dropSink_addSink hs]

end Node

end Former

/-! ## Tracing -/

/-- Every node of `base` can be traced back to `base₀` by the attachments. -/
structure RuleBase.Traced (base₀ base : RuleBase) (rule : RuleId) (partition : PartitionId)
    (as : List Attached) : Prop where
  /-- Only the network and the numbers have changed. -/
  rest : base = { base₀ with network := base.network, ids := base.ids }
  wired : base.network.Wired
  numbered : base.Numbered
  nodup : (as.map (·.id)).Nodup
  /-- The nodes before are those that the list tells of, but for marks. -/
  former : ∀ x : NodeId, Option.Rel (Node.Marked rule partition) base₀.network.nodes[x]?
    (base.network.nodes[x]?.bind (Node.former rule as x))
  /-- The nodes that were made are there. -/
  created : ∀ x ∈ createdIds as, ∃ n, base.network.nodes[x]? = some n
  /-- What hangs below a node that was made, was made later. -/
  sinks : ∀ {l₁ l₂ : List Attached} {a : Attached} {n : Node}, as = l₁ ++ a :: l₂ → a.created →
    base.network.nodes[a.id]? = some n → ∀ s ∈ n.sinks, s ∈ createdIds l₂
  /-- The numbers that were given out are those that were next. -/
  upcoming : ∀ k, base₀.ids.upcoming ((createdIds as).length + k) =
    createdIds as ++ base.ids.upcoming k

namespace RuleBase.Traced

variable {base₀ base : RuleBase} {rule : RuleId} {as : List Attached} {a : Attached}
variable {w w₀ : Site} {I : Installation} {q : Request}
variable {partition : PartitionId} {origin? : Option Origin} {x : NodeId} {n m : Node}

theorem start (hw : base.network.Wired) (hn : base.Numbered) : Traced base base rule partition [] where
  rest := rfl
  wired := hw
  numbered := hn
  nodup := List.nodup_nil
  former x := by
    have hsame : base.network.nodes[x]?.bind (Node.former rule [] x) = base.network.nodes[x]? := by
      cases base.network.nodes[x]? with
      | none => rfl
      | some n => simp [Node.former, createdIds]
    rw [hsame]
    cases base.network.nodes[x]? with
    | none => exact .none
    | some n => exact .some .refl
  created x h := absurd h List.not_mem_nil
  sinks h := by simp at h
  upcoming k := by simp [createdIds]

/-! ## Serving is traced -/

section Touch
variable (h : Traced base₀ w.base rule partition w.attached) (hs : w.Standing rule I)
include h hs

omit h in
/-- A node that the rule takes into use for the first time is listed as it
    was. -/
theorem former_touch_new (partition : PartitionId) (e? : Option Expiration)
    (hn : w.base.network.nodes[x]? = some n) (hr : rule ∉ n.rules) :
    (n.claimed rule partition e?).former rule
      (w.attached ++ [⟨x, false, n.partition?, n.retention.total⟩]) x =
    n.former rule w.attached x := by
  have hx : x ∉ w.attached.map (·.id) := by
    intro hx
    obtain ⟨m, hm, hrm⟩ := hs.listed x hx
    obtain rfl : n = m := Option.some.inj (hn.symm.trans hm)
    exact hr hrm
  rw [← Node.former_undone hx (by simp), Node.undone_claimed,
    Node.undone_of_not_mem hr (hs.demanded hn hr)]

omit hs in
/-- A node that the rule used before it was listed gets marked. -/
theorem former_touch_used (e? : Option Expiration)
    (hn : w.base.network.nodes[x]? = some n) (hr : rule ∈ n.rules) :
    Option.Rel (Node.Marked rule partition) base₀.network.nodes[x]?
      ((n.claimed rule partition e?).former rule w.attached x) := by
  have hbefore := h.former x
  rw [hn, Option.bind_some] at hbefore
  by_cases hx : x ∈ w.attached.map (·.id)
  · rwa [Node.former_claimed hx]
  · rw [Node.former_of_not_listed hx] at hbefore
    rw [Node.former_of_not_listed hx, Node.claimed_sinks, Node.claimed_sinks_eq]
    cases hm : base₀.network.nodes[x]? with
    | none =>
      rw [hm] at hbefore
      cases hbefore
    | some m =>
      rw [hm] at hbefore
      cases hbefore with
      | some hmark =>
        have hrm : rule ∈ m.rules := by
          rw [← hmark.rules]
          exact hr
        exact .some (hmark.claimed hrm e?)

theorem former_touch (e? : Option Expiration)
    (hn : w.base.network.nodes[x]? = some n) (y : NodeId) :
    Option.Rel (Node.Marked rule partition) base₀.network.nodes[y]?
      ((w.touch rule partition e? x).base.network.nodes[y]?.bind
        (Node.former rule (w.touch rule partition e? x).attached y)) := by
  rw [Site.touch_nodes, Site.Standing.attached_touch rule partition e? hn]
  by_cases hy : y = x
  · subst hy
    rw [if_pos rfl, hn, Option.map_some, Option.bind_some]
    split
    · rename_i hr
      exact h.former_touch_used e? hn hr
    · rename_i hr
      have hbefore := h.former y
      rwa [hn, Option.bind_some, ← former_touch_new hs partition e? hn hr] at hbefore
  · have hsame : w.base.network.nodes[y]?.bind (Node.former rule (if rule ∈ n.rules then w.attached
        else w.attached ++ [⟨x, false, n.partition?, n.retention.total⟩]) y) =
        w.base.network.nodes[y]?.bind (Node.former rule w.attached y) := by
      split
      · rfl
      · exact Option.bind_congr fun m _ => Node.former_concat hy (by simp)
    rw [if_neg hy, hsame]
    exact h.former y

omit hs in
/-- A node that is used hangs where it hung. -/
theorem sinks_touch {e? : Option Expiration} (hn : w.base.network.nodes[x]? = some n)
    {l₁ l₂ : List Attached} (hl : (w.touch rule partition e? x).attached = l₁ ++ a :: l₂)
    (ha : a.created) (hm : (w.touch rule partition e? x).base.network.nodes[a.id]? = some m) :
    ∀ s ∈ m.sinks, s ∈ createdIds l₂ := by
  intro s hsm
  obtain ⟨m₀, hm₀, -, -, hsinks⟩ := Network.modify_cases
    (fun n => ⟨Node.claimed_id, Node.claimed_kind, Node.claimed_sinks⟩) hm
  rw [hsinks] at hsm
  rw [Site.Standing.attached_touch rule partition e? hn] at hl
  split at hl
  · exact h.sinks hl ha hm₀ s hsm
  · obtain ⟨-, rfl⟩ | ⟨l, rfl, hl₀⟩ := concat_eq_split hl
    · cases ha
    · rw [createdIds_append]
      exact List.mem_append_left _ (h.sinks hl₀ ha hm₀ s hsm)

theorem touch (hq : q.Follows w.base.config.objectTypeMemory I.steps)
    (hx : w.base.network.existing w.base.config q.guardsOut (I.wanted rule q) = some x) :
    Traced base₀ (w.touch rule partition q.expiration? x).base rule partition
      (w.touch rule partition q.expiration? x).attached := by
  obtain ⟨n, hn, -⟩ := Site.existing_serves hs.stands hq hx
  have hs' := hs.touch hq partition hx
  -- a node that was there is not one that was made
  have hids : createdIds (w.touch rule partition q.expiration? x).attached = createdIds w.attached := by
    rw [Site.Standing.attached_touch rule partition q.expiration? hn]
    split
    · rfl
    · exact createdIds_concat_shared _ (by simp)
  exact {
    rest := by rw [Site.touch, h.rest]
    wired := hs'.stands.wired
    numbered := hs'.numbered
    nodup := hs'.nodup
    former := h.former_touch hs q.expiration? hn
    created := by
      intro y hy
      rw [hids] at hy
      obtain ⟨m, hm⟩ := h.created y hy
      rw [Site.touch_nodes, hm]
      split <;> exact ⟨_, rfl⟩
    sinks := h.sinks_touch hn
    upcoming := by
      rw [hids]
      exact h.upcoming }

end Touch

section Make
variable {kind : NodeKind} {e? : Option Expiration}
variable (h : Traced base₀ w.base rule partition w.attached) (hs : w.Standing rule I)
variable (hparents : (w.base.network.parentsOf kind).Nodup)
include h hs

/-- The next number hangs below no node yet. -/
theorem issue_not_mem_sinks (hm : w.base.network.nodes[x]? = some m) :
    w.base.ids.issue.1 ∉ m.sinks := by
  intro hmem
  obtain ⟨n, hn⟩ := h.wired.sink_mem hm hmem
  rw [hs.fresh] at hn
  cases hn

include hparents

theorem former_make (y : NodeId) : Option.Rel (Node.Marked rule partition) base₀.network.nodes[y]?
    ((w.make rule partition e? kind origin?).base.network.nodes[y]?.bind
      (Node.former rule (w.make rule partition e? kind origin?).attached y)) := by
  have hsame : (w.make rule partition e? kind origin?).base.network.nodes[y]?.bind
      (Node.former rule (w.make rule partition e? kind origin?).attached y) =
      w.base.network.nodes[y]?.bind (Node.former rule w.attached y) := by
    rw [Site.make_nodes w rule partition e? origin? hparents]
    by_cases hy : y = w.base.ids.issue.1
    · subst hy
      rw [if_pos rfl, hs.fresh, Option.bind_none, Option.bind_some, Node.former_of_created]
      exact mem_createdIds.2 ⟨_, List.mem_append_right _ (List.mem_singleton_self _), rfl, rfl⟩
    · rw [if_neg hy]
      cases hm : w.base.network.nodes[y]? with
      | none => simp
      | some m =>
        have hfresh := h.issue_not_mem_sinks hs hm
        split
        · rw [Option.map_some, Option.bind_some, Option.bind_some]
          exact Node.former_addSink hy rfl hfresh
        · rw [Option.bind_some, Option.bind_some]
          exact Node.former_concat_created hy rfl hfresh
  rw [hsame]
  exact h.former y

/-- Only the node that is made comes to hang below nodes. -/
theorem sinks_make {l₁ l₂ : List Attached}
    (hl : (w.make rule partition e? kind origin?).attached = l₁ ++ a :: l₂) (ha : a.created)
    (hm : (w.make rule partition e? kind origin?).base.network.nodes[a.id]? = some m) :
    ∀ s ∈ m.sinks, s ∈ createdIds l₂ := by
  intro s hsm
  rw [Site.make_nodes w rule partition e? origin? hparents] at hm
  obtain ⟨rfl, rfl⟩ | ⟨l, rfl, hl₀⟩ := concat_eq_split hl
  · -- nothing hangs below the new node
    rw [if_pos rfl] at hm
    cases hm
    rw [Node.claimed_sinks] at hsm
    exact absurd hsm List.not_mem_nil
  · obtain ⟨m₀, hm₀⟩ := h.created a.id (mem_createdIds.2 ⟨a, by rw [hl₀]; simp, ha, rfl⟩)
    have hne : a.id ≠ w.base.ids.issue.1 := fun heq => by
      rw [heq, hs.fresh] at hm₀
      cases hm₀
    rw [if_neg hne, hm₀] at hm
    rw [createdIds_append, List.mem_append]
    split at hm <;> cases hm
    · rcases List.mem_append.1 hsm with hsm | hsm
      · exact Or.inl (h.sinks hl₀ ha hm₀ s hsm)
      · exact Or.inr (by simpa [createdIds] using hsm)
    · exact Or.inl (h.sinks hl₀ ha hm₀ s hsm)

omit hparents in
theorem make (hq : q.Follows w.base.config.objectTypeMemory I.steps)
    (hx : w.base.network.existing w.base.config q.guardsOut (I.wanted rule q) = none) :
    Traced base₀ (w.make rule partition q.expiration? (I.wanted rule q) origin?).base rule partition
      (w.make rule partition q.expiration? (I.wanted rule q) origin?).attached := by
  have hf := Site.wanted_fits hs.stands hq origin? hx hs.fresh
  have hs' := hs.make hq partition origin? hx
  have hids : createdIds (w.make rule partition q.expiration? (I.wanted rule q) origin?).attached =
      createdIds w.attached ++ [w.base.ids.issue.1] := createdIds_append _ _
  exact {
    rest := by rw [Site.make, h.rest]
    wired := hs'.stands.wired
    numbered := hs'.numbered
    nodup := hs'.nodup
    former := h.former_make hs hf.parents_nodup
    created := by
      intro y hy
      rw [hids, List.mem_append, List.mem_singleton] at hy
      rw [Site.make_nodes w rule partition q.expiration? origin? hf.parents_nodup]
      split
      · exact ⟨_, rfl⟩
      · obtain ⟨m, hm⟩ := h.created y (hy.resolve_right ‹_›)
        rw [hm]
        split <;> exact ⟨_, rfl⟩
    sinks := h.sinks_make hs hf.parents_nodup
    upcoming := by
      intro k
      rw [hids, List.length_append, List.length_singleton, Nat.add_assoc, h.upcoming,
        Nat.add_comm 1 k, IdPool.upcoming, List.append_assoc]
      rfl }

end Make

theorem serve (h : Traced base₀ w.base rule partition w.attached) (hs : w.Standing rule I)
    (hq : q.Follows w.base.config.objectTypeMemory I.steps) :
    Traced base₀
      (w.serve rule partition q.guardsOut (I.wanted rule q) q.expiration? origin?).2.base rule partition
      (w.serve rule partition q.guardsOut (I.wanted rule q) q.expiration? origin?).2.attached := by
  unfold Site.serve
  split
  · rename_i x hx
    exact h.touch hs hq hx
  · rename_i hx
    exact h.make hs hq hx

end RuleBase.Traced

/-- What serving requests has done to a rule base can be traced back. -/
theorem Site.Runs.traced {base : RuleBase} {w : Site} {rule : RuleId} {partition : PartitionId}
    {I : Installation} (hr : Runs rule partition ⟨base, []⟩ I w)
    (h₀ : Site.Standing ⟨base, []⟩ rule .empty) : base.Traced w.base rule partition w.attached := by
  induction hr with
  | start => exact .start h₀.stands.wired h₀.numbered
  | step q origin? before follows ih =>
    have hs := before.standing h₀
    rw [← before.config_eq] at follows
    exact ih.serve hs follows

/-- A rule that had used no node has left no marks. -/
theorem Site.Runs.former {base : RuleBase} {w : Site} {rule : RuleId} {partition : PartitionId}
    {I : Installation} {inst : RuleId → Option Installation}
    (hr : Runs rule partition ⟨base, []⟩ I w) (h₀ : Site.Sound ⟨base, []⟩ inst rule .empty)
    (x : NodeId) :
    base.network.nodes[x]? = w.base.network.nodes[x]?.bind (Node.former rule w.attached x) := by
  have hx := (hr.traced h₀.standing).former x
  cases hn : base.network.nodes[x]? with
  | none =>
    rw [hn] at hx
    cases hm : w.base.network.nodes[x]?.bind (Node.former rule w.attached x) with
    | none => rfl
    | some m => rw [hm] at hx; cases hx
  | some n =>
    have hnot : rule ∉ n.rules := fun hmem =>
      absurd ((h₀.rule_mem_iff hn).1 hmem) List.not_mem_nil
    rw [hn] at hx
    cases hm : w.base.network.nodes[x]?.bind (Node.former rule w.attached x) with
    | none => rw [hm] at hx; cases hx
    | some m =>
      rw [hm] at hx
      cases hx with
      | some hmark => rw [hmark.untouched hnot]

/-! ## Marks -/

/-- A network on which the rule `k` has left marks, on nodes that it used
    before. -/
structure Network.Marked (k : RuleId) (p : PartitionId) (net net' : Network) : Prop where
  /-- Only nodes have changed. -/
  shape : net' = { net with nodes := net'.nodes }
  nodes : ∀ x : NodeId, Option.Rel (Node.Marked k p) net.nodes[x]? net'.nodes[x]?

namespace Network.Marked

variable {net net' : Network} {config : Config} {inst : RuleId → Option Installation}
variable {k : RuleId} {p : PartitionId} {x : NodeId} {n n' : Node}

theorem refl (k : RuleId) (p : PartitionId) (net : Network) : net.Marked k p net where
  shape := rfl
  nodes x := by
    cases net.nodes[x]? with
    | none => exact .none
    | some n => exact .some .refl

variable (h : net.Marked k p net')
include h

theorem exists_marked (hn : net.nodes[x]? = some n) :
    ∃ n', net'.nodes[x]? = some n' ∧ n.Marked k p n' := by
  have hx := h.nodes x
  rw [hn] at hx
  cases hn' : net'.nodes[x]? with
  | none => rw [hn'] at hx; cases hx
  | some n' =>
    rw [hn'] at hx
    cases hx with
    | some hmark => exact ⟨n', rfl, hmark⟩

theorem exists_former (hn' : net'.nodes[x]? = some n') :
    ∃ n, net.nodes[x]? = some n ∧ n.Marked k p n' := by
  have hx := h.nodes x
  rw [hn'] at hx
  cases hn : net.nodes[x]? with
  | none => rw [hn] at hx; cases hx
  | some n =>
    rw [hn] at hx
    cases hx with
    | some hmark => exact ⟨n, rfl, hmark⟩

/-- A rule that used no node leaves no marks. -/
theorem eq_of_unused (hunused : ∀ (x : NodeId) (n : Node), net.nodes[x]? = some n → k ∉ n.rules) :
    net' = net := by
  have hnodes : net'.nodes = net.nodes := by
    ext x : 1
    have hx := h.nodes x
    cases hn : net.nodes[x]? with
    | none =>
      rw [hn] at hx
      cases hn' : net'.nodes[x]? with
      | none => rfl
      | some n' => rw [hn'] at hx; cases hx
    | some n =>
      obtain ⟨n', hn', hmark⟩ := h.exists_marked hn
      rw [hn', hmark.untouched (hunused x n hn)]
  rw [h.shape, hnodes]

theorem parentsOf (kind : NodeKind) : net'.parentsOf kind = net.parentsOf kind := by
  rw [h.shape]
  rfl

theorem evolves (hw : net.Wired) (hw' : net'.Wired) : net.Evolves net' where
  wired := hw
  wired' := hw'
  kind {x n n'} hn hn' := by
    obtain ⟨m, hm, hmark⟩ := h.exists_marked hn
    rw [Option.some.inj (hn'.symm.trans hm), hmark.kind]
  sinks {x n n'} hn hn' := by
    obtain ⟨m, hm, hmark⟩ := h.exists_marked hn
    rw [Option.some.inj (hn'.symm.trans hm), hmark.sinks]
    exact ⟨fun _ => true, [], by simp, by simp⟩

/-- **Marks do not matter for what a network houses.** -/
theorem houses (hw' : net'.Wired) (hh : net.Houses config inst) : net'.Houses config inst where
  wired := hw'
  lengths := hh.lengths
  orderly := hh.orderly
  placed hI hq hx := by
    obtain ⟨n, hn, hserves⟩ := hh.placed hI hq hx
    obtain ⟨n', hn', hmark⟩ := h.exists_marked hn
    exact ⟨n', hn', by rwa [hmark.kind]⟩
  owners hn' r := by
    obtain ⟨n, hn, hmark⟩ := h.exists_former hn'
    rw [hmark.rules]
    exact hh.owners hn r
  used hn' hroot := by
    obtain ⟨n, hn, hmark⟩ := h.exists_former hn'
    rw [hmark.rules]
    exact hh.used hn (hmark.kind ▸ hroot)
  demanded hn' r hr := by
    obtain ⟨n, hn, hmark⟩ := h.exists_former hn'
    rw [hmark.rules] at hr
    by_cases hk : k ∈ n.rules
    · rw [hmark.demands fun heq : r = k => hr (heq ▸ hk)]
      exact hh.demanded hn r hr
    · rw [hmark.untouched hk]
      exact hh.demanded hn r hr
  totalled hn' := by
    obtain ⟨n, hn, hmark⟩ := h.exists_former hn'
    exact hmark.totalled (hh.totalled hn)
  memory hn' hkind := by
    obtain ⟨n, hn, hmark⟩ := h.exists_former hn'
    exact hh.memory hn (hmark.kind ▸ hkind)
  cross hn' hkind := by
    obtain ⟨n, hn, hmark⟩ := h.exists_former hn'
    exact hh.cross hn (hmark.kind ▸ hkind)
  maximal hx hy hshares hserves := by
    obtain ⟨n, hn, hmark⟩ := h.exists_former hx
    obtain ⟨m, hm, hmark'⟩ := h.exists_former hy
    rw [hmark.kind] at hshares hserves
    rw [hmark'.kind] at hserves
    exact hh.maximal hn hm hshares hserves
  alone := hh.alone
  chosen hI hq hx hshares := by
    obtain ⟨n, hn, -⟩ := hh.placed hI hq hx
    obtain ⟨n', hn', -⟩ := h.exists_marked hn
    exact (h.evolves hh.wired hw').existing_stays (hh.chosen hI hq hx hshares) hn'
  made hI hq hx hshares hn' := by
    obtain ⟨n, hn, hmark⟩ := h.exists_former hn'
    rw [hmark.kind]
    exact hh.made hI hq hx hshares hn

end Network.Marked

/-! ## Undoing -/

namespace RuleBase

variable {base₀ base : RuleBase} {rule : RuleId} {partition : PartitionId} {as : List Attached}
variable {a : Attached} {n m : Node}

/-- A rule base that is as another one was, but for the numbers that were given
    out and returned meanwhile, and for marks that a rule has left. -/
structure Restored (base₀ base : RuleBase) (rule : RuleId) (partition : PartitionId) : Prop where
  /-- Only the network and the numbers have changed. -/
  rest : base = { base₀ with network := base.network, ids := base.ids }
  wired : base.network.Wired
  marked : base₀.network.Marked rule partition base.network
  valid : base.ids.Valid
  live : ∀ x, base.ids.isLive x ↔ base₀.ids.isLive x
  upcoming : ∀ k, base.ids.upcoming k = base₀.ids.upcoming k

section Newest
variable (h : Traced base₀ base rule partition (as ++ [a]))
include h

/-- A node is attached once. -/
theorem Traced.nodup_concat : a.id ∉ as.map (·.id) ∧ (as.map (·.id)).Nodup := by
  have hnd := h.nodup
  rwa [List.map_append, List.map_singleton, ← List.concat_eq_append, List.nodup_concat] at hnd

theorem Traced.sinks_concat {l₁ l₂ : List Attached} {b : Attached} (hl : as = l₁ ++ b :: l₂)
    (hb : b.created) (hn : base.network.nodes[b.id]? = some n) :
    ∀ s ∈ n.sinks, s ∈ createdIds (l₂ ++ [a]) :=
  h.sinks (show as ++ [a] = l₁ ++ b :: (l₂ ++ [a]) by simp [hl]) hb hn

/-- Undoing a shared node, the nodes before are those that the rest of the list
    tells of. -/
theorem Traced.former_undone (hc : ¬ a.created) (x : NodeId) :
    Option.Rel (Node.Marked rule partition) base₀.network.nodes[x]?
      ((base.network.modify a.id (·.undone rule a)).nodes[x]?.bind (Node.former rule as x)) := by
  have hformer := h.former x
  rw [Network.getElem?_modify_nodes]
  split
  · rename_i hx
    subst hx
    cases hn : base.network.nodes[a.id]? with
    | none => rwa [hn] at hformer
    | some n =>
      rw [hn, Option.bind_some, ← Node.former_undone h.nodup_concat.1 hc] at hformer
      exact hformer
  · rename_i hx
    rwa [Option.bind_congr fun n _ => Node.former_concat hx hc] at hformer

theorem Traced.undo_shared (hc : ¬ a.created) : Traced base₀ (base.undo rule a) rule partition as := by
  have hundo : base.undo rule a =
      { base with network := base.network.modify a.id (·.undone rule a) } := if_neg hc
  have hids := createdIds_concat_shared as hc
  have hlook := Network.getElem?_modify_nodes base.network a.id (·.undone rule a)
  rw [hundo]
  exact {
    rest := by rw [h.rest]
    wired := h.wired.modify fun n => ⟨rfl, rfl, rfl⟩
    numbered := by
      refine ⟨h.numbered.valid, fun x => (h.numbered.live x).trans ?_⟩
      rw [hlook]
      split <;> simp [Option.map_eq_some_iff]
    nodup := h.nodup_concat.2
    former := h.former_undone hc
    created := by
      intro x hx
      rw [← hids] at hx
      obtain ⟨n, hn⟩ := h.created x hx
      rw [hlook, hn]
      split <;> exact ⟨_, rfl⟩
    sinks := by
      intro l₁ l₂ b m hl hb hm s hs
      obtain ⟨m₀, hm₀, -, -, hsinks⟩ :=
        Network.modify_cases (f := (·.undone rule a)) (fun n => ⟨rfl, rfl, rfl⟩) hm
      have hmem := h.sinks_concat hl hb hm₀ s (hsinks ▸ hs)
      rwa [createdIds_concat_shared _ hc] at hmem
    upcoming := by
      rw [← hids]
      exact h.upcoming }

/-- Nothing was made after the newest node, so nothing hangs below it. -/
theorem Traced.newest_bare (hc : a.created) :
    ∃ n, base.network.nodes[a.id]? = some n ∧ n.sinks = [] := by
  obtain ⟨n, hn⟩ := h.created a.id (by rw [createdIds_concat_created as hc]; simp)
  refine ⟨n, hn, List.eq_nil_iff_forall_not_mem.2 fun s hs => ?_⟩
  have hmem : s ∈ createdIds [] := h.sinks rfl hc hn s hs
  exact absurd hmem List.not_mem_nil

/-- The number of the newest node is the next one again. -/
theorem Traced.upcoming_recycle (hc : a.created) (k : Nat) :
    base₀.ids.upcoming ((createdIds as).length + k) =
      createdIds as ++ (base.ids.recycle a.id).upcoming k := by
  have hids := createdIds_concat_created as hc
  cases k with
  | zero =>
    have hnext := h.upcoming 0
    rw [hids, List.length_append, List.length_singleton, IdPool.upcoming] at hnext
    rw [IdPool.upcoming, List.append_nil, Nat.add_zero, ← IdPool.take_upcoming _ _ 1, hnext]
    simp
  | succ k =>
    have hnext := h.upcoming k
    rw [hids, List.length_append, List.length_singleton, List.append_assoc] at hnext
    rw [IdPool.upcoming_recycle, Nat.add_comm k 1, ← Nat.add_assoc, hnext]
    rfl

/-- Undoing a node that was made, the nodes before are those that the rest of the
    list tells of. -/
theorem Traced.former_unlink (hc : a.created) (hn : base.network.nodes[a.id]? = some n)
    (x : NodeId) : Option.Rel (Node.Marked rule partition) base₀.network.nodes[x]?
      ((base.network.unlink n).nodes[x]?.bind (Node.former rule as x)) := by
  have hformer := h.former x
  rw [h.wired.getElem?_unlink_nodes hn]
  split
  · rename_i hx
    subst hx
    have hmade : a.id ∈ createdIds (as ++ [a]) := by simp [createdIds_concat_created as hc]
    rwa [hn, Option.bind_some, Node.former_of_created hmade] at hformer
  · rename_i hx
    cases hm : base.network.nodes[x]? with
    | none => rwa [hm] at hformer
    | some m =>
      rw [hm, Option.bind_some, ← Node.former_dropSink hx hc] at hformer
      exact hformer

/-- The node that was made last no longer hangs below those made before. -/
theorem Traced.sinks_unlink (hc : a.created) (hn : base.network.nodes[a.id]? = some n)
    {l₁ l₂ : List Attached} {b : Attached} (hl : as = l₁ ++ b :: l₂) (hb : b.created)
    (hm : (base.network.unlink n).nodes[b.id]? = some m) : ∀ s ∈ m.sinks, s ∈ createdIds l₂ := by
  intro s hs
  rw [h.wired.getElem?_unlink_nodes hn] at hm
  split at hm
  · cases hm
  · obtain ⟨m₀, hm₀, rfl⟩ := Option.map_eq_some_iff.1 hm
    obtain ⟨hs₀, hne⟩ := List.mem_filter.1 hs
    have hmem := h.sinks_concat hl hb hm₀ s hs₀
    rw [createdIds_concat_created _ hc] at hmem
    refine (List.mem_append.1 hmem).resolve_right fun hmem => ?_
    exact (of_decide_eq_true hne) (List.mem_singleton.1 hmem)

theorem Traced.undo_created (hc : a.created) : Traced base₀ (base.undo rule a) rule partition as := by
  obtain ⟨n, hn, hbare⟩ := h.newest_bare hc
  have hlive : base.ids.isLive a.id := (h.numbered.live _).2 ⟨n, hn⟩
  have hundo : base.undo rule a =
      { base with network := base.network.unlink n, ids := base.ids.recycle a.id } := by
    simp only [RuleBase.undo, hc, if_true, Network.remove_eq hn hbare, releaseId,
      IdPool.release_eq hlive]
    rfl
  have hlook := h.wired.getElem?_unlink_nodes hn
  rw [hundo]
  exact {
    rest := by rw [h.rest]
    wired := h.wired.unlink hn hbare
    numbered := by
      refine ⟨h.numbered.valid.recycle hlive, fun x => (IdPool.isLive_recycle hlive).trans ?_⟩
      rw [h.numbered.live, hlook]
      split
      · rename_i hx
        exact iff_of_false (fun h => h.1 hx) (by simp)
      · rename_i hx
        simp [hx, Option.map_eq_some_iff]
    nodup := h.nodup_concat.2
    former := h.former_unlink hc hn
    created := by
      intro x hx
      have hx' : x ∈ createdIds (as ++ [a]) := by
        rw [createdIds_concat_created as hc]
        exact List.mem_append_left _ hx
      obtain ⟨m, hm⟩ := h.created x hx'
      rw [hlook, if_neg, hm]
      · exact ⟨_, rfl⟩
      · rintro rfl
        exact h.nodup_concat.1 (createdIds_subset hx)
    sinks := h.sinks_unlink hc hn
    upcoming := h.upcoming_recycle hc }

end Newest

/-- Undoing the newest attachment. -/
theorem Traced.undo (h : Traced base₀ base rule partition (as ++ [a])) :
    Traced base₀ (base.undo rule a) rule partition as := by
  by_cases hc : a.created
  · exact h.undo_created hc
  · exact h.undo_shared hc

/-- A rule base with no attachment left to undo is as it was. -/
theorem Traced.restored (h : Traced base₀ base rule partition []) (hw : base₀.network.Wired)
    (hn : base₀.Numbered) : Restored base₀ base rule partition := by
  have hnodes : ∀ x : NodeId,
      Option.Rel (Node.Marked rule partition) base₀.network.nodes[x]? base.network.nodes[x]? := by
    intro x
    have hsame : base.network.nodes[x]?.bind (Node.former rule [] x) = base.network.nodes[x]? := by
      cases base.network.nodes[x]? with
      | none => rfl
      | some n => simp [Node.former, createdIds]
    rw [← hsame]
    exact h.former x
  have hkinds : ∀ x : NodeId,
      base.network.nodes[x]?.map (·.kind) = base₀.network.nodes[x]?.map (·.kind) :=
    fun x => Node.Marked.map_kind (hnodes x)
  exact {
    rest := h.rest
    wired := h.wired
    marked := ⟨h.wired.eq_of_kinds hw hkinds, hnodes⟩
    valid := h.numbered.valid
    live := by
      intro x
      have hx := congrArg Option.isSome (hkinds x)
      simp only [Option.isSome_map] at hx
      rw [h.numbered.live, hn.live, ← Option.isSome_iff_exists, ← Option.isSome_iff_exists, hx]
    upcoming := by
      intro k
      have hnext := h.upcoming k
      simpa [createdIds] using hnext.symm }

/-- **Undoing all attachments restores the rule base.** -/
theorem Traced.rollback (h : Traced base₀ base rule partition as) (hw : base₀.network.Wired)
    (hn : base₀.Numbered) : Restored base₀ (base.rollback rule as) rule partition := by
  induction as using List.reverseRecOn generalizing base with
  | nil => exact h.restored hw hn
  | append_singleton as a ih =>
    rw [RuleBase.rollback, List.foldr_append]
    exact ih h.undo

end RuleBase

end RuleNet
