/-
  RuleNet — how long a node keeps facts, told from the demands made on it.

  Demands on a node come and go.  One that comes is merged into the total noted
  beside the demands; when those of a rule go, the total is worked out anew from
  the ones that are left.  Either way the total is the longest of the times in
  force: those demanded since the rule that demanded them last gave up its
  demands (`NodeCall.retention_in_force`).  It therefore does not matter in which
  order the demands came, how often the same one was made, or what has been given
  up meanwhile.
-/
import RuleNet.Node
import RuleNet.Proofs.Longest

namespace RuleNet

open Expiration

/-! ## Calls -/

/-- A call on a node that is about how long it keeps facts. -/
inductive NodeCall where
  /-- A rule demands that facts are kept. -/
  | require (rule : RuleId) (e : Expiration)
  /-- A rule gives up its demands. -/
  | release (rule : RuleId)
  deriving DecidableEq

namespace NodeCall

/-- A call is carried out. -/
def perform (n : Node) : NodeCall → Node
  | require rule e => n.require rule e
  | release rule => n.release rule

/-- A new node after some calls. -/
def run (id : NodeId) (kind : NodeKind) (calls : List NodeCall) : Node :=
  calls.foldl perform { id, kind }

/-- The demands in force: those that the rule has not given up since. -/
def inForce : List NodeCall → List (RuleId × Expiration)
  | [] => []
  | require rule e :: later => if release rule ∈ later then inForce later
    else (rule, e) :: inForce later
  | release _ :: later => inForce later

/-- A rule has made a demand, and has not given up its demands since. -/
def Stands (calls : List NodeCall) (rule : RuleId) (e : Expiration) : Prop :=
  ∃ before later, calls = before ++ require rule e :: later ∧ release rule ∉ later

/-- The times that a rule demands. -/
def times (rule : RuleId) (demands : List (RuleId × Expiration)) : List Expiration :=
  (demands.filter (·.1 = rule)).map (·.2)

variable {calls calls' : List NodeCall} {rule q : RuleId} {e : Expiration}
variable {demands demands' : List (RuleId × Expiration)}

/-! ## Demands in force -/

theorem mem_inForce : (rule, e) ∈ inForce calls ↔ Stands calls rule e := by
  constructor
  · intro h
    induction calls with
    | nil => simp [inForce] at h
    | cons c calls ih =>
      have later : (rule, e) ∈ inForce calls → Stands (c :: calls) rule e := fun h => by
        obtain ⟨before, later, rfl, hlater⟩ := ih h
        exact ⟨c :: before, later, rfl, hlater⟩
      cases c with
      | require q x =>
        rw [inForce] at h
        split at h
        · exact later h
        · rcases List.mem_cons.1 h with h | h
          · cases h
            exact ⟨[], calls, rfl, ‹_›⟩
          · exact later h
      | release q => exact later h
  · rintro ⟨before, later, rfl, hlater⟩
    induction before with
    | nil =>
      rw [List.nil_append, inForce, if_neg hlater]
      exact List.mem_cons_self
    | cons c before ih =>
      cases c with
      | require q x =>
        rw [List.cons_append, inForce]
        split
        · exact ih
        · exact List.mem_cons_of_mem _ ih
      | release q => exact ih

theorem inForce_append_require (calls : List NodeCall) (rule : RuleId) (e : Expiration) :
    inForce (calls ++ [require rule e]) = inForce calls ++ [(rule, e)] := by
  induction calls with
  | nil => simp [inForce]
  | cons c calls ih =>
    cases c with
    | require q x =>
      simp only [List.cons_append, inForce, ih, List.mem_append, List.mem_singleton, reduceCtorEq,
        or_false]
      split <;> rfl
    | release q => exact ih

theorem inForce_append_release (calls : List NodeCall) (rule : RuleId) :
    inForce (calls ++ [release rule]) = (inForce calls).filter (·.1 ≠ rule) := by
  induction calls with
  | nil => simp [inForce]
  | cons c calls ih =>
    cases c with
    | require q x =>
      simp only [List.cons_append, inForce, ih, List.mem_append, List.mem_singleton, release.injEq]
      by_cases hq : q = rule
      · subst hq
        by_cases hmem : release q ∈ calls <;> simp [hmem]
      · by_cases hmem : release q ∈ calls <;> simp [hq, hmem]
    | release q => exact ih

theorem times_append_singleton :
    times q (demands ++ [(rule, e)]) = times q demands ++ if q = rule then [e] else [] := by
  simp only [times, List.filter_append, List.map_append, List.filter_singleton, eq_comm (a := q)]
  by_cases h : rule = q <;> simp [h]

theorem times_filter_ne :
    times q (demands.filter (·.1 ≠ rule)) = if q = rule then [] else times q demands := by
  simp only [times, List.filter_filter]
  split
  · subst_vars
    simp
  · refine congrArg _ (List.filter_congr fun d _ => ?_)
    by_cases h : d.1 = q <;> simp [*]

theorem mem_times : e ∈ times rule demands ↔ (rule, e) ∈ demands := by
  simp [times]

/-! ## What is kept -/

/-- The longest of the times that rules demand is the longest of all of them. -/
theorem total_eq {r : Retention} (h : r.Totalled)
    (hd : ∀ rule : RuleId, r.demands[rule]? = longest? (times rule demands)) :
    r.total = longest? (demands.map (·.2)) := by
  cases hall : longest? (demands.map (·.2)) with
  | none =>
    obtain rfl : demands = [] := List.map_eq_nil_iff.1 (longest?_eq_none_iff.1 hall)
    exact h.total_eq_none_iff.2 fun rule => hd rule
  | some e =>
    obtain ⟨he, habsorbs⟩ := longest?_eq_some_iff.1 hall
    have hmem : ∀ {rule x}, x ∈ times rule demands → x ∈ demands.map (·.2) := fun hx =>
      List.mem_map.2 ⟨_, mem_times.1 hx, rfl⟩
    refine h.total_eq_some_iff.2 ⟨?_, fun rule x hx => ?_⟩
    · -- the rule that demands the longest time demands none longer
      obtain ⟨⟨rule, _⟩, hrule, rfl⟩ := List.mem_map.1 he
      refine ⟨rule, (hd rule).trans (longest?_eq_some_iff.2 ⟨mem_times.2 hrule, ?_⟩)⟩
      exact fun x hx => habsorbs x (hmem hx)
    · rw [hd] at hx
      exact habsorbs x (hmem (longest?_eq_some_iff.1 hx).1)

/-- **What is noted on a node after some calls**: for each rule the longest of its
    times in force; and the longest of those, as the total. -/
theorem retention_run (id : NodeId) (kind : NodeKind) (calls : List NodeCall) :
    (run id kind calls).retention.Totalled ∧ ∀ rule : RuleId,
      (run id kind calls).retention.demands[rule]? = longest? (times rule (inForce calls)) := by
  induction calls using List.reverseRecOn with
  | nil => exact ⟨Retention.totalled_none, fun rule => by simp [run, Retention.none, times, inForce]⟩
  | append_singleton calls c ih =>
    obtain ⟨htotal, hdemands⟩ := ih
    have hrun : run id kind (calls ++ [c]) = perform (run id kind calls) c := by
      rw [run, List.foldl_append]
      rfl
    rw [hrun]
    cases c with
    | require rule e =>
      refine ⟨htotal.require rule e, fun q => ?_⟩
      rw [perform, Node.require, Retention.require_demands, hdemands, inForce_append_require,
        times_append_singleton]
      split
      · rw [longest?_append_singleton]
      · rw [List.append_nil]
    | release rule =>
      refine ⟨htotal.release rule, fun q => ?_⟩
      rw [perform, Node.release, Retention.release_demands, hdemands, inForce_append_release,
        times_filter_ne]
      split <;> rfl

/-- **How long a node keeps facts depends on the demands in force alone.**  After
    any calls on a new node the total is the longest of the times demanded since
    the rule that demanded them last gave up its demands, if there are any; for
    each rule the longest of its own is noted; and if the same demands are in
    force after some other calls, the same is noted. -/
theorem retention_in_force (id : NodeId) (kind : NodeKind) (calls : List NodeCall) :
    (run id kind calls).retention.total = longest? ((inForce calls).map (·.2)) ∧
    (∀ rule : RuleId, (run id kind calls).retention.demands[rule]? =
      longest? (times rule (inForce calls))) ∧
    ∀ calls' : List NodeCall, (∀ rule e, Stands calls rule e ↔ Stands calls' rule e) →
      (run id kind calls').retention.total = (run id kind calls).retention.total ∧
        (run id kind calls').retention.demands = (run id kind calls).retention.demands := by
  obtain ⟨htotal, hdemands⟩ := retention_run id kind calls
  refine ⟨total_eq htotal hdemands, hdemands, fun calls' hsame => ?_⟩
  obtain ⟨htotal', hdemands'⟩ := retention_run id kind calls'
  have hmem : ∀ d, d ∈ inForce calls' ↔ d ∈ inForce calls := fun d => by
    rw [mem_inForce, mem_inForce, hsame]
  constructor
  · rw [total_eq htotal' hdemands', total_eq htotal hdemands]
    exact longest?_congr fun e => by simp only [List.mem_map, hmem]
  · refine Std.ExtTreeMap.ext_getElem? fun rule => ?_
    rw [hdemands', hdemands]
    exact longest?_congr fun e => by rw [mem_times, mem_times, hmem]

/-- A rule gives up a long time and demands a shorter one. -/
def revised : List NodeCall :=
  [.require 0 (.bounded 30), .require 1 (.bounded 90), .release 1, .require 1 (.bounded 10)]

/-- A rule demands the same time twice. -/
def repeated : List NodeCall :=
  [.require 1 (.bounded 10), .require 0 (.bounded 30), .require 1 (.bounded 10)]

theorem retention_in_force_revised : (∀ rule e, Stands revised rule e ↔ Stands repeated rule e) ∧
    (run 0 (.entryPoint .default) revised).retention.total = some (.bounded 30) ∧
    (run 0 (.entryPoint .default) repeated).retention.total =
      (run 0 (.entryPoint .default) revised).retention.total := by
  have hsame : ∀ rule e, Stands revised rule e ↔ Stands repeated rule e := by
    intro rule e
    rw [← mem_inForce, ← mem_inForce]
    simp only [revised, repeated, inForce]
    simp
    tauto
  obtain ⟨htotal, -, hcongr⟩ := retention_in_force 0 (.entryPoint .default) revised
  exact ⟨hsame, htotal.trans (by decide), (hcongr repeated hsame).1⟩

end NodeCall

end RuleNet
