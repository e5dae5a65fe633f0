/-
  RuleNet — the longest of several times for which facts are kept.

  Merging is a maximum: the longest of some times is the one of them that
  absorbs all others (`longest?_eq_some_iff`), so it depends on which times
  there are and not on their order or number (`longest?_congr`).  The total
  noted beside the demands of a node stays the longest of them when a demand is
  made (`Totalled.require`) or given up (`Totalled.release`).
-/
import Mathlib
import RuleNet.Retention

namespace RuleNet

namespace Expiration

/-! ## Merging -/

theorem merge_self (a : Expiration) : a.merge a = a := by
  cases a <;> simp [merge]

theorem merge_comm (a b : Expiration) : a.merge b = b.merge a := by
  cases a <;> cases b <;> simp [merge, max_comm]

theorem merge_assoc (a b c : Expiration) : (a.merge b).merge c = a.merge (b.merge c) := by
  cases a <;> cases b <;> cases c <;> simp [merge, max_assoc]

theorem merge_eq_or (a b : Expiration) : a.merge b = a ∨ a.merge b = b := by
  cases a with
  | unbounded => exact Or.inl (by cases b <;> rfl)
  | bounded m =>
    cases b with
    | unbounded => exact Or.inr rfl
    | bounded n => rcases max_choice m n with h | h <;> simp [merge, h]

/-- A time that two others absorb is absorbed by a third one that they are
    merged into. -/
theorem merge_absorbs {a b : Expiration} (h : a.merge b = b) (c : Expiration) :
    a.merge (b.merge c) = b.merge c := by
  rw [← merge_assoc, h]

theorem merge_absorbs_right (a b : Expiration) : b.merge (a.merge b) = a.merge b := by
  rw [merge_comm a, ← merge_assoc, merge_self]

/-! ## The longest of a list -/

@[simp] theorem longest?_nil : longest? [] = none := rfl

theorem longest?_append_singleton (es : List Expiration) (e : Expiration) :
    longest? (es ++ [e]) = mergeInto (longest? es) e := by
  simp [longest?]

theorem longest?_eq_none_iff {es : List Expiration} : longest? es = none ↔ es = [] := by
  rcases List.eq_nil_or_concat es with rfl | ⟨es, e, rfl⟩
  · simp
  · simp [longest?_append_singleton, mergeInto]

/-- **The longest time is the one that absorbs all of them.** -/
theorem longest?_eq_some_iff {es : List Expiration} {e : Expiration} :
    longest? es = some e ↔ e ∈ es ∧ ∀ x ∈ es, x.merge e = e := by
  induction es using List.reverseRecOn generalizing e with
  | nil => simp
  | append_singleton es y ih =>
    rw [longest?_append_singleton]
    simp only [mergeInto, Option.some.injEq, List.mem_append, List.mem_singleton]
    cases ht : longest? es with
    | none =>
      obtain rfl := longest?_eq_none_iff.1 ht
      simp only [Option.elim_none, List.not_mem_nil, false_or, forall_eq]
      constructor
      · rintro rfl; exact ⟨rfl, merge_self _⟩
      · rintro ⟨rfl, -⟩; rfl
    | some t =>
      obtain ⟨ht, hall⟩ := ih.1 ht
      simp only [Option.elim_some]
      constructor
      · rintro rfl
        refine ⟨?_, ?_⟩
        · rcases merge_eq_or t y with h | h
          · exact Or.inl (by rwa [h])
          · exact Or.inr h
        · rintro x (hx | rfl)
          · exact merge_absorbs (hall x hx) _
          · exact merge_absorbs_right _ _
      · rintro ⟨he, habs⟩
        have hte : t.merge e = e := habs t (Or.inl ht)
        have hye : y.merge e = e := habs y (Or.inr rfl)
        rcases he with he | rfl
        · have : e.merge t = t := hall e he
          have : e = t := by rw [← hte, merge_comm, this]
          subst this
          rw [merge_comm, hye]
        · exact hte

/-- Two lists of the same times have the same longest one. -/
theorem longest?_congr {es fs : List Expiration} (h : ∀ e, e ∈ es ↔ e ∈ fs) :
    longest? es = longest? fs := by
  cases hf : longest? fs with
  | none =>
    obtain rfl := longest?_eq_none_iff.1 hf
    exact longest?_eq_none_iff.2 (List.eq_nil_iff_forall_not_mem.2 fun e he => by simpa using (h e).1 he)
  | some e =>
    obtain ⟨he, hall⟩ := longest?_eq_some_iff.1 hf
    exact longest?_eq_some_iff.2 ⟨(h e).2 he, fun x hx => hall x ((h x).1 hx)⟩

end Expiration

namespace Retention

open Expiration

variable {r : Retention} {rule : RuleId} {e : Expiration}

/-- The total of a node's demands is the longest one. -/
def Totalled (r : Retention) : Prop := r.total = longest? (r.demands.toList.map (·.2))

theorem mem_demands_iff {r : Retention} {e : Expiration} :
    e ∈ r.demands.toList.map (·.2) ↔ ∃ rule : RuleId, r.demands[rule]? = some e := by
  simp only [List.mem_map, Prod.exists, Std.ExtTreeMap.mem_toList_iff_getElem?_eq_some,
    exists_eq_right]

theorem Totalled.total_eq_some_iff (h : r.Totalled) :
    r.total = some e ↔ (∃ rule : RuleId, r.demands[rule]? = some e) ∧
      ∀ (rule : RuleId) (x : Expiration), r.demands[rule]? = some x → x.merge e = e := by
  rw [h, longest?_eq_some_iff, mem_demands_iff]
  refine and_congr_right fun _ => ⟨fun h rule x hx => h x (mem_demands_iff.2 ⟨rule, hx⟩), ?_⟩
  intro h x hx
  obtain ⟨rule, hx⟩ := mem_demands_iff.1 hx
  exact h rule x hx

theorem Totalled.total_eq_none_iff (h : r.Totalled) :
    r.total = Option.none ↔ ∀ rule : RuleId, r.demands[rule]? = Option.none := by
  rw [h, longest?_eq_none_iff, List.eq_nil_iff_forall_not_mem]
  simp only [mem_demands_iff, not_exists]
  refine ⟨fun h rule => Option.eq_none_iff_forall_ne_some.2 fun e => h e rule, fun h e rule => ?_⟩
  rw [h rule]
  simp

theorem totalled_none : Retention.none.Totalled := by
  refine Eq.symm (longest?_eq_none_iff.2 (List.eq_nil_iff_forall_not_mem.2 fun e => ?_))
  rw [mem_demands_iff]
  simp [Retention.none]

/-- Nodes of which the same times are demanded have the same total. -/
theorem Totalled.congr {r r' : Retention} (h : r.Totalled) (h' : r'.Totalled)
    (hd : ∀ e, (∃ rule : RuleId, r.demands[rule]? = some e) ↔
      ∃ rule : RuleId, r'.demands[rule]? = some e) : r.total = r'.total := by
  rw [h, h']
  exact longest?_congr fun e => by rw [mem_demands_iff, mem_demands_iff, hd]

/-! ## Demands come and go -/

theorem require_demands (r : Retention) (rule q : RuleId) (e : Expiration) :
    (r.require rule e).demands[q]? =
      if q = rule then mergeInto r.demands[q]? e else r.demands[q]? := by
  simp only [require, Std.ExtTreeMap.getElem?_insert, Std.compare_eq_iff_eq]
  by_cases h : q = rule
  · subst h; simp [mergeInto]
  · simp [h, Ne.symm h]

theorem Totalled.require (h : r.Totalled) (rule : RuleId) (e : Expiration) :
    (r.require rule e).Totalled := by
  refine Eq.symm (longest?_eq_some_iff.2 ?_)
  simp only [mem_demands_iff, forall_exists_index, require_demands]
  cases ht : r.total with
  | none =>
    have hempty := h.total_eq_none_iff.1 ht
    simp only [hempty, mergeInto, Option.elim_none]
    refine ⟨⟨rule, if_pos rfl⟩, fun x q hx => ?_⟩
    split at hx
    · cases hx; exact merge_self e
    · cases hx
  | some t =>
    obtain ⟨⟨q₀, hq₀⟩, hall⟩ := h.total_eq_some_iff.1 ht
    simp only [Option.elim_some]
    refine ⟨?_, fun x q hx => ?_⟩
    · rcases merge_eq_or t e with hte | hte
      · -- the old total still counts; if the rule itself made that demand, it was merged
        by_cases hq : q₀ = rule
        · exact ⟨q₀, by rw [if_pos hq, hq₀]; rfl⟩
        · exact ⟨q₀, by rw [if_neg hq, hq₀, hte]⟩
      · refine ⟨rule, ?_⟩
        rw [if_pos rfl, hte]
        cases hr : r.demands[rule]? with
        | none => rfl
        | some x =>
          have hx := merge_absorbs (hall rule x hr) e
          rw [hte] at hx
          exact congrArg some hx
    · split at hx
      · cases hr : r.demands[q]? with
        | none =>
          rw [hr] at hx; cases hx
          exact merge_absorbs_right _ _
        | some y =>
          rw [hr] at hx; cases hx
          rw [Option.elim_some, merge_assoc, merge_absorbs_right, merge_absorbs (hall q y hr)]
      · exact merge_absorbs (hall q x hx) e

theorem release_demands (r : Retention) (rule q : RuleId) :
    (r.release rule).demands[q]? = if q = rule then Option.none else r.demands[q]? := by
  unfold release
  split
  · simp only [Std.ExtTreeMap.getElem?_erase, Std.compare_eq_iff_eq, eq_comm (a := rule)]
  · rename_i h
    by_cases hq : q = rule
    · subst hq
      rw [if_pos rfl]
      exact Std.ExtTreeMap.getElem?_eq_none h
    · rw [if_neg hq]

theorem Totalled.release (h : r.Totalled) (rule : RuleId) : (r.release rule).Totalled := by
  unfold Retention.release
  split
  · rfl
  · exact h

end Retention

end RuleNet
