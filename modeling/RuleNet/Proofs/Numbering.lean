/-
  RuleNet — which node numbers are given out, and which come next.

  A pool is valid if the numbers that were returned differ and are just those
  that have changed hands an even number of times, and the others are as many as
  it tells.  Counters of 32 bits are enough for that, as they tell odd from even
  when they start again from 0.  Then a number that is issued was not live
  (`Valid.not_isLive_issue`), and just the live numbers can be returned
  (`release_eq`).  What matters about a pool for those who ask it is which
  numbers it would give out next (`upcoming`): a number that is returned is the
  very next one (`upcoming_recycle`).
-/
import Mathlib
import RuleNet.IdPool

namespace RuleNet

/-! ## Counters -/

theorem tick_eq (n : Nat) : tick n = (n + 1) % 2 ^ 32 := rfl

theorem tick_inj {a b : Nat} (ha : a < 2 ^ 32) (hb : b < 2 ^ 32) (h : tick a = tick b) : a = b := by
  simp only [tick_eq] at h
  omega

/-- A counter that starts again still tells odd from even. -/
theorem tick_mod_two (n : Nat) : tick n % 2 = (n + 1) % 2 :=
  Nat.mod_mod_of_dvd _ (by decide)

namespace IdPool

variable {p q : IdPool} {id x : NodeId}

/-- The next numbers that would be given out. -/
def upcoming (p : IdPool) : Nat → List NodeId
  | 0 => []
  | n + 1 => p.issue.1 :: p.issue.2.upcoming n

/-- The pool after a number is returned. -/
def recycle (p : IdPool) (id : NodeId) : IdPool :=
  ⟨p.turns.modify id tick, id :: p.returned, p.size - 1⟩

/-- The returned numbers are those that have changed hands an even number of
    times, each once, and the others are counted. -/
structure Valid (p : IdPool) : Prop where
  /-- No number is returned twice. -/
  nodup : p.returned.Nodup
  /-- Just the returned numbers have even counters. -/
  mem_returned : ∀ id, id ∈ p.returned ↔ ∃ t, p.turns[id]? = some t ∧ t % 2 = 0
  size : p.size + p.returned.length = p.highWater

theorem valid_initial : initial.Valid := ⟨List.nodup_nil, by simp [initial], rfl⟩

/-- The live numbers have changed hands an odd number of times. -/
theorem isLive_iff_odd : p.isLive id ↔ ∃ t, p.turns[id]? = some t ∧ t % 2 = 1 := by
  rw [isLive, Option.any_eq_true]
  simp

theorem isLive_lt (h : p.isLive id) : id < p.highWater := by
  obtain ⟨t, ht, -⟩ := isLive_iff_odd.1 h
  exact (Array.getElem?_eq_some_iff.1 ht).1

theorem not_isLive_initial : ¬ initial.isLive id := by
  simp [isLive_iff_odd, initial]

/-! ## Issuing -/

theorem issue_of_nil (h : p.returned = []) :
    p.issue = (p.highWater, ⟨p.turns.push 1, [], p.size + 1⟩) := by
  unfold issue
  rw [h]
  rfl

theorem issue_of_cons {ids : List NodeId} (h : p.returned = id :: ids) :
    p.issue = (id, ⟨p.turns.modify id tick, ids, p.size + 1⟩) := by
  unfold issue
  rw [h]

theorem highWater_issue (p : IdPool) :
    p.issue.2.highWater = if p.returned = [] then p.highWater + 1 else p.highWater := by
  unfold issue highWater
  split <;> simp_all

theorem returned_issue (p : IdPool) : p.issue.2.returned = p.returned.tail := by
  unfold issue
  split <;> simp_all

namespace Valid
variable (h : p.Valid)
include h

theorem lt (hid : id ∈ p.returned) : id < p.highWater := by
  obtain ⟨t, ht, -⟩ := (h.mem_returned id).1 hid
  exact (Array.getElem?_eq_some_iff.1 ht).1

theorem isLive_iff : p.isLive id ↔ id < p.highWater ∧ id ∉ p.returned := by
  rw [isLive_iff_odd, h.mem_returned]
  constructor
  · rintro ⟨t, ht, hodd⟩
    refine ⟨(Array.getElem?_eq_some_iff.1 ht).1, ?_⟩
    rintro ⟨t', ht', heven⟩
    obtain rfl : t = t' := Option.some.inj (ht.symm.trans ht')
    omega
  · rintro ⟨hlt, hodd⟩
    have ht := Array.getElem?_eq_getElem hlt
    refine ⟨_, ht, Nat.mod_two_ne_zero.1 fun heven => ?_⟩
    exact hodd ⟨_, ht, heven⟩

theorem not_isLive_issue : ¬ p.isLive p.issue.1 := by
  rw [h.isLive_iff]
  cases hr : p.returned with
  | nil => simp [issue_of_nil hr]
  | cons id ids => simp [issue_of_cons hr]

theorem isLive_issue : p.issue.2.isLive x ↔ x = p.issue.1 ∨ p.isLive x := by
  cases hr : p.returned with
  | nil =>
    rw [issue_of_nil hr, isLive_iff_odd, isLive_iff_odd, Array.getElem?_push]
    split
    · subst_vars
      simp [highWater]
    · simp [highWater, *]
  | cons id ids =>
    obtain ⟨t, ht, heven⟩ := (h.mem_returned id).1 (hr ▸ List.mem_cons_self)
    rw [issue_of_cons hr, isLive_iff_odd, isLive_iff_odd, Array.getElem?_modify]
    split
    · subst_vars
      simp only [ht, Option.map_some, Option.some.injEq, exists_eq_left', tick_mod_two, true_or,
        iff_true]
      omega
    · simp [eq_comm (a := x), *]

theorem issue : p.issue.2.Valid := by
  have hsize := h.size
  cases hr : p.returned with
  | nil =>
    have hodd := h.mem_returned
    rw [hr] at hodd hsize
    rw [issue_of_nil hr]
    refine ⟨List.nodup_nil, fun id => ?_, ?_⟩
    · simp only [Array.getElem?_push]
      split
      · simp
      · exact hodd id
    · simp only [highWater, Array.size_push, List.length_nil] at hsize ⊢
      omega
  | cons id ids =>
    obtain ⟨hid, hids⟩ := List.nodup_cons.1 (hr ▸ h.nodup)
    obtain ⟨t, ht, heven⟩ := (h.mem_returned id).1 (hr ▸ List.mem_cons_self)
    rw [hr] at hsize
    rw [issue_of_cons hr]
    refine ⟨hids, fun x => ?_, ?_⟩
    · rw [Array.getElem?_modify]
      split
      · subst_vars
        simp only [ht, hid, Option.map_some, Option.some.injEq, exists_eq_left', tick_mod_two,
          false_iff]
        omega
      · rw [← h.mem_returned, hr, List.mem_cons]
        simp [eq_comm (a := x), *]
    · simp only [highWater, Array.size_modify, List.length_cons] at hsize ⊢
      omega

end Valid

/-! ## Returning -/

theorem release_eq (hid : p.isLive id) : p.release id = .ok (p.recycle id) := by
  obtain ⟨t, ht, hodd⟩ := isLive_iff_odd.1 hid
  have hne : t % 2 ≠ 0 := by omega
  simp only [release, ht, if_neg hne, recycle]

theorem isLive_recycle (hid : p.isLive id) : (p.recycle id).isLive x ↔ x ≠ id ∧ p.isLive x := by
  obtain ⟨t, ht, hodd⟩ := isLive_iff_odd.1 hid
  rw [isLive_iff_odd, isLive_iff_odd, recycle, Array.getElem?_modify]
  split
  · subst_vars
    simp only [ht, Option.map_some, Option.some.injEq, exists_eq_left', tick_mod_two, ne_eq,
      not_true_eq_false, false_and, iff_false]
    omega
  · simp [eq_comm (a := x), *]

theorem Valid.recycle (h : p.Valid) (hid : p.isLive id) : (p.recycle id).Valid := by
  obtain ⟨hlt, hret⟩ := h.isLive_iff.1 hid
  obtain ⟨t, ht, hodd⟩ := isLive_iff_odd.1 hid
  refine ⟨List.nodup_cons.2 ⟨hret, h.nodup⟩, fun x => ?_, ?_⟩
  · rw [IdPool.recycle, List.mem_cons, Array.getElem?_modify]
    split
    · subst_vars
      simp only [ht, Option.map_some, Option.some.injEq, exists_eq_left', tick_mod_two, true_or,
        true_iff]
      omega
    · rw [← h.mem_returned]
      simp [eq_comm (a := x), *]
  · -- the number that comes back is one of those that were out
    have hle : (id :: p.returned).length ≤ p.highWater := by
      rw [← List.toFinset_card_of_nodup (List.nodup_cons.2 ⟨hret, h.nodup⟩),
        ← Finset.card_range p.highWater]
      refine Finset.card_le_card fun x hx => Finset.mem_range.2 ?_
      rcases List.mem_cons.1 (List.mem_toFinset.1 hx) with rfl | hx
      · exact hlt
      · exact h.lt hx
    have hsize := h.size
    simp only [IdPool.recycle, highWater, Array.size_modify, List.length_cons] at hle hsize ⊢
    omega

/-! ## The numbers to come -/

/-- What comes next depends on how far the numbers have got and on those that
    were returned, not on how often any was given out. -/
theorem upcoming_congr (hw : p.highWater = q.highWater) (hr : p.returned = q.returned) (n : Nat) :
    p.upcoming n = q.upcoming n := by
  induction n generalizing p q with
  | zero => rfl
  | succ n ih =>
    have hid : p.issue.1 = q.issue.1 := by
      unfold issue
      rw [← hr]
      split
      · rfl
      · exact hw
    rw [upcoming, upcoming, hid]
    exact congrArg _ (ih (by rw [highWater_issue, highWater_issue, hw, hr])
      (by rw [returned_issue, returned_issue, hr]))

theorem upcoming_recycle (p : IdPool) (id : NodeId) (n : Nat) :
    (p.recycle id).upcoming (n + 1) = id :: p.upcoming n := by
  rw [upcoming]
  refine congrArg _ (upcoming_congr ?_ ?_ n)
  · rw [highWater_issue]; simp [recycle, highWater]
  · rw [returned_issue]; rfl

theorem take_upcoming (p : IdPool) (m n : Nat) : (p.upcoming (m + n)).take m = p.upcoming m := by
  induction m generalizing p with
  | zero => simp [upcoming]
  | succ m ih => rw [Nat.succ_add, upcoming, upcoming, List.take_succ_cons, ih]

end IdPool

end RuleNet
