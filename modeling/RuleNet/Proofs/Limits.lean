/-
  RuleNet — limits on how far events lie apart, closed under sums.

  For two events, a limit says how long the second one may happen after the
  first one at most.  Limits are closed by taking one event after the other as
  a stop between any two, and lowering each limit to the sum over the stop.

  No path is ever followed.  What carries the argument is that a limit which a
  round lowers is the sum of two limits whose events on the way are different
  ones: an event on both ways would be a stop of an earlier round, and the limit
  would have been as low already.  So a limit never exceeds what the events on
  its way contribute (`Closing.pivot`).  Limits that are closed leave room for
  every event that has no time yet (`Closing.exists_respects`).
-/
import Mathlib
import RuleNet.Ident

namespace RuleNet

/-- How long, at most, the second event may happen after the first one. -/
abbrev Limits := Offset → Offset → WithTop Int

namespace Limits

variable {W : Limits} {M : Offset → Int} {seen S T : Finset Offset} {i j k : Offset}
  {t : Offset → Int} {n : Int}

/-! ## One stop -/

/-- The limits, lowered to the sums over one event. -/
def pivot (W : Limits) (k : Offset) : Limits := fun i j => min (W i j) (W i k + W k j)

theorem pivot_le : W.pivot k i j ≤ W i j := min_le_left _ _

theorem pivot_le_sum : W.pivot k i j ≤ W i k + W k j := min_le_right _ _

/-- Limits from the stop stay as they are. -/
theorem pivot_from (hself : W k k = 0) : W.pivot k k j = W k j := by
  simp [pivot, hself]

/-- Limits to the stop stay as they are. -/
theorem pivot_to (hself : W k k = 0) : W.pivot k i k = W i k := by
  simp [pivot, hself]

/-- A limit is lowered to less than it was, or it stays. -/
theorem pivot_cases (W : Limits) (k i j : Offset) :
    (W.pivot k i j = W i j ∧ W i j ≤ W i k + W k j) ∨
      (W.pivot k i j = W i k + W k j ∧ W i k + W k j < W i j) := by
  rcases le_or_gt (W i j) (W i k + W k j) with hle | hlt
  · exact .inl ⟨min_eq_left hle, hle⟩
  · exact .inr ⟨min_eq_right hlt.le, hlt⟩

/-! ## Closing -/

/-- The limits are closed under sums over the events seen.  Those that there are
    come from different events on the way, each of which contributes at most as
    much as `M` says. -/
structure Closing (M : Offset → Int) (seen : Finset Offset) (W : Limits) : Prop where
  self : ∀ i, W i i = 0
  through : ∀ k ∈ seen, ∀ i j, W i j ≤ W i k + W k j
  supported : ∀ i j (n : Int), W i j = n →
    ∃ V ⊆ insert i seen, |n| ≤ ∑ v ∈ V, M v ∧ ∀ v ∈ V, W i v + W v j ≤ n

namespace Closing

/-- Going to an event seen and back limits no event to happen before itself. -/
theorem nonneg_round (h : W.Closing M seen) (hj : j ∈ insert k seen) : 0 ≤ W j k + W k j := by
  rcases Finset.mem_insert.1 hj with rfl | hj
  · simp [h.self]
  · rw [add_comm, ← h.self k]
    exact h.through j hj k k

/-- A stop on both ways makes neither of them a way to lower the limit. -/
theorem not_lowered (h : W.Closing M seen) (hround : 0 ≤ W j k + W k j)
    (hj : j ∈ insert i seen) {l : Offset} :
    W i l ≤ (W i j + W j k) + (W k j + W j l) := by
  have hstop : W i l ≤ W i j + W j l := by
    rcases Finset.mem_insert.1 hj with rfl | hj
    · simp [h.self]
    · exact h.through j hj i l
  calc W i l ≤ W i j + W j l := hstop
    _ = W i j + (0 + W j l) := by rw [zero_add]
    _ ≤ W i j + ((W j k + W k j) + W j l) := by gcongr
    _ = (W i j + W j k) + (W k j + W j l) := by simp only [add_assoc]

/-- The round keeps the limits closed under sums over the stops seen before. -/
theorem pivot_le_through (h : W.Closing M seen) {l : Offset} (hl : l ∈ seen) :
    W.pivot k i j ≤ W.pivot k i l + W.pivot k l j := by
  -- Each of the two limits is an old one or a sum over the new stop.
  rcases W.pivot_cases k i l with ⟨hil, -⟩ | ⟨hil, -⟩ <;>
    rcases W.pivot_cases k l j with ⟨hlj, -⟩ | ⟨hlj, -⟩ <;> rw [hil, hlj]
  · exact pivot_le.trans (h.through l hl i j)
  · calc W.pivot k i j ≤ W i k + W k j := pivot_le_sum
      _ ≤ (W i l + W l k) + W k j := by gcongr; exact h.through l hl i k
      _ = W i l + (W l k + W k j) := add_assoc _ _ _
  · calc W.pivot k i j ≤ W i k + W k j := pivot_le_sum
      _ ≤ W i k + (W k l + W l j) := by gcongr; exact h.through l hl k j
      _ = (W i k + W k l) + W l j := (add_assoc _ _ _).symm
  · calc W.pivot k i j ≤ W i k + W k j := pivot_le_sum
      _ ≤ W i k + ((W k l + W l k) + W k j) := by
        gcongr
        rw [add_comm (W k l)]
        exact le_add_of_nonneg_left (h.nonneg_round (Finset.mem_insert_of_mem hl))
      _ = (W i k + W k l) + (W l k + W k j) := by simp only [add_assoc]

/-- The events on the way to the stop and those on the way from it make up the
    way of a limit that the round lowers. -/
theorem supported_lowered (h : W.Closing M seen) (hlt : W i k + W k j < W i j) {n : Int}
    (hn : W i k + W k j = n) :
    ∃ V ⊆ insert i (insert k seen), |n| ≤ ∑ v ∈ V, M v ∧
      ∀ v ∈ V, W.pivot k i v + W.pivot k v j ≤ n := by
  obtain ⟨a, b, ha, hb, rfl⟩ := WithTop.add_eq_coe.1 hn
  obtain ⟨V, hV, hsum, hway⟩ := h.supported i k a ha.symm
  obtain ⟨V', hV', hsum', hway'⟩ := h.supported k j b hb.symm
  have hdisjoint : Disjoint V V' := by
    rw [Finset.disjoint_left]
    intro v hv hv'
    have hle := h.not_lowered (h.nonneg_round (hV' hv')) (hV hv) (l := j)
    refine absurd (hle.trans (add_le_add (hway v hv) (hway' v hv'))) (not_le.2 ?_)
    rw [ha, hb]
    exact hlt
  have hstops : V ∪ V' ⊆ insert i (insert k seen) :=
    Finset.union_subset
      (hV.trans (Finset.insert_subset_insert i (Finset.subset_insert k seen)))
      (hV'.trans (Finset.subset_insert i (insert k seen)))
  refine ⟨V ∪ V', hstops, ?_, ?_⟩
  · rw [Finset.sum_union hdisjoint]
    exact (abs_add_le a b).trans (add_le_add hsum hsum')
  · intro v hv
    rw [WithTop.coe_add]
    rcases Finset.mem_union.1 hv with hv | hv
    · calc W.pivot k i v + W.pivot k v j ≤ W i v + (W v k + W k j) :=
            add_le_add pivot_le pivot_le_sum
        _ = (W i v + W v k) + W k j := (add_assoc _ _ _).symm
        _ ≤ a + b := add_le_add (hway v hv) hb.ge
    · calc W.pivot k i v + W.pivot k v j ≤ (W i k + W k v) + W v j :=
            add_le_add pivot_le_sum pivot_le
        _ = W i k + (W k v + W v j) := add_assoc _ _ _
        _ ≤ a + b := add_le_add ha.ge (hway' v hv)

/-- A limit after the round comes from different events on the way. -/
theorem pivot_supported (h : W.Closing M seen) {n : Int} (hn : W.pivot k i j = n) :
    ∃ V ⊆ insert i (insert k seen), |n| ≤ ∑ v ∈ V, M v ∧
      ∀ v ∈ V, W.pivot k i v + W.pivot k v j ≤ n := by
  rcases W.pivot_cases k i j with ⟨heq, -⟩ | ⟨heq, hlt⟩
  · obtain ⟨V, hV, hsum, hway⟩ := h.supported i j n (heq ▸ hn)
    refine ⟨V, hV.trans (Finset.insert_subset_insert i (Finset.subset_insert k seen)), hsum, ?_⟩
    exact fun v hv => (add_le_add pivot_le pivot_le).trans (hway v hv)
  · exact h.supported_lowered hlt (heq ▸ hn)

/-- **One round.**  If no event is limited to happen before itself, the round
    over one more stop closes the limits under sums over it as well. -/
theorem pivot (h : W.Closing M seen) (hround : ∀ i, 0 ≤ W i k + W k i) :
    (W.pivot k).Closing M (insert k seen) where
  self i := by
    rw [Limits.pivot, h.self]
    exact min_eq_left (hround i)
  through := by
    intro l hl i j
    rcases Finset.mem_insert.1 hl with rfl | hl
    · rw [pivot_to (h.self l), pivot_from (h.self l)]
      exact pivot_le_sum
    · exact h.pivot_le_through hl
  supported _ _ _ hn := h.pivot_supported hn

end Closing

/-! ## Room for every event -/

/-- The times keep the limits among some events. -/
def Respects (W : Limits) (S : Finset Offset) (t : Offset → Int) : Prop :=
  ∀ i ∈ S, ∀ j ∈ S, ((t j - t i : Int) : WithTop Int) ≤ W i j

/-- Bounds from below and from above leave room for a number if none of them
    crosses another one. -/
theorem exists_between_bounds {L U : Finset Int} (h : ∀ l ∈ L, ∀ u ∈ U, l ≤ u) :
    ∃ x, (∀ l ∈ L, l ≤ x) ∧ ∀ u ∈ U, x ≤ u := by
  rcases L.eq_empty_or_nonempty with rfl | hL
  · obtain ⟨x, hx⟩ := U.bddBelow
    exact ⟨x, by simp, fun u hu => hx hu⟩
  · exact ⟨L.max' hL, fun l hl => L.le_max' l hl, fun u hu => h _ (L.max'_mem hL) u hu⟩

/-- One more event finds a time: what the others limit it to from below never
    exceeds what they limit it to from above. -/
theorem Respects.exists_time (h : W.Respects S t) (hthrough : ∀ i j, W i j ≤ W i k + W k j) :
    ∃ x : Int, ∀ i ∈ S, ((t i - x : Int) : WithTop Int) ≤ W k i ∧
      ((x - t i : Int) : WithTop Int) ≤ W i k := by
  let earliest (i : Offset) : Int := t i - (W k i).untopD 0
  let latest (i : Offset) : Int := t i + (W i k).untopD 0
  have hroom : ∀ l ∈ (S.filter (W k · ≠ ⊤)).image earliest,
      ∀ u ∈ (S.filter (W · k ≠ ⊤)).image latest, l ≤ u := by
    simp only [Finset.mem_image, Finset.mem_filter]
    rintro _ ⟨i, ⟨hi, hki⟩, rfl⟩ _ ⟨j, ⟨hj, hjk⟩, rfl⟩
    obtain ⟨a, ha⟩ := WithTop.ne_top_iff_exists.1 hki
    obtain ⟨b, hb⟩ := WithTop.ne_top_iff_exists.1 hjk
    have hlimit := (h j hj i hi).trans (hthrough j i)
    rw [← ha, ← hb, ← WithTop.coe_add, WithTop.coe_le_coe] at hlimit
    simp only [earliest, latest, ← ha, ← hb, WithTop.untopD_coe]
    omega
  obtain ⟨x, hearliest, hlatest⟩ := exists_between_bounds hroom
  refine ⟨x, fun i hi => ⟨WithTop.coe_le_iff.2 fun a ha => ?_, WithTop.coe_le_iff.2 fun a ha => ?_⟩⟩
  · have hle := hearliest _ (Finset.mem_image_of_mem earliest
      (Finset.mem_filter.2 ⟨hi, by simp [ha]⟩))
    simp only [earliest, ha, WithTop.untopD_coe] at hle
    omega
  · have hle := hlatest _ (Finset.mem_image_of_mem latest
      (Finset.mem_filter.2 ⟨hi, by simp [ha]⟩))
    simp only [latest, ha, WithTop.untopD_coe] at hle
    omega

/-- At that time the event keeps the limits along with the others. -/
theorem Respects.exists_insert (h : W.Respects S t) (hself : W k k = 0)
    (hthrough : ∀ i j, W i j ≤ W i k + W k j) (hk : k ∉ S) :
    ∃ x, W.Respects (insert k S) (Function.update t k x) := by
  obtain ⟨x, hx⟩ := h.exists_time hthrough
  have hold : ∀ i ∈ S, Function.update t k x i = t i :=
    fun i hi => Function.update_of_ne (ne_of_mem_of_not_mem hi hk) _ _
  refine ⟨x, fun i hi j hj => ?_⟩
  rcases Finset.mem_insert.1 hi with rfl | hiS <;> rcases Finset.mem_insert.1 hj with rfl | hjS
  · simp [hself]
  · rw [Function.update_self, hold j hjS]
    exact (hx j hjS).1
  · rw [Function.update_self, hold i hiS]
    exact (hx i hiS).2
  · rw [hold i hiS, hold j hjS]
    exact h i hiS j hjS

/-- **Room for every event.**  Where the limits are closed, times of some events
    that keep them go on to times of all events that do. -/
theorem Closing.exists_respects (h : W.Closing M seen) (ht : W.Respects S t) (hT : T ⊆ seen) :
    ∃ t', (∀ i ∈ S, t' i = t i) ∧ W.Respects (T ∪ S) t' := by
  induction T using Finset.induction_on with
  | empty => exact ⟨t, fun _ _ => rfl, by rwa [Finset.empty_union]⟩
  | insert k T _ ih =>
    obtain ⟨t', hsame, ht'⟩ := ih ((Finset.subset_insert k T).trans hT)
    rw [Finset.insert_union]
    by_cases hk : k ∈ T ∪ S
    · exact ⟨t', hsame, by rwa [Finset.insert_eq_of_mem hk]⟩
    · obtain ⟨x, hx⟩ :=
        ht'.exists_insert (h.self k) (h.through k (hT (Finset.mem_insert_self k T))) hk
      refine ⟨_, fun i hi => ?_, hx⟩
      rw [Function.update_of_ne (ne_of_mem_of_not_mem (Finset.mem_union_right T hi) hk), hsame i hi]

/-- Any distance between two events that the limits allow is one of times that
    keep all limits. -/
theorem Closing.exists_respects_distance (h : W.Closing M seen) (hij : i ≠ j)
    (hupper : (n : WithTop Int) ≤ W i j) (hlower : (-n : WithTop Int) ≤ W j i) :
    ∃ t, t j - t i = n ∧ W.Respects seen t := by
  have hpair : W.Respects {i, j} (Function.update (fun _ => 0) j n) := by
    intro a ha b hb
    simp only [Finset.mem_insert, Finset.mem_singleton] at ha hb
    rcases ha with rfl | rfl <;> rcases hb with rfl | rfl <;> simp [h.self, hij, hupper, hlower]
  obtain ⟨t, hsame, ht⟩ := h.exists_respects hpair (Finset.Subset.refl seen)
  refine ⟨t, ?_, fun a ha b hb => ht a (Finset.mem_union_left _ ha) b (Finset.mem_union_left _ hb)⟩
  rw [hsame i (by simp), hsame j (by simp), Function.update_self, Function.update_of_ne hij,
    Int.sub_zero]

end Limits

end RuleNet
