/-
  RuleNet — distances there and back.

  The cells of two events, one for each direction, are written separately: while
  tests are imposed, one is made from the other by turning the signs of its
  bounds; while sums are closed, each is lowered on its own, with sums that stop
  at the ends of the range.  Both ways a bound can come to lie on the number that
  stands for no bound, and is lost in one of the two cells only.

  This does not happen as long as the amounts of all bounds together stay below
  that number (`Distances.get_eq_negate`), and it can happen as soon as they
  reach it (`Distances.not_get_eq_negate_atEnd`).
-/
import RuleNet.Proofs.Exactness

namespace RuleNet

open scoped BigOperators

/-! ## Amounts -/

namespace Interval

variable {i : Interval} {a b : WithTop Int} {n : Int}

/-- The amount of the lower end, where it is a bound. -/
def lowerAmount (i : Interval) : Int := if i.lo = noLower then 0 else |i.lo|

/-- The amount of the upper end, where it is a bound. -/
def upperAmount (i : Interval) : Int := if i.hi = noUpper then 0 else |i.hi|

/-- The amounts of both ends together. -/
def amount (i : Interval) : Int := i.lowerAmount + i.upperAmount

theorem lowerAmount_nonneg : 0 ≤ i.lowerAmount := by
  unfold lowerAmount
  split_ifs
  · exact le_refl 0
  · exact abs_nonneg _

theorem upperAmount_nonneg : 0 ≤ i.upperAmount := by
  unfold upperAmount
  split_ifs
  · exact le_refl 0
  · exact abs_nonneg _

theorem reaches_amounts (i : Interval) : i.Reaches i.lowerAmount i.upperAmount := by
  constructor
  · by_cases h : i.lo = noLower
    · exact .inl h
    · rw [lowerAmount, if_neg h]
      exact .inr (abs_le.1 (le_refl _))
  · by_cases h : i.hi = noUpper
    · exact .inl h
    · rw [upperAmount, if_neg h]
      exact .inr (abs_le.1 (le_refl _))

/-- Bounds of a small amount do not turn into the sign for no bound. -/
theorem reversible_of_amount (h : i.amount < noUpper) : i.Reversible := by
  obtain ⟨hlo, hhi⟩ := i.reaches_amounts
  have hlower := i.lowerAmount_nonneg
  have hupper := i.upperAmount_nonneg
  rw [amount] at h
  constructor <;> omega

theorem flip_upper (ha : Below noUpper a) : flip (upper a) = lower a := by
  cases a with
  | top => rfl
  | coe n =>
    have hn := ha n rfl
    have hflip := flip_cases n
    simp only [upper_coe, lower_coe, noUpper, noLower] at *
    omega

theorem flip_lower (ha : Below noUpper a) : flip (lower a) = upper a := by
  cases a with
  | top => rfl
  | coe n =>
    have hn := ha n rfl
    have hflip := flip_cases (-n)
    simp only [upper_coe, lower_coe, noUpper, noLower] at *
    omega

/-- What two limits leave, seen from the other side, is what they leave in the
    other direction. -/
theorem negate_ofLimits (ha : Below noUpper a) (hb : Below noUpper b) :
    (ofLimits a b).negate = ofLimits b a := by
  rw [ofLimits, ofLimits, negate, flip_upper ha, flip_lower hb]

end Interval

namespace Pattern

variable {ps : List Pattern}

/-- The amounts of all bounds in the distances that the tests of patterns allow,
    together. -/
def amount (ps : List Pattern) : Int := ((timings ps).map fun c => (Interval.of c.2.1).amount).sum

/-- The amounts of the bounds that are counted from one event, together: the
    least distances that its own tests allow, and the greatest that tests leading
    to it allow. -/
def burden (ps : List Pattern) (v : Offset) : Int :=
  load (fun r => (Interval.of r).lowerAmount) (fun r => (Interval.of r).upperAmount) ps v

theorem burden_nonneg (v : Offset) : 0 ≤ burden ps v :=
  load_nonneg (fun _ => Interval.lowerAmount_nonneg) (fun _ => Interval.upperAmount_nonneg) v

theorem sum_burden_le (V : Finset Offset) : ∑ v ∈ V, burden ps v ≤ amount ps :=
  sum_load_le (fun _ => Interval.lowerAmount_nonneg) (fun _ => Interval.upperAmount_nonneg) V

theorem weigh_burden (h : amount ps < Interval.noUpper) : Weigh ps (burden ps) := by
  intro own r target hrelate
  obtain ⟨hlower, hupper⟩ := hrelate.le_load
    (f := fun r => (Interval.of r).lowerAmount) (g := fun r => (Interval.of r).upperAmount)
    (fun _ => Interval.lowerAmount_nonneg) (fun _ => Interval.upperAmount_nonneg)
  have hamount : (Interval.of r).amount ≤ amount ps :=
    List.single_le_sum (List.forall_mem_map.2 fun _ _ =>
      add_nonneg Interval.lowerAmount_nonneg Interval.upperAmount_nonneg) _
      (List.mem_map.2 ⟨_, mem_timings.2 hrelate, rfl⟩)
  exact ⟨Interval.reversible_of_amount (hamount.trans_lt h),
    (Interval.of r).reaches_amounts.mono hlower hupper⟩

end Pattern

/-! ## There and back -/

namespace Distances

/-- **Distances there are the opposite of those back.**  If the amounts of all
    bounds together are less than the number that stands for no bound, the cell
    of any two offsets is the opposite of the cell of the same two the other way
    round. -/
theorem get_eq_negate {ps : List Pattern} {d : Distances}
    (hamount : Pattern.amount ps < Interval.noUpper) (hd : ofPatterns ps = .ok d) (i j : Offset) :
    d.get i j = (d.get j i).negate := by
  have hsmall : ∀ V : Finset Offset, ∑ v ∈ V, Pattern.burden ps v < Interval.noUpper :=
    fun V => (Pattern.sum_burden_le V).trans_lt hamount
  have hends := ofPatterns_holds_of_weigh hsmall (fun _ => Pattern.burden_nonneg _)
    (Pattern.weigh_burden hamount)
  rw [hd] at hends
  obtain ⟨W, hW⟩ := hends
  rw [hW.cells i j, hW.cells j i, Interval.negate_ofLimits (hW.below hsmall) (hW.below hsmall)]

/-- Three events, each long before or any time after the one before; the bounds
    together stay below the number that stands for none. -/
def nearEnd : List Pattern :=
  [{ offset := 0, type := 1, event := true },
    { offset := 1, type := 1, event := true,
      timeTests := [⟨.after (-4611686018427387904) Interval.noUpper, 0⟩] },
    { offset := 2, type := 1, event := true,
      timeTests := [⟨.after (-4611686018427387902) Interval.noUpper, 1⟩] }]

theorem get_eq_negate_nearEnd : Pattern.amount nearEnd < Interval.noUpper ∧
    ∃ d, ofPatterns nearEnd = .ok d ∧ d.get 0 2 = ⟨-9223372036854775806, Interval.noUpper⟩ ∧
      d.get 0 2 = (d.get 2 0).negate := by
  have hamount : Pattern.amount nearEnd < Interval.noUpper := by decide
  have hvalue : (ofPatterns nearEnd).toOption.map (·.get 0 2) =
      some ⟨-9223372036854775806, Interval.noUpper⟩ := by decide +kernel
  cases hd : ofPatterns nearEnd with
  | error f => simp [hd, Except.toOption] at hvalue
  | ok d =>
    simp only [hd, Except.toOption, Option.map_some, Option.some.injEq] at hvalue
    exact ⟨hamount, d, rfl, hvalue, get_eq_negate hamount hd 0 2⟩

/-- Two events, the second one no longer before the first one than the range
    goes, and not after it. -/
def atEnd : List Pattern :=
  [{ offset := 0, type := 1, event := true },
    { offset := 1, type := 1, event := true, timeTests := [⟨.after (-9223372036854775807) 0, 0⟩] }]

/-- Once the amounts reach the number that stands for no bound, a bound can get
    lost on one side. -/
theorem not_get_eq_negate_atEnd : Pattern.amount atEnd = Interval.noUpper ∧
    ∃ d, ofPatterns atEnd = .ok d ∧ d.get 0 1 = ⟨-9223372036854775807, 0⟩ ∧
      (d.get 1 0).negate = ⟨Interval.noLower, 0⟩ ∧ d.get 0 1 ≠ (d.get 1 0).negate := by
  have hvalues : (ofPatterns atEnd).toOption.map (fun d => (d.get 0 1, (d.get 1 0).negate)) =
      some (⟨-9223372036854775807, 0⟩, ⟨Interval.noLower, 0⟩) := by decide +kernel
  cases hd : ofPatterns atEnd with
  | error f => simp [hd, Except.toOption] at hvalues
  | ok d =>
    simp only [hd, Except.toOption, Option.map_some, Option.some.injEq, Prod.mk.injEq] at hvalues
    refine ⟨by decide, d, rfl, hvalues.1, hvalues.2, ?_⟩
    rw [hvalues.1, hvalues.2]
    decide

end Distances

end RuleNet
