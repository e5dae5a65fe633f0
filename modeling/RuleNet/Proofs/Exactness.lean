/-
  RuleNet — the distances worked out for patterns are exactly the possible ones.

  Seen as limits, the cells of two events say how long each may happen after the
  other one.  A round of closing reads cells of the row and the column of its
  stop only, and these the round leaves as they are: whatever order it writes
  the others in, it lowers all limits at once.  An interval that gets empty on
  the diagonal is a way round that limits an event to happen before itself.

  Sums that stop at an end of the range do no harm as long as all bounds together
  are small, because the events on the way of a limit are different ones.

  Main result: patterns are called contradictory if and only if no times pass
  all tests, every cell admits exactly the distances of times that pass them,
  and facts are kept exactly as long as an event may follow
  (`Distances.ofPatterns_exact`).
-/
import RuleNet.Proofs.Limits
import RuleNet.Proofs.Narrowing

namespace RuleNet

open scoped BigOperators

/-! ## Intervals between limits -/

namespace Interval

variable {a b c e : WithTop Int} {m n : Int} {i j : Interval}

/-- A limit, where there is one, is smaller than `m` in amount. -/
def Below (m : Int) (a : WithTop Int) : Prop := ∀ n : Int, a = n → -m < n ∧ n < m

/-- The upper end that stands for a limit. -/
def upper (a : WithTop Int) : Int := a.untopD noUpper

/-- The lower end that stands for a limit on the opposite distance. -/
def lower (a : WithTop Int) : Int := (a.map (-·)).untopD noLower

@[simp] theorem upper_coe : upper n = n := rfl

@[simp] theorem lower_coe : lower n = -n := rfl

@[simp] theorem upper_top : upper ⊤ = noUpper := rfl

@[simp] theorem lower_top : lower ⊤ = noLower := rfl

/-- The distances between two events that a limit on them and one on the
    opposite distances leave. -/
def ofLimits (there back : WithTop Int) : Interval := ⟨lower back, upper there⟩

/-- The sign for no upper bound lowers no upper bound. -/
theorem min_upper_noUpper (ha : Below noUpper a) : min (upper a) noUpper = upper a := by
  cases a with
  | top => exact min_self _
  | coe n => exact min_eq_left (ha n rfl).2.le

/-- The sign for no lower bound raises no lower bound. -/
theorem max_lower_noLower (ha : Below noUpper a) : max (lower a) noLower = lower a := by
  cases a with
  | top => exact max_self _
  | coe n =>
    have hn := ha n rfl
    simp only [lower_coe, noLower, noUpper] at *
    omega

/-- A sum that stops at an end of the range lowers a limit just as the sum
    itself, as long as no limit comes out that stands for no bound. -/
theorem upper_min_add (ha : Below noUpper a) (hb : Below noUpper b) (hc : Below noUpper c)
    (hmin : Below noUpper (min c (a + b))) :
    min (upper c)
        (if upper a = noUpper ∨ upper b = noUpper then noUpper else clamp (upper a + upper b)) =
      upper (min c (a + b)) := by
  cases a with
  | top => simpa using min_upper_noUpper hc
  | coe m =>
    cases b with
    | top => simpa using min_upper_noUpper hc
    | coe n =>
      have hm := ha m rfl
      have hn := hb n rfl
      rw [← WithTop.coe_add] at hmin ⊢
      rw [upper_coe, upper_coe, if_neg (by omega)]
      cases c with
      | top =>
        have hsum := hmin (m + n) (by simp)
        simp only [top_inf_eq, upper_coe, upper_top, clamp, noUpper, noLower] at *
        omega
      | coe p =>
        have hp := hc p rfl
        rw [← WithTop.coe_min] at hmin ⊢
        have hsum := hmin _ rfl
        simp only [upper_coe, clamp, noUpper, noLower] at *
        omega

theorem lower_max_add (ha : Below noUpper a) (hb : Below noUpper b) (hc : Below noUpper c)
    (hmin : Below noUpper (min c (a + b))) :
    max (lower c)
        (if lower a = noLower ∨ lower b = noLower then noLower else clamp (lower a + lower b)) =
      lower (min c (a + b)) := by
  cases a with
  | top => simpa using max_lower_noLower hc
  | coe m =>
    cases b with
    | top => simpa using max_lower_noLower hc
    | coe n =>
      have hm := ha m rfl
      have hn := hb n rfl
      rw [← WithTop.coe_add] at hmin ⊢
      rw [lower_coe, lower_coe, if_neg (by simp only [noLower, noUpper] at *; omega)]
      cases c with
      | top =>
        have hsum := hmin (m + n) (by simp)
        simp only [top_inf_eq, lower_coe, lower_top, clamp, noUpper, noLower] at *
        omega
      | coe p =>
        have hp := hc p rfl
        rw [← WithTop.coe_min] at hmin ⊢
        have hsum := hmin _ rfl
        simp only [lower_coe, clamp, noUpper, noLower] at *
        omega

/-- Narrowing to sums lowers both limits to sums. -/
theorem intersect_add_ofLimits {a' b' c' : WithTop Int}
    (ha : Below noUpper a ∧ Below noUpper a') (hb : Below noUpper b ∧ Below noUpper b')
    (hc : Below noUpper c ∧ Below noUpper c') (hmin : Below noUpper (min c (a + b)))
    (hmin' : Below noUpper (min c' (a' + b'))) :
    (ofLimits c c').intersect ((ofLimits a a').add (ofLimits b b')) =
      ofLimits (min c (a + b)) (min c' (a' + b')) := by
  rw [ofLimits, ofLimits, ofLimits, ofLimits, intersect, Interval.add,
    ← upper_min_add ha.1 hb.1 hc.1 hmin, ← lower_max_add ha.2 hb.2 hc.2 hmin']

theorem admits_ofLimits (ha : Below noUpper a) (hb : Below noUpper b) :
    (ofLimits a b).Admits n ↔ (n : WithTop Int) ≤ a ∧ (-n : WithTop Int) ≤ b := by
  have hupper : (upper a = noUpper ∨ n ≤ upper a) ↔ (n : WithTop Int) ≤ a := by
    cases a with
    | top => simp
    | coe m =>
      have hm := ha m rfl
      rw [upper_coe, WithTop.coe_le_coe]
      omega
  have hlower : (lower b = noLower ∨ lower b ≤ n) ↔ (-n : WithTop Int) ≤ b := by
    cases b with
    | top => simp
    | coe m =>
      have hm := hb m rfl
      simp only [noUpper] at hm
      rw [← WithTop.LinearOrderedAddCommGroup.coe_neg, WithTop.coe_le_coe]
      simp only [lower_coe, noLower]
      omega
  rw [Admits, ofLimits, hupper, hlower]
  exact and_comm

/-- A limit on the distance from an event to itself leaves one unless it is
    negative. -/
theorem nonneg_of_ofLimits (ha : Below noUpper a) (h : (ofLimits a a).isEmpty = false) :
    0 ≤ a := by
  cases a with
  | top => exact le_top
  | coe n =>
    rw [isEmpty, decide_eq_false_iff_not] at h
    simp only [ofLimits, lower_coe, upper_coe] at h
    rw [← WithTop.coe_zero, WithTop.coe_le_coe]
    omega

/-- The limit that an upper end stands for. -/
def limit (i : Interval) : WithTop Int := if i.hi = noUpper then ⊤ else i.hi

theorem limit_eq_coe : i.limit = n ↔ i.hi ≠ noUpper ∧ i.hi = n := by
  rw [limit]
  split_ifs with hnone
  · simp [hnone]
  · simp [hnone]

/-- Opposite intervals are what their two limits leave. -/
theorem Reversible.eq_ofLimits (h : i.Reversible) : i = ofLimits i.limit i.negate.limit := by
  have hupper : upper i.limit = i.hi := by
    rw [limit]
    split_ifs with hnone
    · exact hnone.symm
    · rfl
  have hlower : lower i.negate.limit = i.lo := by
    change lower (if flip i.lo = noUpper then ⊤ else ↑(flip i.lo)) = i.lo
    rcases flip_cases i.lo with ⟨hlo, -⟩ | ⟨hlo, hflip⟩ | ⟨hupper, hlower, hflip⟩
    · have := h.lo
      simp only [noLower, noUpper] at *
      omega
    · rw [hflip, if_pos rfl, hlo, lower_top]
    · have hbound := h.lo
      rw [hflip, if_neg (by simp only [noLower, noUpper] at *; omega), lower_coe, Int.neg_neg]
  rw [ofLimits, hupper, hlower]

/-- What an interval admits, wider ones admit. -/
theorem Within.admits (h : i.Within j) (hj : j.InRange) (hi : i.Admits n) : j.Admits n := by
  obtain ⟨hlo, hhi⟩ := h
  obtain ⟨hlo', hhi'⟩ := hj
  obtain ⟨hlower, hupper⟩ := hi
  constructor <;> omega

/-! ## Ends of a certain amount -/

/-- The lower end of the interval is `m` in amount at most and the upper one
    `n`, unless they stand for no bound. -/
structure Reaches (m n : Int) (i : Interval) : Prop where
  lo : i.lo = noLower ∨ (-m ≤ i.lo ∧ i.lo ≤ m)
  hi : i.hi = noUpper ∨ (-n ≤ i.hi ∧ i.hi ≤ n)

section Reaches
variable {m' n' : Int}

theorem Reaches.mono (h : i.Reaches m n) (hm : m ≤ m') (hn : n ≤ n') : i.Reaches m' n' := by
  obtain ⟨hlo, hhi⟩ := h
  constructor <;> omega

theorem Reaches.intersect (hi : i.Reaches m n) (hj : j.Reaches m n) (hrange : i.InRange)
    (hrange' : j.InRange) : (i.intersect j).Reaches m n := by
  obtain ⟨hlo, hhi⟩ := hi
  obtain ⟨hlo', hhi'⟩ := hj
  obtain ⟨⟨hlower, -⟩, -, hupper⟩ := hrange
  obtain ⟨⟨hlower', -⟩, -, hupper'⟩ := hrange'
  constructor <;> simp only [Interval.intersect] <;> omega

theorem Reaches.negate (h : i.Reaches m n) (hrev : i.Reversible) : i.negate.Reaches n m := by
  obtain ⟨hlo, hhi⟩ := h
  obtain ⟨hlo', hhi'⟩ := hrev
  have hflip := flip_cases i.lo
  have hflip' := flip_cases i.hi
  simp only [noLower, noUpper] at *
  constructor <;> simp only [Interval.negate, noLower, noUpper] <;> omega

theorem reaches_zero (hm : 0 ≤ m) (hn : 0 ≤ n) : zero.Reaches m n := by
  constructor <;> simp only [zero] <;> omega

theorem reaches_unbounded : unbounded.Reaches m n := ⟨.inl rfl, .inl rfl⟩

end Reaches

end Interval

/-! ## What tests contribute -/

/-- The amounts of the bounds of a relation in time together, an upper bound
    that is missing left out. -/
def TimeRelation.reach : TimeRelation → Int
  | after least most | before least most =>
    |least| + if most = Interval.noUpper then 0 else |most|
  | coincides tolerance => |tolerance|

namespace TimeRelation

variable {r : TimeRelation}

theorem reach_nonneg : 0 ≤ r.reach := by
  have hmost : ∀ most : Int, 0 ≤ if most = Interval.noUpper then 0 else |most| := by
    intro most
    split_ifs
    · exact le_refl 0
    · exact abs_nonneg most
  cases r with
  | after least most | before least most => exact add_nonneg (abs_nonneg least) (hmost most)
  | coincides tolerance => exact abs_nonneg tolerance

theorem Moderate.reaches_of (h : r.Moderate) : (Interval.of r).Reaches r.reach r.reach := by
  have hends : ∀ least most : Int, (Interval.mk least most).Reaches
      (|least| + if most = Interval.noUpper then 0 else |most|)
      (|least| + if most = Interval.noUpper then 0 else |most|) := by
    intro least most
    have hleast := neg_abs_le least
    have hleast' := le_abs_self least
    have hmost := neg_abs_le most
    have hmost' := le_abs_self most
    constructor <;> simp only [] <;> split_ifs <;> omega
  cases r with
  | after least most => exact hends least most
  | before least most => exact (hends least most).negate (Moderate.reversible_of (r := .after _ _) h)
  | coincides tolerance =>
    have htolerance := neg_abs_le tolerance
    have htolerance' := le_abs_self tolerance
    have hopposite : Interval.opposite tolerance = -tolerance :=
      Interval.opposite_eq (by rw [Moderate] at h; rw [Interval.noLower]; omega)
    constructor <;> simp only [Interval.of, hopposite, reach] <;> omega

theorem moderate_of_reach (h : r.reach < 2 ^ 61) : r.Moderate := by
  have hends : ∀ least most : Int,
      (|least| + if most = Interval.noUpper then 0 else |most|) < 2 ^ 61 →
        (-2 ^ 62 ≤ least ∧ least ≤ 2 ^ 62) ∧
          (most = Interval.noUpper ∨ (-2 ^ 62 ≤ most ∧ most ≤ 2 ^ 62)) := by
    intro least most h
    have hleast := neg_abs_le least
    have hleast' := le_abs_self least
    have hmost := neg_abs_le most
    have hmost' := le_abs_self most
    split_ifs at h <;> omega
  cases r with
  | after least most | before least most => exact hends least most h
  | coincides tolerance =>
    have htolerance := neg_abs_le tolerance
    have htolerance' := le_abs_self tolerance
    simp only [reach] at h
    constructor <;> omega

end TimeRelation

namespace Pattern

variable {ps : List Pattern} {own target : Offset} {r : TimeRelation}

/-- All relations in time that patterns of the rule stand in: the offset of the
    pattern, the relation, and the offset that it leads to. -/
def timings (ps : List Pattern) : List (Offset × TimeRelation × Offset) :=
  (ps.filter fun p => !p.isSynthetic).flatMap fun p => p.joinTests.filterMap fun
    | .temporal r target => some (p.offset, r, target)
    | _ => none

theorem mem_timings : (own, r, target) ∈ timings ps ↔ Relate ps own r target := by
  simp only [timings, List.mem_flatMap, List.mem_filter, List.mem_filterMap, Relate,
    Bool.not_eq_true', and_assoc]
  refine exists_congr fun p => and_congr_right fun _ => and_congr_right fun _ => ?_
  constructor
  · rintro ⟨test, htest, heq⟩
    cases test <;> simp only [reduceCtorEq, Option.some.injEq, Prod.mk.injEq] at heq
    obtain ⟨rfl, rfl, rfl⟩ := heq
    exact ⟨rfl, htest⟩
  · rintro ⟨rfl, htest⟩
    exact ⟨_, htest, rfl⟩

section Load

variable {f g : TimeRelation → Int} (hf : ∀ r, 0 ≤ f r) (hg : ∀ r, 0 ≤ g r)

/-- What all tests contribute to one event: `f` where it is the event of the
    test's pattern, `g` where it is the event that the test leads to. -/
def load (f g : TimeRelation → Int) (ps : List Pattern) (v : Offset) : Int :=
  ((timings ps).map fun c =>
    (if c.1 = v then f c.2.1 else 0) + if c.2.2 = v then g c.2.1 else 0).sum

include hf hg

theorem load_term_nonneg (c : Offset × TimeRelation × Offset) (v : Offset) :
    0 ≤ (if c.1 = v then f c.2.1 else 0) + if c.2.2 = v then g c.2.1 else 0 := by
  have hown := hf c.2.1
  have htarget := hg c.2.1
  split_ifs <;> omega

theorem load_nonneg (v : Offset) : 0 ≤ load f g ps v :=
  List.sum_nonneg (List.forall_mem_map.2 fun c _ => load_term_nonneg hf hg c v)

/-- Each test counts for both of its events. -/
theorem Relate.le_load (h : Relate ps own r target) :
    f r ≤ load f g ps own ∧ g r ≤ load f g ps target := by
  have hown := hf r
  have htarget := hg r
  have hterm : ∀ v, (if own = v then f r else 0) + (if target = v then g r else 0) ≤
      load f g ps v := fun v =>
    List.single_le_sum (List.forall_mem_map.2 fun c _ => load_term_nonneg hf hg c v) _
      (List.mem_map.2 ⟨_, mem_timings.2 h, rfl⟩)
  have hatOwn := hterm own
  have hatTarget := hterm target
  rw [if_pos rfl] at hatOwn hatTarget
  split_ifs at hatOwn hatTarget <;> omega

/-- No test counts for more than two events. -/
theorem sum_load_le (V : Finset Offset) :
    ∑ v ∈ V, load f g ps v ≤ ((timings ps).map fun c => f c.2.1 + g c.2.1).sum := by
  unfold load
  induction timings ps with
  | nil => simp
  | cons c cs ih =>
    have hown := hf c.2.1
    have htarget := hg c.2.1
    have hterm : ∑ v ∈ V, ((if c.1 = v then f c.2.1 else 0) +
        if c.2.2 = v then g c.2.1 else 0) ≤ f c.2.1 + g c.2.1 := by
      rw [Finset.sum_add_distrib, Finset.sum_ite_eq, Finset.sum_ite_eq]
      split_ifs <;> omega
    simp only [List.map_cons, List.sum_cons, Finset.sum_add_distrib] at *
    omega

end Load

/-- The amounts of all bounds together. -/
def reach (ps : List Pattern) : Int := ((timings ps).map fun c => c.2.1.reach).sum

/-- The amounts of the bounds on the time of one event together. -/
def share (ps : List Pattern) (v : Offset) : Int :=
  ((timings ps).map fun c =>
    (if c.1 = v then c.2.1.reach else 0) + if c.2.2 = v then c.2.1.reach else 0).sum

theorem share_eq_load : share ps = load TimeRelation.reach TimeRelation.reach ps := rfl

theorem share_nonneg (v : Offset) : 0 ≤ share ps v := by
  rw [share_eq_load]
  exact load_nonneg (fun _ => TimeRelation.reach_nonneg) (fun _ => TimeRelation.reach_nonneg) v

/-- Each relation counts for both of its events. -/
theorem Relate.reach_le_share (h : Relate ps own r target) :
    r.reach ≤ share ps own ∧ r.reach ≤ share ps target := by
  rw [share_eq_load]
  exact h.le_load (fun _ => TimeRelation.reach_nonneg) (fun _ => TimeRelation.reach_nonneg)

theorem Relate.reach_le (h : Relate ps own r target) : r.reach ≤ reach ps :=
  List.single_le_sum (List.forall_mem_map.2 fun _ _ => TimeRelation.reach_nonneg) _
    (List.mem_map.2 ⟨_, mem_timings.2 h, rfl⟩)

/-- No relation counts for more than two events. -/
theorem sum_share_le (V : Finset Offset) : ∑ v ∈ V, share ps v ≤ 2 * reach ps := by
  rw [share_eq_load]
  refine (sum_load_le (fun _ => TimeRelation.reach_nonneg) (fun _ => TimeRelation.reach_nonneg)
    V).trans (le_of_eq ?_)
  rw [reach, List.sum_map_add, two_mul]

theorem moderate_of_reach (h : reach ps < 2 ^ 61) : Moderate ps :=
  fun _ _ _ hrelate => TimeRelation.moderate_of_reach (lt_of_le_of_lt hrelate.reach_le h)

/-- Every test leads to the offset of a pattern in the rule. -/
def Aimed (ps : List Pattern) : Prop :=
  ∀ own r target, Relate ps own r target → Occupy ps target

/-- No bound of a test exceeds in amount what `m` says of the event that it is
    counted from, and none turns into the sign for no bound on the other side. -/
def Weigh (ps : List Pattern) (m : Offset → Int) : Prop :=
  ∀ own r target, Relate ps own r target →
    (Interval.of r).Reversible ∧ (Interval.of r).Reaches (m own) (m target)

theorem weigh_share (h : reach ps < 2 ^ 61) : Weigh ps (share ps) := by
  intro own r target hrelate
  have hr := moderate_of_reach h own r target hrelate
  exact ⟨hr.reversible_of, hr.reaches_of.mono hrelate.reach_le_share.1 hrelate.reach_le_share.2⟩

end Pattern

namespace Distances

variable {d d' : Distances} {m : Offset → Int} {os : List Offset} {interval : Interval}
  {ps : List Pattern} {W : Limits} {seen : Finset Offset} {i j k : Offset} {t : Offset → Int}

/-! ## Cells before closing -/

/-- Cells of opposite events are opposite, cells of other events than those at
    `os` are as they were at first, and the ends of a cell are in amount at most
    what the bounds say on the event that they are counted from: an upper end on
    the first one, a lower end on the second one. -/
structure Seeded (m : Offset → Int) (os : List Offset) (d : Distances) : Prop extends d.Opposed where
  offsets : d.offsets = os
  apart : ∀ i j, i ≠ j → i ∉ os ∨ j ∉ os → d.get i j = .unbounded
  reaches : ∀ i j, (d.get i j).Reaches (m j) (m i)

theorem seeded_initial (hm : ∀ v, 0 ≤ m v) : (initial ps).Seeded m (initial ps).offsets where
  toOpposed := opposed_initial
  offsets := rfl
  apart i j hij _ := by rw [get_initial, if_neg hij]
  reaches i j := by
    rw [get_initial]
    split_ifs
    · exact Interval.reaches_zero (hm j) (hm i)
    · exact Interval.reaches_unbounded

theorem Seeded.constrain (h : d.Seeded m os) (hi : i ∈ os) (hj : j ∈ os)
    (hrev : interval.Reversible) (hreach : interval.Reaches (m j) (m i)) :
    Except.Ends IsContradiction (Seeded m os) (d.constrain i j interval) := by
  have hends : Except.Ends IsContradiction (fun _ => True) (d.constrain i j interval) :=
    constrain_ends
  cases hd : d.constrain i j interval with
  | error f => rwa [hd] at hends
  | ok d' =>
    have hopposed := (h.toOpposed.constrain hrev hd).1
    obtain ⟨-, rfl⟩ := constrain_inv hd
    have hrange := (h.reversible i j).inRange
    have hforward := (h.reaches i j).intersect hreach hrange hrev.inRange
    have hrev' := (h.reversible i j).intersect hrev
    refine ⟨hopposed, h.offsets, fun a b hab hout => ?_, fun a b => ?_⟩
    · have hback : ¬(j = a ∧ i = b) := by
        rintro ⟨rfl, rfl⟩
        tauto
      have hthere : ¬(i = a ∧ j = b) := by
        rintro ⟨rfl, rfl⟩
        tauto
      rw [get_mirror, if_neg hback, if_neg hthere]
      exact h.apart a b hab hout
    · rw [get_mirror]
      split_ifs with hback hthere
      · obtain ⟨rfl, rfl⟩ := hback
        exact hforward.negate hrev'
      · obtain ⟨rfl, rfl⟩ := hthere
        exact hforward
      · exact h.reaches a b

/-- The tests of all patterns lead to such cells, or contradict each other, or
    one of them leads to no pattern. -/
theorem seeded_tests (hweigh : Pattern.Weigh ps m)
    (hos : ∀ i, i ∈ os ↔ Pattern.Occupy ps i) (hd : d.Seeded m os) :
    Except.Ends (fun f => Pattern.Aimed ps → IsContradiction f) (Seeded m os)
      ((ps.filter fun p => !p.isSynthetic).foldlM
        (fun d p => p.joinTests.foldlM (fun d test => d.impose p.offset test) d) d) := by
  refine .foldlM (fun p hp d hd => .foldlM (fun test htest d hd => ?_) hd) hd
  obtain ⟨hp, hreal⟩ := List.mem_filter.1 hp
  rw [Bool.not_eq_true'] at hreal
  unfold Distances.impose
  split
  · rename_i r target
    have hrelate : Pattern.Relate ps p.offset r target := ⟨p, hp, hreal, rfl, htest⟩
    have hown : p.offset ∈ os := (hos p.offset).2 ⟨p, hp, hreal, rfl⟩
    obtain ⟨hrev, hreach⟩ := hweigh _ _ _ hrelate
    split_ifs with htarget
    · rw [hd.offsets, List.contains_iff_mem] at htarget
      exact (hd.constrain htarget hown hrev hreach).mono_error fun _ hf _ => hf
    · intro haimed
      refine absurd ?_ htarget
      rw [hd.offsets, List.contains_iff_mem]
      exact (hos target).2 (haimed _ _ _ hrelate)
  · exact hd

/-! ## Cells as limits -/

/-- The cells of the events at `os` say what limits say that are closed under
    sums over the events seen; other events are not limited. -/
structure Holds (m : Offset → Int) (os : List Offset) (seen : Finset Offset) (W : Limits)
    (d : Distances) : Prop where
  offsets : d.offsets = os
  closing : W.Closing m seen
  apart : ∀ i j, i ≠ j → i ∉ os ∨ j ∉ os → W i j = ⊤
  cells : ∀ i j, d.get i j = .ofLimits (W i j) (W j i)

/-- Before the first round, what a limit comes from is its first event. -/
theorem Seeded.holds (h : d.Seeded m os) :
    d.Holds m os ∅ (fun i j => (d.get i j).limit) where
  offsets := h.offsets
  apart i j hij hout := by rw [h.apart i j hij hout]; rfl
  cells i j := by rw [h.back i j]; exact (h.reversible i j).eq_ofLimits
  closing := by
    refine ⟨fun i => by rw [h.self i]; rfl, by simp, fun i j n hn => ?_⟩
    by_cases hij : i = j
    · subst hij
      rw [h.self i] at hn
      obtain rfl : n = 0 := (WithTop.coe_injective hn).symm
      exact ⟨∅, by simp, by simp, by simp⟩
    · obtain ⟨hne, hhi⟩ := Interval.limit_eq_coe.1 hn
      have hbound : |n| ≤ m i := hhi ▸ abs_le.2 ((h.reaches i j).hi.resolve_left hne)
      refine ⟨{i}, by simp, by rwa [Finset.sum_singleton], fun v hv => ?_⟩
      obtain rfl := Finset.mem_singleton.1 hv
      rw [h.self v, hn]
      exact (zero_add _).le

/-! ## One round -/

section Round

/-- The cell has been lowered to the sums over the stop of the round. -/
def Lowered (W : Limits) (k : Offset) (d : Distances) (i j : Offset) : Prop :=
  d.get i j = .ofLimits (W.pivot k i j) (W.pivot k j i)

/-- In the middle of a round, each cell has been lowered or has not. -/
structure Partway (os : List Offset) (W : Limits) (k : Offset) (d : Distances) : Prop where
  offsets : d.offsets = os
  cells : ∀ i j, d.get i j = .ofLimits (W i j) (W j i) ∨ Lowered W k d i j

/-- What has been lowered stays so. -/
def Proceeds (W : Limits) (k : Offset) (d d' : Distances) : Prop :=
  ∀ i j, Lowered W k d i j → Lowered W k d' i j

theorem Proceeds.refl (W : Limits) (k : Offset) (d : Distances) : Proceeds W k d d :=
  fun _ _ => id

theorem Proceeds.trans {W : Limits} {k : Offset} (a b c : Distances) (hab : Proceeds W k a b)
    (hbc : Proceeds W k b c) : Proceeds W k a c :=
  fun i j h => hbc i j (hab i j h)

theorem relax_inv (h : d.relax k i j = .ok d') :
    ((d.get i j).intersect ((d.get i k).add (d.get k j))).isEmpty = false ∧
      d' = d.set i j ((d.get i j).intersect ((d.get i k).add (d.get k j))) := by
  simp only [relax] at h
  split_ifs at h with hempty
  exact ⟨Bool.eq_false_iff.2 hempty, (Except.ok.inj h).symm⟩

variable (hself : W k k = 0) (hsmall : ∀ i j, Interval.Below Interval.noUpper (W i j))
  (hpivot : ∀ i j, Interval.Below Interval.noUpper (W.pivot k i j))

include hself in
/-- The row and the column of the stop stay as they are. -/
theorem Partway.stop (h : d.Partway os W k) :
    d.get i k = .ofLimits (W i k) (W k i) ∧ d.get k j = .ofLimits (W k j) (W j k) := by
  constructor
  · rcases h.cells i k with heq | heq
    · exact heq
    · rw [heq, Limits.pivot_to hself, Limits.pivot_from hself]
  · rcases h.cells k j with heq | heq
    · exact heq
    · rw [heq, Limits.pivot_to hself, Limits.pivot_from hself]

include hself hsmall hpivot in
/-- **One step of a round.** -/
theorem Partway.relax (h : d.Partway os W k) (hstep : d.relax k i j = .ok d') :
    d'.Partway os W k ∧ Proceeds W k d d' ∧ Lowered W k d' i j ∧ (d'.get i j).isEmpty = false := by
  obtain ⟨hne, rfl⟩ := relax_inv hstep
  have hagain : ∀ a b, min (W.pivot k a b) (W a k + W k b) = W.pivot k a b :=
    fun a b => min_eq_left Limits.pivot_le_sum
  have hlowered : (d.get i j).intersect ((d.get i k).add (d.get k j)) =
      .ofLimits (W.pivot k i j) (W.pivot k j i) := by
    rw [(h.stop hself (i := i) (j := j)).1, (h.stop hself (i := i) (j := j)).2]
    rcases h.cells i j with heq | heq
    · rw [heq, Interval.intersect_add_ofLimits ⟨hsmall i k, hsmall k i⟩ ⟨hsmall k j, hsmall j k⟩
        ⟨hsmall i j, hsmall j i⟩ (hpivot i j) (by rw [add_comm]; exact hpivot j i),
        add_comm (W k i)]
      rfl
    · rw [heq, Interval.intersect_add_ofLimits ⟨hsmall i k, hsmall k i⟩ ⟨hsmall k j, hsmall j k⟩
        ⟨hpivot i j, hpivot j i⟩ (by rw [hagain]; exact hpivot i j)
        (by rw [add_comm, hagain]; exact hpivot j i), add_comm (W k i), hagain, hagain]
  rw [hlowered] at hne ⊢
  refine ⟨⟨h.offsets, fun a b => ?_⟩, fun a b hab => ?_, ?_, ?_⟩
  · rw [Lowered, get_set]
    split_ifs with heq
    · obtain ⟨rfl, rfl⟩ := heq
      exact .inr rfl
    · exact h.cells a b
  · rw [Lowered, get_set]
    split_ifs with heq
    · obtain ⟨rfl, rfl⟩ := heq
      rfl
    · exact hab
  · rw [Lowered, get_set, if_pos ⟨rfl, rfl⟩]
  · rwa [get_set, if_pos ⟨rfl, rfl⟩]

include hself hsmall hpivot in
/-- The steps of one row. -/
theorem Partway.row (h : d.Partway os W k)
    (hrow : d.offsets.foldlM (fun d j => d.relax k i j) d = .ok d') :
    d'.Partway os W k ∧ Proceeds W k d d' ∧ (∀ j ∈ os, Lowered W k d' i j) ∧
      (i ∈ os → 0 ≤ W.pivot k i i) := by
  rw [h.offsets] at hrow
  obtain ⟨hpartway, hproceeds, hsteps⟩ := Except.foldlM_steps (Proceeds.refl W k) Proceeds.trans
    (fun j _ a b ha hb => ⟨(ha.relax hself hsmall hpivot hb).1, (ha.relax hself hsmall hpivot hb).2.1⟩) hrow h
  refine ⟨hpartway, hproceeds, fun j hj => ?_, fun hi => ?_⟩
  · obtain ⟨a, b, ha, hb, hrest⟩ := hsteps j hj
    exact hrest i j (ha.relax hself hsmall hpivot hb).2.2.1
  · obtain ⟨a, b, ha, hb, -⟩ := hsteps i hi
    obtain ⟨-, -, hlowered, hne⟩ := ha.relax hself hsmall hpivot hb
    rw [hlowered] at hne
    exact Interval.nonneg_of_ofLimits (hpivot i i) hne

end Round

variable (hshare : ∀ V : Finset Offset, ∑ v ∈ V, m v < Interval.noUpper)

include hshare in
/-- Limits that come from different events are small. -/
theorem Holds.below (h : d.Holds m os seen W) : Interval.Below Interval.noUpper (W i j) := by
  intro n hn
  obtain ⟨V, -, hsum, -⟩ := h.closing.supported i j n hn
  exact abs_lt.1 (lt_of_le_of_lt hsum (hshare V))

include hshare in
/-- So are those that a round lowers. -/
theorem Holds.below_pivot (h : d.Holds m os seen W) :
    Interval.Below Interval.noUpper (W.pivot k i j) := by
  intro n hn
  obtain ⟨V, -, hsum, -⟩ := h.closing.pivot_supported hn
  exact abs_lt.1 (lt_of_le_of_lt hsum (hshare V))

/-- A stop limits nothing that is at no offset. -/
theorem Holds.pivot_apart (h : d.Holds m os seen W) (hk : k ∈ os) (hij : i ≠ j)
    (hout : i ∉ os ∨ j ∉ os) : W.pivot k i j = ⊤ := by
  rw [Limits.pivot, h.apart i j hij hout, top_inf_eq]
  rcases hout with hi | hj
  · rw [h.apart i k (fun heq => hi (heq ▸ hk)) (.inl hi), top_add]
  · rw [h.apart k j (fun heq => hj (heq ▸ hk)) (.inr hj), add_top]

include hshare in
/-- **A round lowers all limits at once**, whatever order it writes cells in. -/
theorem Holds.round (h : d.Holds m os seen W) (hk : k ∈ os)
    (hd : d.offsets.foldlM (fun d i => d.offsets.foldlM (fun d j => d.relax k i j) d) d = .ok d') :
    d'.Holds m os (insert k seen) (W.pivot k) := by
  have hself := h.closing.self k
  have hsmall : ∀ i j, Interval.Below Interval.noUpper (W i j) := fun _ _ => h.below hshare
  have hpivot : ∀ i j, Interval.Below Interval.noUpper (W.pivot k i j) :=
    fun _ _ => h.below_pivot hshare
  have hstart : d.Partway os W k := ⟨h.offsets, fun i j => .inl (h.cells i j)⟩
  obtain ⟨hend, -, hrows⟩ := Except.foldlM_steps (Proceeds.refl W k) Proceeds.trans
    (fun i _ a b ha hb => ⟨(ha.row hself hsmall hpivot hb).1, (ha.row hself hsmall hpivot hb).2.1⟩) hd hstart
  rw [h.offsets] at hrows
  have hround : ∀ i, 0 ≤ W i k + W k i := by
    intro i
    by_cases hi : i ∈ os
    · obtain ⟨a, b, ha, hb, -⟩ := hrows i hi
      exact ((ha.row hself hsmall hpivot hb).2.2.2 hi).trans Limits.pivot_le_sum
    · rw [h.apart i k (fun heq => hi (heq ▸ hk)) (.inl hi), top_add]
      exact le_top
  have hclosing := h.closing.pivot hround
  have hout : ∀ i j, i ≠ j → i ∉ os ∨ j ∉ os → W.pivot k i j = ⊤ :=
    fun _ _ hij hout => h.pivot_apart hk hij hout
  refine ⟨hend.offsets, hclosing, hout, fun i j => ?_⟩
  rcases hend.cells i j with hcell | hcell
  · by_cases hin : i ∈ os ∧ j ∈ os
    · obtain ⟨a, b, ha, hb, hrest⟩ := hrows i hin.1
      exact hrest i j ((ha.row hself hsmall hpivot hb).2.2.1 j hin.2)
    · -- The round leaves out what is at no offset.
      rw [not_and_or] at hin
      by_cases hij : i = j
      · rw [hcell, hij, h.closing.self, hclosing.self]
      · rw [hcell, h.apart i j hij hin, h.apart j i (Ne.symm hij) hin.symm, hout i j hij hin,
          hout j i (Ne.symm hij) hin.symm]
  · exact hcell

include hshare in
theorem Holds.rounds {ks : List Offset} (h : d.Holds m os seen W) (hks : ∀ k ∈ ks, k ∈ os)
    (hd : ks.foldlM (fun d k =>
      d.offsets.foldlM (fun d i => d.offsets.foldlM (fun d j => d.relax k i j) d) d) d = .ok d') :
    ∃ W', d'.Holds m os (ks.toFinset ∪ seen) W' := by
  induction ks generalizing seen W d with
  | nil =>
    cases hd
    exact ⟨W, by simpa using h⟩
  | cons k ks ih =>
    rw [List.forall_mem_cons] at hks
    rw [List.foldlM_cons] at hd
    obtain ⟨a, hround, hd⟩ := Except.bind_inv hd
    obtain ⟨W', hW'⟩ := ih (h.round hshare hks.1 hround) hks.2 hd
    refine ⟨W', ?_⟩
    rwa [List.toFinset_cons, Finset.insert_union, ← Finset.union_insert]

include hshare in
/-- All rounds together close the limits under sums over all events. -/
theorem Holds.close (h : d.Holds m os ∅ W) (hd : d.close = .ok d') :
    ∃ W', d'.Holds m os os.toFinset W' := by
  rw [Distances.close, h.offsets] at hd
  obtain ⟨W', hW'⟩ := h.rounds hshare (fun _ hk => hk) hd
  exact ⟨W', by rwa [Finset.union_empty] at hW'⟩

/-! ## All patterns -/

/-- The offsets of the patterns that stand in the rule. -/
def occupied (ps : List Pattern) : List Offset :=
  (initial (ps.filter fun p => !p.isSynthetic)).offsets

include hshare in
/-- What comes out are closed limits, unless the tests contradict each other or
    one of them leads to no pattern. -/
theorem ofPatterns_holds_of_weigh (hm : ∀ v, 0 ≤ m v) (hweigh : Pattern.Weigh ps m) :
    Except.Ends (fun f => Pattern.Aimed ps → IsContradiction f)
      (fun d => ∃ W, d.Holds m (occupied ps) (occupied ps).toFinset W) (ofPatterns ps) := by
  refine Except.Ends.bind (P := Seeded m (occupied ps)) ?_ fun d hd => ?_
  · exact seeded_tests hweigh (fun _ => mem_offsets_initial) (seeded_initial hm)
  · cases hclose : d.close with
    | ok d' => exact hd.holds.close hshare hclose
    | error f =>
      have hf := close_ends (d := d)
      rw [hclose] at hf
      exact fun _ => hf

section Exact

variable (htargets : ∀ own r target, Pattern.Relate ps own r target → Pattern.Occupy ps target)
  (hreach : Pattern.reach ps < 2 ^ 61)

include hreach in
theorem sum_share_lt (V : Finset Offset) : ∑ v ∈ V, Pattern.share ps v < Interval.noUpper := by
  rw [Interval.noUpper]
  have hsum : ∑ v ∈ V, Pattern.share ps v ≤ 2 * Pattern.reach ps := Pattern.sum_share_le V
  omega

include htargets hreach in
/-- What comes out are closed limits, or a contradiction. -/
theorem ofPatterns_holds :
    Except.Ends IsContradiction
      (fun d => ∃ W, d.Holds (Pattern.share ps) (occupied ps) (occupied ps).toFinset W)
      (ofPatterns ps) :=
  (ofPatterns_holds_of_weigh (sum_share_lt hreach) (fun _ => Pattern.share_nonneg _)
    (Pattern.weigh_share hreach)).mono_error fun _ hf => hf htargets

include hreach in
/-- Times that keep the closed limits pass all tests. -/
theorem Holds.pass (h : d.Holds (Pattern.share ps) (occupied ps) seen W)
    (hd : ofPatterns ps = .ok d) (ht : W.Respects (occupied ps).toFinset t) : Pattern.Pass ps t := by
  intro own r target hrelate htarget
  have hmoderate := Pattern.moderate_of_reach hreach
  have hown := List.mem_toFinset.2 (mem_offsets_initial.2 hrelate.occupy)
  have htarget := List.mem_toFinset.2 (mem_offsets_initial.2 htarget)
  have hadmits : (d.get target own).Admits (t own - t target) := by
    rw [h.cells, Interval.admits_ofLimits (h.below (sum_share_lt hreach))
      (h.below (sum_share_lt hreach))]
    refine ⟨ht _ htarget _ hown, ?_⟩
    have hback := ht _ hown _ htarget
    rwa [← Int.neg_sub, WithTop.LinearOrderedAddCommGroup.coe_neg] at hback
  have hwithin := (ofPatterns_within hmoderate hd).2 own r target hrelate
  have hr := hmoderate own r target hrelate
  exact hr.admits_of.1 (hwithin.admits hr.reversible_of.inRange hadmits)

include hreach in
/-- Each distance that a cell admits is one of times that pass all tests. -/
theorem Holds.exists_pass (h : d.Holds (Pattern.share ps) (occupied ps) (occupied ps).toFinset W)
    (hd : ofPatterns ps = .ok d) {n : Int} (hn : (d.get i j).Admits n) :
    ∃ t, Pattern.Pass ps t ∧ t j - t i = n := by
  have hbelow : ∀ a b, Interval.Below Interval.noUpper (W a b) :=
    fun _ _ => h.below (sum_share_lt hreach)
  rw [h.cells, Interval.admits_ofLimits (hbelow i j) (hbelow j i)] at hn
  by_cases hij : i = j
  · subst hij
    rw [h.closing.self, ← WithTop.coe_zero, ← WithTop.LinearOrderedAddCommGroup.coe_neg,
      WithTop.coe_le_coe, WithTop.coe_le_coe] at hn
    obtain ⟨t, -, ht⟩ := h.closing.exists_respects (S := ∅) (t := fun _ => 0)
      (fun _ hi => absurd hi (Finset.notMem_empty _)) (Finset.Subset.refl _)
    rw [Finset.union_empty] at ht
    exact ⟨t, h.pass hreach hd ht, by omega⟩
  · obtain ⟨t, hdistance, ht⟩ := h.closing.exists_respects_distance hij hn.1 hn.2
    exact ⟨t, h.pass hreach hd ht, hdistance⟩

end Exact

/-! ## Keeping facts -/

theorem foldl_longest_mem (is : List Interval) (n : Int) :
    is.foldl (fun longest x => max longest x.hi) n = n ∨
      ∃ x ∈ is, x.hi = is.foldl (fun longest x => max longest x.hi) n := by
  induction is generalizing n with
  | nil => exact .inl rfl
  | cons x is ih =>
    rw [List.foldl_cons]
    rcases ih (max n x.hi) with heq | ⟨y, hy, heq⟩
    · rw [heq]
      rcases max_choice n x.hi with hmax | hmax
      · exact .inl hmax
      · exact .inr ⟨x, List.mem_cons_self, hmax.symm⟩
    · exact .inr ⟨y, List.mem_cons_of_mem x hy, heq⟩

/-- The time of keeping is the upper end of a cell of the row. -/
theorem hi_eq_of_expiration {n : Int} (h : d.expiration i = .bounded n) :
    n = 0 ∨ ∃ j ∈ d.offsets, (d.get i j).hi = n := by
  simp only [expiration] at h
  split_ifs at h with hin hbounded
  rw [← Expiration.bounded.inj h]
  refine (foldl_longest_mem _ 0).imp_right ?_
  rintro ⟨x, hx, heq⟩
  obtain ⟨j, hj, rfl⟩ := List.mem_map.1 hx
  exact ⟨j, (List.mem_filter.1 hj).1, heq⟩

/-- A fact that is kept for ever has a cell without a bound in its row. -/
theorem hi_eq_of_unbounded (hi : i ∈ d.offsets) (h : d.expiration i = .unbounded) :
    ∃ j ∈ d.offsets, (d.get i j).hi = Interval.noUpper := by
  simp only [expiration, List.contains_iff_mem.2 hi, if_true] at h
  split_ifs at h with hbounded
  simp only [List.all_eq_true, List.mem_map, List.mem_filter, not_forall] at hbounded
  obtain ⟨_, ⟨j, ⟨hj, -⟩, rfl⟩, hnone⟩ := hbounded
  exact ⟨j, hj, by simpa [Interval.hasUpperBound] using hnone⟩

end Distances

/-- How long after the event at `i` an event may happen. -/
def Pattern.delays (ps : List Pattern) (i : Offset) : Set Int :=
  {n | ∃ t j, Pattern.Pass ps t ∧ Pattern.Occupy ps j ∧ t j - t i = n}

namespace Distances

variable {d : Distances} {ps : List Pattern} {i j : Offset} {n : Int}

/-- The distances `d` come out for the patterns `ps`, and there are times behind
    each of them. -/
structure Realised (ps : List Pattern) (d : Distances) : Prop where
  moderate : Pattern.Moderate ps
  ok : ofPatterns ps = .ok d
  mem_offsets : ∀ i, i ∈ d.offsets ↔ Pattern.Occupy ps i
  self : ∀ i, (d.get i i).Admits 0
  times : ∀ i j n, (d.get i j).Admits n → ∃ t, Pattern.Pass ps t ∧ t j - t i = n

section Ends

variable (htargets : ∀ own r target, Pattern.Relate ps own r target → Pattern.Occupy ps target)
  (hreach : Pattern.reach ps < 2 ^ 61)

include htargets hreach

theorem realised_of_ok (hd : ofPatterns ps = .ok d) : Realised ps d := by
  have hends := ofPatterns_holds htargets hreach
  rw [hd] at hends
  obtain ⟨W, hW⟩ := hends
  refine ⟨Pattern.moderate_of_reach hreach, hd, fun i => ?_, fun i => ?_,
    fun i j n => hW.exists_pass hreach hd⟩
  · rw [hW.offsets]
    exact mem_offsets_initial
  · rw [hW.cells, hW.closing.self]
    exact Interval.admits_zero

/-- Where no distances come out, the times are contradictory, and are said to
    be. -/
theorem contradiction_of_error {f : Fault} (hf : ofPatterns ps = .error f) :
    IsContradiction f ∧ ¬∃ t, Pattern.Pass ps t := by
  have hends := ofPatterns_holds htargets hreach
  rw [hf] at hends
  refine ⟨hends, fun hpass => ?_⟩
  obtain ⟨t, ht⟩ := hpass
  obtain ⟨i, j, rfl⟩ := hends
  exact ofPatterns_ne_contradiction (Pattern.moderate_of_reach hreach) ht i j hf

end Ends

namespace Realised

variable (h : Realised ps d)

include h

theorem exists_pass : ∃ t, Pattern.Pass ps t := by
  obtain ⟨t, ht, -⟩ := h.times 0 0 0 (h.self 0)
  exact ⟨t, ht⟩

/-- A cell admits exactly the distances of times that pass all tests. -/
theorem admits_iff : (d.get i j).Admits n ↔ ∃ t, Pattern.Pass ps t ∧ t j - t i = n := by
  refine ⟨h.times i j n, ?_⟩
  rintro ⟨t, ht, rfl⟩
  exact admits_of_pass h.moderate ht h.ok

variable (hi : Pattern.Occupy ps i)

include hi

/-- Where a fact is dropped at some time, an event may follow until then. -/
theorem isGreatest_of_expiration (hn : d.expiration i = .bounded n) :
    IsGreatest (Pattern.delays ps i) n := by
  constructor
  · rcases hi_eq_of_expiration hn with rfl | ⟨j, hj, rfl⟩
    · obtain ⟨t, ht, hdelay⟩ := h.times i i 0 (h.self i)
      exact ⟨t, i, ht, hi, hdelay⟩
    · have hne := (ofPatterns_within h.moderate h.ok).1 i j
      rw [Interval.isEmpty, decide_eq_false_iff_not, Int.not_lt] at hne
      obtain ⟨t, ht, hdelay⟩ := h.times i j _ ⟨.inr hne, .inr (Int.le_refl _)⟩
      exact ⟨t, j, ht, (h.mem_offsets j).1 hj, hdelay⟩
  · rintro _ ⟨t, j, ht, hj, rfl⟩
    exact le_expiration_of_pass h.moderate ht h.ok hj hn

/-- Where a fact is kept for ever, any delay is exceeded. -/
theorem not_isGreatest_of_unbounded (hnone : d.expiration i = .unbounded) :
    ¬IsGreatest (Pattern.delays ps i) n := by
  intro hgreatest
  obtain ⟨j, hj, hupper⟩ := hi_eq_of_unbounded ((h.mem_offsets i).2 hi) hnone
  have hadmits : (d.get i j).Admits (max (d.get i j).lo (n + 1)) :=
    ⟨.inr (Int.le_max_left _ _), .inl hupper⟩
  obtain ⟨t, ht, hdelay⟩ := h.times i j _ hadmits
  have hle := hgreatest.2 ⟨t, j, ht, (h.mem_offsets j).1 hj, hdelay⟩
  omega

theorem expiration_eq_bounded_iff :
    d.expiration i = .bounded n ↔ IsGreatest (Pattern.delays ps i) n := by
  refine ⟨h.isGreatest_of_expiration hi, fun hgreatest => ?_⟩
  cases he : d.expiration i with
  | bounded m => rw [(h.isGreatest_of_expiration hi he).unique hgreatest]
  | unbounded => exact absurd hgreatest (h.not_isGreatest_of_unbounded hi he)

theorem expiration_eq_unbounded_iff :
    d.expiration i = .unbounded ↔ ¬∃ n, IsGreatest (Pattern.delays ps i) n := by
  refine ⟨fun hnone hgreatest => ?_, fun hnone => ?_⟩
  · obtain ⟨n, hn⟩ := hgreatest
    exact h.not_isGreatest_of_unbounded hi hnone hn
  · cases he : d.expiration i with
    | bounded m => exact absurd ⟨m, h.isGreatest_of_expiration hi he⟩ hnone
    | unbounded => rfl

end Realised

/-- **The distances are exact.**  Let every test lead to the offset of a pattern
    in the rule, and let the amounts of all bounds together, upper bounds that
    are missing left out, be less than `2 ^ 61`.  Then the patterns have
    distances if and only if some times pass all tests, and else these times
    are called contradictory.  A cell admits exactly the distances of times that
    pass all tests; the fact of an event is kept for the longest time after
    which another event may follow, and for ever if there is none. -/
theorem ofPatterns_exact
    (htargets : ∀ own r target, Pattern.Relate ps own r target → Pattern.Occupy ps target)
    (hreach : Pattern.reach ps < 2 ^ 61) :
    ((∃ d, ofPatterns ps = .ok d) ↔ ∃ t, Pattern.Pass ps t) ∧
      ((¬∃ t, Pattern.Pass ps t) → ∃ i j, ofPatterns ps = .error (.unsatisfiableTimes i j)) ∧
      ∀ d, ofPatterns ps = .ok d → ∀ i, Pattern.Occupy ps i →
        (∀ j, Pattern.Occupy ps j → ∀ n,
          (d.get i j).Admits n ↔ ∃ t, Pattern.Pass ps t ∧ t j - t i = n) ∧
        (∀ n, d.expiration i = .bounded n ↔ IsGreatest (Pattern.delays ps i) n) ∧
        (d.expiration i = .unbounded ↔ ¬∃ n, IsGreatest (Pattern.delays ps i) n) := by
  refine ⟨?_, fun hnone => ?_, fun d hd i hi => ?_⟩
  · constructor
    · rintro ⟨d, hd⟩
      exact (realised_of_ok htargets hreach hd).exists_pass
    · intro hpass
      cases hd : ofPatterns ps with
      | ok d => exact ⟨d, rfl⟩
      | error f => exact absurd hpass (contradiction_of_error htargets hreach hd).2
  · cases hd : ofPatterns ps with
    | ok d => exact absurd (realised_of_ok htargets hreach hd).exists_pass hnone
    | error f =>
      obtain ⟨⟨i, j, rfl⟩, -⟩ := contradiction_of_error htargets hreach hd
      exact ⟨i, j, rfl⟩
  · have h := realised_of_ok htargets hreach hd
    exact ⟨fun _ _ _ => h.admits_iff, fun n => h.expiration_eq_bounded_iff hi,
      h.expiration_eq_unbounded_iff hi⟩

/-- Three events, each in a window after the one before. -/
def chained : List Pattern :=
  [{ offset := 0, type := 1, event := true },
    { offset := 1, type := 1, event := true, timeTests := [⟨.after 5 10, 0⟩] },
    { offset := 2, type := 1, event := true, timeTests := [⟨.after 3 7, 1⟩] }]

theorem ofPatterns_exact_chained :
    (∀ own r target, Pattern.Relate chained own r target → Pattern.Occupy chained target) ∧
      Pattern.reach chained < 2 ^ 61 ∧
      (∀ n : Int, 8 ≤ n ∧ n ≤ 17 ↔ ∃ t, Pattern.Pass chained t ∧ t 2 - t 0 = n) ∧
      IsGreatest (Pattern.delays chained 0) 17 := by
  have htargets : ∀ own r target, Pattern.Relate chained own r target →
      Pattern.Occupy chained target := by
    rintro own r target ⟨p, hp, -, -, htest⟩
    simp only [chained, List.mem_cons, List.not_mem_nil, or_false] at hp
    rcases hp with rfl | rfl | rfl <;>
      simp [Pattern.joinTests, TimeTest.toJoinTest] at htest <;>
      simp [Pattern.Occupy, chained, htest, Pattern.isSynthetic, Offset.synthetic]
  have hreach : Pattern.reach chained < 2 ^ 61 := by decide
  have hvalues : (ofPatterns chained).toOption.map (fun d => (d.get 0 2, d.expiration 0)) =
      some (⟨8, 17⟩, .bounded 17) := by decide +kernel
  cases h : ofPatterns chained with
  | error f => simp [h, Except.toOption] at hvalues
  | ok d =>
    simp only [h, Except.toOption, Option.map_some, Option.some.injEq, Prod.mk.injEq] at hvalues
    have hfirst : Pattern.Occupy chained 0 := ⟨_, List.mem_cons_self, rfl, rfl⟩
    have hlast : Pattern.Occupy chained 2 := by
      simp [Pattern.Occupy, chained, Pattern.isSynthetic, Offset.synthetic]
    obtain ⟨hcells, hkeeping, -⟩ := (ofPatterns_exact htargets hreach).2.2 d h 0 hfirst
    refine ⟨htargets, hreach, fun n => ?_, (hkeeping 17).1 hvalues.2⟩
    rw [← hcells 2 hlast n, hvalues.1]
    simp [Interval.Admits, Interval.noLower, Interval.noUpper]

end Distances

end RuleNet
