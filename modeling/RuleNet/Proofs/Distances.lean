/-
  RuleNet — the distances worked out for patterns hold in every match.

  An assignment gives each offset the time of its event, any whole number.  The
  distances permit it if each cell admits the difference of the two times that
  the cell is about.  Narrowing by a test that the assignment passes and closing
  under sums lead from distances that permit it to such, also where sums stop at
  the ends of the range.

  Main result: patterns whose tests some assignment passes are never called
  contradictory, and the distances and the times of keeping that come out hold
  of every such assignment (`Distances.ofPatterns_sound`).
-/
import RuleNet.Time.Distances
import Mathlib.Algebra.Ring.Int.Defs
import Mathlib.Tactic.SplitIfs

namespace RuleNet

/-! ## Intervals -/

namespace Interval

variable {i j : Interval} {d e : Int}

/-- A distance lies in an interval.  An end that stands for no bound bounds
    nothing. -/
def Admits (i : Interval) (d : Int) : Prop :=
  (i.lo = noLower ∨ i.lo ≤ d) ∧ (i.hi = noUpper ∨ d ≤ i.hi)

/-- Both ends are distances of 64 bits. -/
structure InRange (i : Interval) : Prop where
  lo : noLower ≤ i.lo ∧ i.lo ≤ noUpper
  hi : noLower ≤ i.hi ∧ i.hi ≤ noUpper

/-- Each end is the sign for no bound, or is a bound that does not become that
    sign when it is seen from the other side. -/
structure Reversible (i : Interval) : Prop where
  lo : i.lo = noLower ∨ (-noUpper < i.lo ∧ i.lo < noUpper)
  hi : i.hi = noUpper ∨ (-noUpper < i.hi ∧ i.hi < noUpper)

theorem Reversible.inRange (hi : i.Reversible) : i.InRange := by
  obtain ⟨hlo, hhi⟩ := hi
  simp only [noLower, noUpper] at hlo hhi
  constructor <;> simp only [noLower, noUpper] <;> omega

theorem reversible_unbounded : Reversible unbounded := ⟨.inl rfl, .inl rfl⟩

theorem reversible_zero : Reversible zero := ⟨.inr (by decide), .inr (by decide)⟩

theorem admits_unbounded : unbounded.Admits d := ⟨.inl rfl, .inl rfl⟩

theorem admits_zero : zero.Admits 0 := ⟨.inr (Int.le_refl 0), .inr (Int.le_refl 0)⟩

/-- An interval that admits a distance is not empty. -/
theorem isEmpty_of_admits (hi : i.InRange) (h : i.Admits d) : i.isEmpty = false := by
  obtain ⟨hlo, hhi⟩ := hi
  obtain ⟨hlower, hupper⟩ := h
  rw [isEmpty, decide_eq_false_iff_not]
  omega

theorem InRange.intersect (hi : i.InRange) (hj : j.InRange) : (i.intersect j).InRange := by
  obtain ⟨hlo, hhi⟩ := hi
  obtain ⟨hlo', hhi'⟩ := hj
  constructor <;> simp only [Interval.intersect] <;> omega

theorem Reversible.intersect (hi : i.Reversible) (hj : j.Reversible) :
    (i.intersect j).Reversible := by
  obtain ⟨hlo, hhi⟩ := hi
  obtain ⟨hlo', hhi'⟩ := hj
  simp only [noLower, noUpper] at *
  constructor <;> simp only [Interval.intersect, noLower, noUpper] <;> omega

theorem admits_intersect (hi : i.InRange) (hj : j.InRange) :
    (i.intersect j).Admits d ↔ i.Admits d ∧ j.Admits d := by
  obtain ⟨hlo, hhi⟩ := hi
  obtain ⟨hlo', hhi'⟩ := hj
  simp only [Admits, Interval.intersect]
  omega

theorem inRange_add : (i.add j).InRange := by
  constructor <;> simp only [Interval.add, clamp, noLower, noUpper] <;> split_ifs <;> omega

/-- Sums that stop at an end of the range still bound what they bounded. -/
theorem Admits.add (hi : i.Admits d) (hj : j.Admits e) : (i.add j).Admits (d + e) := by
  obtain ⟨hlo, hhi⟩ := hi
  obtain ⟨hlo', hhi'⟩ := hj
  simp only [Admits, Interval.add, clamp, noLower, noUpper] at *
  constructor
  · split_ifs <;> omega
  · split_ifs <;> omega

/-- What a bound becomes on the other side. -/
theorem flip_cases (n : Int) : (n = noUpper ∧ flip n = noLower) ∨ (n = noLower ∧ flip n = noUpper) ∨
    (n ≠ noUpper ∧ n ≠ noLower ∧ flip n = -n) := by
  unfold flip
  split_ifs with hupper hlower
  · exact .inl ⟨hupper, rfl⟩
  · exact .inr (.inl ⟨hlower, rfl⟩)
  · exact .inr (.inr ⟨hupper, hlower, rfl⟩)

/-- Distances with opposite signs. -/
theorem opposite_eq (h : n ≠ noLower) : opposite n = -n := if_neg h

theorem Reversible.negate (hi : i.Reversible) : i.negate.Reversible := by
  obtain ⟨hlo, hhi⟩ := hi
  have hflip := flip_cases i.lo
  have hflip' := flip_cases i.hi
  simp only [noLower, noUpper] at *
  constructor <;> simp only [Interval.negate, noLower, noUpper] <;> omega

theorem Reversible.admits_negate (hi : i.Reversible) (h : i.Admits d) : i.negate.Admits (-d) := by
  obtain ⟨hlo, hhi⟩ := hi
  have hflip := flip_cases i.lo
  have hflip' := flip_cases i.hi
  simp only [Admits, Interval.negate, noLower, noUpper] at *
  omega

end Interval

/-! ## Relations in time -/

namespace TimeRelation

/-- An event that happens `d` after another one stands in the relation to it. -/
def Allows : TimeRelation → Int → Prop
  | after least most, d => least ≤ d ∧ (most = Interval.noUpper ∨ d ≤ most)
  | before least most, d => least ≤ -d ∧ (most = Interval.noUpper ∨ -d ≤ most)
  | coincides tolerance, d => -tolerance ≤ d ∧ d ≤ tolerance

/-- All bounds are within `2 ^ 62`, except that an upper one may be missing. -/
def Moderate : TimeRelation → Prop
  | after least most | before least most =>
    (-2 ^ 62 ≤ least ∧ least ≤ 2 ^ 62) ∧
      (most = Interval.noUpper ∨ (-2 ^ 62 ≤ most ∧ most ≤ 2 ^ 62))
  | coincides tolerance => -2 ^ 62 ≤ tolerance ∧ tolerance ≤ 2 ^ 62

instance : (r : TimeRelation) → (d : Int) → Decidable (r.Allows d)
  | after least most, d => inferInstanceAs (Decidable (least ≤ d ∧ (most = _ ∨ d ≤ most)))
  | before least most, d => inferInstanceAs (Decidable (least ≤ -d ∧ (most = _ ∨ -d ≤ most)))
  | coincides tolerance, d => inferInstanceAs (Decidable (-tolerance ≤ d ∧ d ≤ tolerance))

instance : (r : TimeRelation) → Decidable r.Moderate
  | after least most | before least most =>
    inferInstanceAs (Decidable ((-2 ^ 62 ≤ least ∧ least ≤ 2 ^ 62) ∧
      (most = _ ∨ (-2 ^ 62 ≤ most ∧ most ≤ 2 ^ 62))))
  | coincides tolerance =>
    inferInstanceAs (Decidable (-2 ^ 62 ≤ tolerance ∧ tolerance ≤ 2 ^ 62))

variable {r : TimeRelation} {d : Int}

theorem Moderate.reversible_of (h : r.Moderate) : (Interval.of r).Reversible := by
  cases r with
  | after least most =>
    simp only [Moderate, Interval.noUpper] at h
    constructor <;> simp only [Interval.of, Interval.noLower, Interval.noUpper] <;> omega
  | before least most =>
    simp only [Moderate, Interval.noUpper] at h
    refine Interval.Reversible.negate ?_
    constructor <;> simp only [Interval.noLower, Interval.noUpper] <;> omega
  | coincides tolerance =>
    simp only [Moderate] at h
    have hopposite : Interval.opposite tolerance = -tolerance :=
      Interval.opposite_eq (by rw [Interval.noLower]; omega)
    constructor <;> simp only [Interval.of, hopposite, Interval.noLower, Interval.noUpper] <;> omega

theorem Moderate.admits_of (h : r.Moderate) : (Interval.of r).Admits d ↔ r.Allows d := by
  cases r with
  | after least most =>
    simp only [Moderate, Interval.noUpper] at h
    simp only [Interval.of, Interval.Admits, Allows, Interval.noLower, Interval.noUpper]
    omega
  | before least most =>
    have hflip := Interval.flip_cases least
    have hflip' := Interval.flip_cases most
    simp only [Moderate, Interval.of, Interval.negate, Interval.Admits, Allows, Interval.noLower,
      Interval.noUpper] at *
    omega
  | coincides tolerance =>
    simp only [Moderate] at h
    have hopposite : Interval.opposite tolerance = -tolerance :=
      Interval.opposite_eq (by rw [Interval.noLower]; omega)
    simp only [Interval.of, hopposite, Interval.Admits, Allows, Interval.noLower, Interval.noUpper]
    omega

end TimeRelation

/-! ## Ways to end -/

namespace Except

variable {ε α β σ : Type} {E : ε → Prop} {P : α → Prop} {Q : β → Prop}

/-- A computation ends in a value of one kind or in a failure of another. -/
def Ends (E : ε → Prop) (P : α → Prop) : Except ε α → Prop
  | .ok a => P a
  | .error e => E e

theorem Ends.bind {x : Except ε α} {k : α → Except ε β} (hx : Ends E P x)
    (hk : ∀ a, P a → Ends E Q (k a)) : Ends E Q (x >>= k) := by
  cases x with
  | ok a => exact hk a hx
  | error e => exact hx

theorem Ends.mono_error {E' : ε → Prop} {x : Except ε α} (h : Ends E P x) (hE : ∀ e, E e → E' e) :
    Ends E' P x := by
  cases x with
  | ok a => exact h
  | error e => exact hE e h

/-- What each step keeps, a loop keeps. -/
theorem Ends.foldlM {I : σ → Prop} {f : σ → β → Except ε σ} {xs : List β} {s : σ}
    (hf : ∀ x ∈ xs, ∀ s, I s → Ends E I (f s x)) (hs : I s) : Ends E I (xs.foldlM f s) := by
  induction xs generalizing s with
  | nil => exact hs
  | cons x xs ih =>
    rw [List.foldlM_cons]
    exact (hf x List.mem_cons_self s hs).bind fun s' hs' =>
      ih (fun y hy => hf y (List.mem_cons_of_mem x hy)) hs'

end Except

/-! ## Patterns -/

namespace Pattern

variable {ps : List Pattern} {own target : Offset}

/-- A pattern that stands in the rule has the offset. -/
def Occupy (ps : List Pattern) (i : Offset) : Prop :=
  ∃ p ∈ ps, p.isSynthetic = false ∧ p.offset = i

/-- A test of the pattern at `own`, which stands in the rule, relates its event
    to the one of `target`. -/
def Relate (ps : List Pattern) (own : Offset) (r : TimeRelation) (target : Offset) : Prop :=
  ∃ p ∈ ps, p.isSynthetic = false ∧ p.offset = own ∧ .temporal r target ∈ p.joinTests

theorem Relate.occupy {r : TimeRelation} (h : Relate ps own r target) : Occupy ps own := by
  obtain ⟨p, hp, hreal, hoffset, -⟩ := h
  exact ⟨p, hp, hreal, hoffset⟩

/-- All bounds in tests of time are moderate. -/
def Moderate (ps : List Pattern) : Prop := ∀ own r target, Relate ps own r target → r.Moderate

/-- Events at the times `t` pass all tests of time. -/
def Pass (ps : List Pattern) (t : Offset → Int) : Prop :=
  ∀ own r target, Relate ps own r target → Occupy ps target → r.Allows (t own - t target)

end Pattern

/-! ## Cells -/

namespace Distances

variable {d : Distances} {i j k l : Offset} {interval : Interval} {t : Offset → Int}
  {os : List Offset}

theorem get_set :
    (d.set i j interval).get k l = if i = k ∧ j = l then interval else d.get k l := by
  simp only [get, set, Std.ExtTreeMap.getElem?_insert, Std.compare_eq_iff_eq, Span.mk.injEq]
  split_ifs <;> rfl

theorem get_initial {ps : List Pattern} :
    (initial ps).get i j = if i = j then .zero else .unbounded := by
  simp [get, initial]

/-- Each cell admits the distance between the times of its two events, and its
    ends are as `Q` says. -/
structure Permits (Q : Interval → Prop) (os : List Offset) (t : Offset → Int) (d : Distances) :
    Prop where
  offsets : d.offsets = os
  ends : ∀ i j, Q (d.get i j)
  admits : ∀ i j, (d.get i j).Admits (t j - t i)

/-- A fault is not about times that contradict each other. -/
def NoContradiction (f : Fault) : Prop := ∀ i j, f ≠ .unsatisfiableTimes i j

theorem Permits.set {Q : Interval → Prop} (h : d.Permits Q os t) (hends : Q interval)
    (hadmits : interval.Admits (t j - t i)) : (d.set i j interval).Permits Q os t where
  offsets := h.offsets
  ends k l := by
    rw [get_set]
    split_ifs with heq
    · exact hends
    · exact h.ends k l
  admits k l := by
    rw [get_set]
    split_ifs with heq
    · obtain ⟨rfl, rfl⟩ := heq
      exact hadmits
    · exact h.admits k l

/-! ## Narrowing -/

theorem permits_initial {ps : List Pattern} :
    (initial ps).Permits Interval.Reversible (initial ps).offsets t where
  offsets := rfl
  ends i j := by
    rw [get_initial]
    split_ifs
    · exact Interval.reversible_zero
    · exact Interval.reversible_unbounded
  admits i j := by
    rw [get_initial]
    split_ifs with heq
    · rw [heq, Int.sub_self]
      exact Interval.admits_zero
    · exact Interval.admits_unbounded

theorem Permits.constrain (h : d.Permits Interval.Reversible os t) (hrev : interval.Reversible)
    (hadmits : interval.Admits (t j - t i)) :
    Except.Ends NoContradiction (Permits Interval.Reversible os t) (d.constrain i j interval) := by
  have hforward : ((d.get i j).intersect interval).Reversible := (h.ends i j).intersect hrev
  have hadmits' : ((d.get i j).intersect interval).Admits (t j - t i) :=
    (Interval.admits_intersect (h.ends i j).inRange hrev.inRange).2 ⟨h.admits i j, hadmits⟩
  have hback := hforward.admits_negate hadmits'
  rw [Int.neg_sub] at hback
  simp only [Distances.constrain, Interval.isEmpty_of_admits hforward.inRange hadmits',
    Bool.false_eq_true, if_false]
  exact (h.set hforward hadmits').set hforward.negate hback

/-- A test that the times pass keeps the distances permitting them. -/
theorem Permits.impose {own : Offset} {test : JoinTest}
    (h : d.Permits Interval.Reversible os t)
    (htest : ∀ r target, test = .temporal r target →
      r.Moderate ∧ (target ∈ os → r.Allows (t own - t target))) :
    Except.Ends NoContradiction (Permits Interval.Reversible os t) (d.impose own test) := by
  unfold Distances.impose
  split
  · rename_i r target
    obtain ⟨hmoderate, hallows⟩ := htest r target rfl
    split_ifs with hin
    · rw [h.offsets, List.contains_iff_mem] at hin
      exact h.constrain hmoderate.reversible_of (hmoderate.admits_of.2 (hallows hin))
    · exact fun _ _ => nofun
  · exact h

/-! ## Closing -/

theorem Permits.relax (h : d.Permits Interval.InRange os t) :
    Except.Ends NoContradiction (Permits Interval.InRange os t) (d.relax k i j) := by
  have hsum : ((d.get i k).add (d.get k j)).Admits (t j - t i) := by
    have hsplit : t j - t i = (t k - t i) + (t j - t k) := by omega
    rw [hsplit]
    exact (h.admits i k).add (h.admits k j)
  have hnarrowed := (Interval.admits_intersect (h.ends i j) Interval.inRange_add).2
    ⟨h.admits i j, hsum⟩
  have hrange := (h.ends i j).intersect (Interval.inRange_add (i := d.get i k) (j := d.get k j))
  simp only [Distances.relax, Interval.isEmpty_of_admits hrange hnarrowed, Bool.false_eq_true,
    if_false]
  exact h.set hrange hnarrowed

/-- In whichever order cells are combined, the distances permit what they
    permitted. -/
theorem Permits.close (h : d.Permits Interval.InRange os t) :
    Except.Ends NoContradiction (Permits Interval.InRange os t) d.close :=
  .foldlM (fun _ _ _ h => .foldlM (fun _ _ _ h => .foldlM (fun _ _ _ h => h.relax) h) h) h

/-! ## Contradictions -/

/-- A fault is about times that contradict each other. -/
def IsContradiction (f : Fault) : Prop := ∃ i j, f = .unsatisfiableTimes i j

theorem constrain_ends : Except.Ends IsContradiction (fun _ => True) (d.constrain i j interval) := by
  simp only [Distances.constrain]
  split_ifs
  · exact ⟨i, j, rfl⟩
  · trivial

theorem relax_ends : Except.Ends IsContradiction (fun _ => True) (d.relax k i j) := by
  simp only [Distances.relax]
  split_ifs
  · exact ⟨i, j, rfl⟩
  · trivial

theorem close_ends : Except.Ends IsContradiction (fun _ => True) d.close :=
  .foldlM (fun _ _ _ _ => .foldlM (fun _ _ _ _ => .foldlM (fun _ _ _ _ => relax_ends) trivial)
    trivial) trivial

/-! ## All patterns -/

theorem mem_insertOffset : k ∈ insertOffset i os ↔ k = i ∨ k ∈ os := by
  induction os with
  | nil => simp [insertOffset]
  | cons j js ih =>
    rw [insertOffset]
    split_ifs with hlt heq
    · simp
    · simp [heq]
    · simp only [List.mem_cons, ih]
      exact or_left_comm

/-- The cells are those of the offsets that patterns of the rule have. -/
theorem mem_offsets_initial {ps : List Pattern} :
    i ∈ (initial (ps.filter fun p => !p.isSynthetic)).offsets ↔ Pattern.Occupy ps i := by
  have hoffsets : ∀ ps : List Pattern, i ∈ (initial ps).offsets ↔ ∃ p ∈ ps, p.offset = i := by
    intro ps
    change i ∈ ps.foldr (fun p is => insertOffset p.offset is) [] ↔ _
    induction ps with
    | nil => simp
    | cons p ps ih => simp [mem_insertOffset, ih, eq_comm (a := i)]
  simp only [hoffsets, Pattern.Occupy, List.mem_filter, Bool.not_eq_true', and_assoc]

theorem ofPatterns_permits {ps : List Pattern} (hmoderate : Pattern.Moderate ps)
    (ht : Pattern.Pass ps t) :
    Except.Ends NoContradiction
      (Permits Interval.InRange (initial (ps.filter fun p => !p.isSynthetic)).offsets t)
      (ofPatterns ps) := by
  -- Only narrowing sees cells from the other side; closing writes each cell for itself.
  refine Except.Ends.bind (P := Permits Interval.Reversible _ t) ?_ fun d h =>
    Permits.close ⟨h.offsets, fun i j => (h.ends i j).inRange, h.admits⟩
  refine .foldlM (fun p hp d h => .foldlM (fun test htest d h => h.impose ?_) h) permits_initial
  obtain ⟨hp, hreal⟩ := List.mem_filter.1 hp
  rw [Bool.not_eq_true'] at hreal
  intro r target heq
  have hrelate : Pattern.Relate ps p.offset r target := ⟨p, hp, hreal, rfl, heq ▸ htest⟩
  exact ⟨hmoderate _ _ _ hrelate, fun hin => ht _ _ _ hrelate (mem_offsets_initial.1 hin)⟩

/-! ## Keeping facts -/

theorem le_foldl_longest (is : List Interval) (m : Int) :
    m ≤ is.foldl (fun longest x => max longest x.hi) m ∧
      ∀ x ∈ is, x.hi ≤ is.foldl (fun longest x => max longest x.hi) m := by
  induction is generalizing m with
  | nil => simp
  | cons x is ih =>
    obtain ⟨hm, his⟩ := ih (max m x.hi)
    simp only [List.foldl_cons, List.forall_mem_cons]
    exact ⟨Int.le_trans (Int.le_max_left _ _) hm, Int.le_trans (Int.le_max_right _ _) hm, his⟩

/-- The time of keeping reaches the upper ends of all other cells of the row. -/
theorem hi_le_of_expiration {n : Int} (h : d.expiration i = .bounded n) :
    0 ≤ n ∧ ∀ j ∈ d.offsets, j ≠ i → (d.get i j).hi ≠ Interval.noUpper ∧ (d.get i j).hi ≤ n := by
  simp only [expiration] at h
  split_ifs at h with hin hbounded
  obtain ⟨hzero, hothers⟩ := le_foldl_longest ((d.offsets.filter (· ≠ i)).map (d.get i)) 0
  rw [Expiration.bounded.inj h] at hzero hothers
  refine ⟨hzero, fun j hj hne => ?_⟩
  have hmem : d.get i j ∈ (d.offsets.filter (· ≠ i)).map (d.get i) :=
    List.mem_map_of_mem (List.mem_filter.2 ⟨hj, decide_eq_true hne⟩)
  exact ⟨by simpa [Interval.hasUpperBound] using List.all_eq_true.1 hbounded _ hmem,
    hothers _ hmem⟩

/-- No event follows another one for longer than the latter's fact is kept. -/
theorem Permits.le_of_expiration {Q : Interval → Prop} {n : Int} (h : d.Permits Q os t)
    (hj : j ∈ os) (hn : d.expiration i = .bounded n) : t j - t i ≤ n := by
  obtain ⟨hzero, hothers⟩ := hi_le_of_expiration hn
  by_cases hij : j = i
  · rwa [hij, Int.sub_self]
  · obtain ⟨hbounded, hle⟩ := hothers j (h.offsets ▸ hj) hij
    exact Int.le_trans ((h.admits i j).2.resolve_left hbounded) hle

section Sound
variable {ps : List Pattern} (hmoderate : Pattern.Moderate ps) (ht : Pattern.Pass ps t)
include hmoderate ht

/-- Where events pass all tests, no contradiction is reported. -/
theorem ofPatterns_ne_contradiction (i j : Offset) :
    ofPatterns ps ≠ .error (.unsatisfiableTimes i j) := by
  intro h
  have hends := ofPatterns_permits hmoderate ht
  rw [h] at hends
  exact hends i j rfl

variable (h : ofPatterns ps = .ok d)
include h

/-- The cells admit the distances between events that pass all tests. -/
theorem admits_of_pass : (d.get i j).Admits (t j - t i) := by
  have hends := ofPatterns_permits hmoderate ht
  rw [h] at hends
  exact hends.admits i j

/-- Of events that pass all tests, none follows another one for longer than the
    latter's fact is kept. -/
theorem le_expiration_of_pass {n : Int} (hj : Pattern.Occupy ps j)
    (hn : d.expiration i = .bounded n) : t j - t i ≤ n := by
  have hends := ofPatterns_permits hmoderate ht
  rw [h] at hends
  exact hends.le_of_expiration (mem_offsets_initial.2 hj) hn

end Sound

/-- **The distances hold in every match.**  Let the bounds be moderate, and let
    events at the times `t` pass all tests.  Then no contradiction is reported;
    each cell admits the distance between the events that it is about, and no
    event follows another one for longer than the latter's fact is kept. -/
theorem ofPatterns_sound {ps : List Pattern} {t : Offset → Int} (hmoderate : Pattern.Moderate ps)
    (ht : Pattern.Pass ps t) :
    (∀ i j, ofPatterns ps ≠ .error (.unsatisfiableTimes i j)) ∧
      ∀ d, ofPatterns ps = .ok d → ∀ i j, Pattern.Occupy ps i → Pattern.Occupy ps j →
        (d.get i j).Admits (t j - t i) ∧ ∀ n, d.expiration i = .bounded n → t j - t i ≤ n :=
  ⟨ofPatterns_ne_contradiction hmoderate ht, fun _ h _ _ _ hj =>
    ⟨admits_of_pass hmoderate ht h, fun _ => le_expiration_of_pass hmoderate ht h hj⟩⟩

/-- Four events, each as long after the one before as a bound can say: the
    distance from the first to the last one is beyond the range. -/
def farApart : List Pattern :=
  [{ offset := 0, type := 1, event := true }, later 1, later 2, later 3]
where
  later (i : Offset) : Pattern :=
    { offset := i, type := 1, event := true,
      timeTests := [⟨.after (2 ^ 62) Interval.noUpper, i - 1⟩] }

theorem ofPatterns_sound_farApart :
    Pattern.Moderate farApart ∧ Pattern.Pass farApart (fun i => i * 2 ^ 62) ∧
      ∃ d, ofPatterns farApart = .ok d ∧ (d.get 0 3).lo = Interval.noUpper ∧
        (d.get 0 3).Admits (3 * 2 ^ 62) := by
  have hrelated : ∀ own r target, Pattern.Relate farApart own r target →
      r = .after (2 ^ 62) Interval.noUpper ∧ own = target + 1 := by
    rintro own r target ⟨p, hp, -, rfl, htest⟩
    simp only [farApart, farApart.later, List.mem_cons, List.not_mem_nil, or_false] at hp
    rcases hp with rfl | rfl | rfl | rfl <;>
      simp [Pattern.joinTests, TimeTest.toJoinTest] at htest <;> simp [htest]
  have hmoderate : Pattern.Moderate farApart := by
    intro own r target h
    rw [(hrelated own r target h).1]
    decide
  have hpass : Pattern.Pass farApart (fun i => i * 2 ^ 62) := by
    intro own r target h _
    obtain ⟨rfl, rfl⟩ := hrelated own r target h
    refine ⟨?_, .inl rfl⟩
    push_cast
    omega
  have hlo : (ofPatterns farApart).toOption.map (fun d => (d.get 0 3).lo) =
      some Interval.noUpper := by decide +kernel
  cases h : ofPatterns farApart with
  | error f => simp [h, Except.toOption] at hlo
  | ok d =>
    rw [h] at hlo
    have hcell := ((ofPatterns_sound hmoderate hpass).2 d h 0 3
      ⟨_, List.mem_cons_self, rfl, rfl⟩ ⟨farApart.later 3, by simp [farApart], rfl, rfl⟩).1
    exact ⟨hmoderate, hpass, d, rfl, Option.some.inj hlo, by simpa using hcell⟩

end Distances

end RuleNet
