/-
  RuleNet — narrowing only narrows.

  While tests are imposed, the cells of two events stay opposite to each other,
  so that writing a cell and its opposite narrows both.  What a test has once
  narrowed a cell to, the cell never leaves again, and no cell ever becomes
  empty: the cells that come out satisfy every test (`Distances.ofPatterns_within`).
-/
import RuleNet.Proofs.Distances
import RuleNet.Proofs.Drawing

namespace RuleNet

/-! ## Intervals -/

namespace Interval

variable {i j k : Interval} {d : Int}

/-- An interval lies between the ends of another one. -/
structure Within (i j : Interval) : Prop where
  lo : j.lo ≤ i.lo
  hi : i.hi ≤ j.hi

theorem Within.refl (i : Interval) : i.Within i := ⟨Int.le_refl _, Int.le_refl _⟩

theorem Within.trans (hij : i.Within j) (hjk : j.Within k) : i.Within k :=
  ⟨Int.le_trans hjk.lo hij.lo, Int.le_trans hij.hi hjk.hi⟩

theorem intersect_within_left : (i.intersect j).Within i :=
  ⟨Int.le_max_left _ _, Int.min_le_left _ _⟩

theorem intersect_within_right : (i.intersect j).Within j :=
  ⟨Int.le_max_right _ _, Int.min_le_right _ _⟩

theorem Within.negate (hi : i.Reversible) (hj : j.Reversible) (h : i.Within j) :
    i.negate.Within j.negate := by
  obtain ⟨hlo, hhi⟩ := hi
  obtain ⟨hlo', hhi'⟩ := hj
  obtain ⟨hlower, hupper⟩ := h
  have hflip := flip_cases i.lo
  have hflip' := flip_cases i.hi
  have hflip'' := flip_cases j.lo
  have hflip''' := flip_cases j.hi
  simp only [noLower, noUpper] at *
  constructor <;> simp only [Interval.negate] <;> omega

theorem Reversible.negate_negate (h : i.Reversible) : i.negate.negate = i := by
  obtain ⟨hlo, hhi⟩ := h
  have hflip := flip_cases i.lo
  have hflip' := flip_cases (flip i.lo)
  have hflip'' := flip_cases i.hi
  have hflip''' := flip_cases (flip i.hi)
  simp only [noLower, noUpper] at *
  cases i
  simp only [Interval.negate, mk.injEq] at *
  constructor <;> omega

theorem Within.eq_zero (h : i.Within zero) (hne : i.isEmpty = false) : i = zero := by
  obtain ⟨hlo, hhi⟩ := h
  rw [isEmpty, decide_eq_false_iff_not] at hne
  cases i
  simp only [zero, mk.injEq] at *
  omega

theorem isEmpty_negate (hi : i.Reversible) (h : i.isEmpty = false) : i.negate.isEmpty = false := by
  obtain ⟨hlo, hhi⟩ := hi
  have hflip := flip_cases i.lo
  have hflip' := flip_cases i.hi
  rw [isEmpty, decide_eq_false_iff_not] at *
  simp only [Interval.negate, noLower, noUpper] at *
  omega

/-- An interval that is not empty admits its lower end. -/
theorem Within.admits_lo (h : i.Within j) (hne : i.isEmpty = false) : j.Admits i.lo := by
  rw [isEmpty, decide_eq_false_iff_not, Int.not_lt] at hne
  exact ⟨.inr h.lo, .inr (Int.le_trans hne h.hi)⟩

end Interval

/-! ## Loops -/

namespace Except

variable {ε β σ : Type}

/-- In a loop whose steps keep `I` and go from one state to another as `R` says,
    each element has its step, and `R` leads from there to the end. -/
theorem foldlM_steps {I : σ → Prop} {R : σ → σ → Prop} {f : σ → β → Except ε σ} {xs : List β}
    {s s' : σ} (hrefl : ∀ s, R s s) (htrans : ∀ a b c, R a b → R b c → R a c)
    (hf : ∀ x ∈ xs, ∀ a b, I a → f a x = .ok b → I b ∧ R a b)
    (h : xs.foldlM f s = .ok s') (hs : I s) :
    I s' ∧ R s s' ∧ ∀ x ∈ xs, ∃ a b, I a ∧ f a x = .ok b ∧ R b s' := by
  induction xs generalizing s with
  | nil =>
    cases h
    exact ⟨hs, hrefl _, by simp⟩
  | cons x xs ih =>
    rw [List.foldlM_cons] at h
    obtain ⟨a, hstep, h⟩ := bind_inv h
    obtain ⟨ha, hsa⟩ := hf x List.mem_cons_self s a hs hstep
    obtain ⟨hs', has', hrest⟩ := ih (fun y hy => hf y (List.mem_cons_of_mem x hy)) h ha
    refine ⟨hs', htrans s a s' hsa has', ?_⟩
    rw [List.forall_mem_cons]
    exact ⟨⟨s, a, hs, hstep, has'⟩, hrest⟩

end Except

namespace Distances

variable {d d' d'' : Distances} {i j k : Offset} {interval : Interval}

/-! ## Cells -/

/-- All cells lie within what they were. -/
def Narrows (d d' : Distances) : Prop := ∀ i j, (d'.get i j).Within (d.get i j)

theorem Narrows.refl (d : Distances) : d.Narrows d := fun _ _ => .refl _

theorem Narrows.trans (h : d.Narrows d') (h' : d'.Narrows d'') : d.Narrows d'' :=
  fun i j => (h' i j).trans (h i j)

/-- No cell is empty. -/
def Possible (d : Distances) : Prop := ∀ i j, (d.get i j).isEmpty = false

/-- Cells of the same two events are opposite to each other, and an event has no
    distance from itself. -/
structure Opposed (d : Distances) : Prop where
  reversible : ∀ i j, (d.get i j).Reversible
  possible : d.Possible
  back : ∀ i j, d.get j i = (d.get i j).negate
  self : ∀ i, d.get i i = .zero

theorem opposed_initial {ps : List Pattern} : (initial ps).Opposed where
  reversible := permits_initial (t := fun _ => 0).ends
  possible i j := by
    rw [get_initial]
    split_ifs <;> rfl
  back i j := by
    simp only [get_initial, eq_comm (a := j)]
    split_ifs <;> rfl
  self i := by rw [get_initial, if_pos rfl]

/-! ## Narrowing -/

/-- The distances with one cell replaced, and its opposite. -/
def mirror (d : Distances) (i j : Offset) (interval : Interval) : Distances :=
  (d.set i j interval).set j i interval.negate

theorem get_mirror {k l : Offset} :
    (d.mirror i j interval).get k l =
      if j = k ∧ i = l then interval.negate
      else if i = k ∧ j = l then interval else d.get k l := by
  rw [mirror, get_set, get_set]

section Mirror

variable (hd : d.Opposed) (hrev : interval.Reversible) (hne : interval.isEmpty = false)
  (hwithin : interval.Within (d.get i j))

include hd hne hwithin in
/-- An event is given no other distance from itself. -/
theorem Opposed.eq_zero (hij : i = j) : interval = .zero := by
  subst hij
  exact (hd.self i ▸ hwithin).eq_zero hne

include hd hne hwithin in
theorem Opposed.get_mirror_self : (d.mirror i j interval).get i j = interval := by
  rw [get_mirror]
  split_ifs with hback hthere
  · rw [hd.eq_zero hne hwithin hback.2]
    rfl
  · rfl
  · exact absurd ⟨rfl, rfl⟩ hthere

include hd hrev hwithin in
theorem Opposed.narrows_mirror : d.Narrows (d.mirror i j interval) := by
  intro k l
  rw [get_mirror]
  split_ifs with hback hthere
  · rw [← hback.1, ← hback.2, hd.back i j]
    exact hwithin.negate hrev (hd.reversible i j)
  · rw [← hthere.1, ← hthere.2]
    exact hwithin
  · exact .refl _

include hd hrev hne hwithin in
theorem Opposed.mirror : (d.mirror i j interval).Opposed where
  reversible k l := by
    rw [get_mirror]
    split_ifs
    · exact hrev.negate
    · exact hrev
    · exact hd.reversible k l
  possible k l := by
    rw [get_mirror]
    split_ifs
    · exact Interval.isEmpty_negate hrev hne
    · exact hne
    · exact hd.possible k l
  back k l := by
    -- The address is that of the opposite cell, that of the cell, or neither.
    by_cases hback : j = k ∧ i = l
    · obtain ⟨rfl, rfl⟩ := hback
      rw [hd.get_mirror_self hne hwithin, get_mirror, if_pos ⟨rfl, rfl⟩, hrev.negate_negate]
    by_cases hthere : i = k ∧ j = l
    · obtain ⟨rfl, rfl⟩ := hthere
      rw [hd.get_mirror_self hne hwithin, get_mirror, if_pos ⟨rfl, rfl⟩]
    · rw [get_mirror, get_mirror, if_neg (fun h => hthere h.symm), if_neg (fun h => hback h.symm),
        if_neg hback, if_neg hthere]
      exact hd.back k l
  self k := by
    rw [get_mirror]
    split_ifs with hback hthere
    · rw [hd.eq_zero hne hwithin (hback.2.trans hback.1.symm)]
      rfl
    · exact hd.eq_zero hne hwithin (hthere.1.trans hthere.2.symm)
    · exact hd.self k

end Mirror

theorem constrain_inv (h : d.constrain i j interval = .ok d') :
    ((d.get i j).intersect interval).isEmpty = false ∧
      d' = d.mirror i j ((d.get i j).intersect interval) := by
  simp only [constrain] at h
  split_ifs at h with hempty
  exact ⟨Bool.eq_false_iff.2 hempty, (Except.ok.inj h).symm⟩

/-- A narrowed cell lies within the interval that it was narrowed to. -/
theorem Opposed.constrain (hd : d.Opposed) (hrev : interval.Reversible)
    (h : d.constrain i j interval = .ok d') :
    d'.Opposed ∧ d.Narrows d' ∧ (d'.get i j).Within interval := by
  obtain ⟨hne, rfl⟩ := constrain_inv h
  have hrev' := (hd.reversible i j).intersect hrev
  have hleft : ((d.get i j).intersect interval).Within (d.get i j) :=
    Interval.intersect_within_left
  have hright : ((d.get i j).intersect interval).Within interval :=
    Interval.intersect_within_right
  refine ⟨hd.mirror hrev' hne hleft, hd.narrows_mirror hrev' hleft, ?_⟩
  rw [hd.get_mirror_self hne hleft]
  exact hright

/-- A test that is imposed holds in the cell of its two events. -/
theorem Opposed.impose {own : Offset} {test : JoinTest} (hd : d.Opposed)
    (htest : ∀ r target, test = .temporal r target → r.Moderate)
    (h : d.impose own test = .ok d') :
    d'.Opposed ∧ d.Narrows d' ∧
      ∀ r target, test = .temporal r target → (d'.get target own).Within (.of r) := by
  unfold Distances.impose at h
  split at h
  · rename_i r target
    split_ifs at h with hin
    obtain ⟨hd', hnarrows, hwithin⟩ := hd.constrain (htest r target rfl).reversible_of h
    refine ⟨hd', hnarrows, fun r' target' heq => ?_⟩
    cases heq
    exact hwithin
  · rename_i hother
    cases h
    exact ⟨hd, .refl d, fun r target heq => absurd heq (hother r target)⟩

/-- The tests of one pattern are imposed one after the other. -/
theorem Opposed.imposeAll {own : Offset} {tests : List JoinTest} (hd : d.Opposed)
    (htests : ∀ r target, .temporal r target ∈ tests → r.Moderate)
    (h : tests.foldlM (fun d test => d.impose own test) d = .ok d') :
    d'.Opposed ∧ d.Narrows d' ∧
      ∀ r target, .temporal r target ∈ tests → (d'.get target own).Within (.of r) := by
  have hmoderate : ∀ test ∈ tests, ∀ r target, test = .temporal r target → r.Moderate := by
    rintro _ htest r target rfl
    exact htests r target htest
  obtain ⟨hd', hnarrows, hsteps⟩ := Except.foldlM_steps Narrows.refl (fun _ _ _ => .trans)
    (fun test htest a b ha hb =>
      ⟨(ha.impose (hmoderate test htest) hb).1, (ha.impose (hmoderate test htest) hb).2.1⟩) h hd
  refine ⟨hd', hnarrows, fun r target htest => ?_⟩
  obtain ⟨a, b, ha, hb, hbd'⟩ := hsteps _ htest
  exact (hbd' _ _).trans ((ha.impose (hmoderate _ htest) hb).2.2 r target rfl)

/-! ## Closing -/

theorem relax_narrows (hd : d.Possible) (h : d.relax k i j = .ok d') :
    d'.Possible ∧ d.Narrows d' := by
  simp only [relax] at h
  split_ifs at h with hempty
  cases h
  constructor
  · intro a b
    rw [get_set]
    split_ifs with heq
    · exact Bool.eq_false_iff.2 hempty
    · exact hd a b
  · intro a b
    rw [get_set]
    split_ifs with heq
    · obtain ⟨rfl, rfl⟩ := heq
      exact Interval.intersect_within_left
    · exact .refl _

theorem close_narrows (hd : d.Possible) (h : d.close = .ok d') : d'.Possible ∧ d.Narrows d' := by
  have hloop : ∀ {f : Distances → Offset → Except Fault Distances} {os : List Offset}
      {a b : Distances}, (∀ x ∈ os, ∀ a b, a.Possible → f a x = .ok b → b.Possible ∧ a.Narrows b) →
      a.Possible → os.foldlM f a = .ok b → b.Possible ∧ a.Narrows b := by
    intro f os a b hf ha h
    obtain ⟨hb, hab, -⟩ := Except.foldlM_steps Narrows.refl (fun _ _ _ => .trans) hf h ha
    exact ⟨hb, hab⟩
  refine hloop (fun k _ a b ha h => ?_) hd h
  refine hloop (fun i _ a b ha h => ?_) ha h
  exact hloop (fun j _ a b ha h => relax_narrows ha h) ha h

/-! ## All patterns -/

/-- **Tests hold in the cells that come out.**  None of the cells is empty, and
    the one of a test's two events lies within the distances that it allows. -/
theorem ofPatterns_within {ps : List Pattern} (hmoderate : Pattern.Moderate ps)
    (h : ofPatterns ps = .ok d) :
    d.Possible ∧ ∀ own r target, Pattern.Relate ps own r target →
      (d.get target own).Within (.of r) := by
  obtain ⟨narrowed, hnarrowed, hclose⟩ := Except.bind_inv h
  have htests : ∀ p ∈ ps.filter (fun p => !p.isSynthetic), ∀ r target,
      .temporal r target ∈ p.joinTests → r.Moderate := by
    intro p hp r target htest
    obtain ⟨hp, hreal⟩ := List.mem_filter.1 hp
    exact hmoderate _ _ _ ⟨p, hp, by simpa using hreal, rfl, htest⟩
  obtain ⟨hopposed, -, hsteps⟩ := Except.foldlM_steps Narrows.refl (fun _ _ _ => .trans)
    (fun p hp a b ha hb => ⟨(ha.imposeAll (htests p hp) hb).1, (ha.imposeAll (htests p hp) hb).2.1⟩)
    hnarrowed opposed_initial
  obtain ⟨hpossible, hcloses⟩ := close_narrows hopposed.possible hclose
  refine ⟨hpossible, ?_⟩
  rintro own r target ⟨p, hp, hreal, rfl, htest⟩
  have hp : p ∈ ps.filter fun p => !p.isSynthetic := List.mem_filter.2 ⟨hp, by simp [hreal]⟩
  obtain ⟨a, b, ha, hb, hbn⟩ := hsteps p hp
  have himposed := (ha.imposeAll (htests p hp) hb).2.2 r target htest
  exact (hcloses _ _).trans ((hbn _ _).trans himposed)

end Distances

end RuleNet
