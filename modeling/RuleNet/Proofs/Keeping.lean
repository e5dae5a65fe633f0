/-
  RuleNet — facts are kept for as long as an event of their match may follow.

  Only the patterns outside every negation have events in a match.  The
  distances are worked out for all patterns together, as if the negated ones had
  events as well.  Where a negated pattern is related in time to two others, it
  narrows the distance between these although no event of it ever occurs, and
  facts are dropped too early (`Body.not_keepsLongEnough_hushing`).

  Main result: where each negated pattern is related to one earlier pattern only,
  facts are kept long enough (`Body.keepsLongEnough_of_tethered`).
-/
import RuleNet.Proofs.Narrowing

namespace RuleNet

/-! ## Patterns outside negations -/

namespace Element

mutual

/-- The patterns outside every negation.  A universal statement is a negation. -/
def positives : Element → List Pattern
  | pattern p => [p]
  | group .and members | group .or members | group .exists members => positivesList members
  | group .not _ | every .. => []
  | call q => [q.result]

/-- The patterns of some elements outside every negation. -/
def positivesList : List Element → List Pattern
  | [] => []
  | e :: es => e.positives ++ positivesList es

end

mutual

/-- Patterns of the rule stand in the element, under groups that are no
    disjunctions, and nothing else. -/
def isOrdinary : Element → Bool
  | pattern p => !p.isSynthetic
  | group c members => c != .or && isOrdinaryList members
  | every .. | call _ => false

/-- Each of some elements is ordinary. -/
def isOrdinaryList : List Element → Bool
  | [] => true
  | e :: es => e.isOrdinary && isOrdinaryList es

end

mutual

theorem positives_subset : (e : Element) → e.positives ⊆ e.patterns
  | pattern _ | call _ => List.Subset.refl _
  | group .and members => positivesList_subset members
  | group .or members => positivesList_subset members
  | group .exists members => positivesList_subset members
  | group .not _ | every .. => List.nil_subset _

theorem positivesList_subset : (es : List Element) → positivesList es ⊆ patternsList es
  | [] => List.nil_subset _
  | e :: es => List.append_subset.2
    ⟨List.subset_append_of_subset_left _ (positives_subset e),
      List.subset_append_of_subset_right _ (positivesList_subset es)⟩

end

end Element

/-! ## Patterns related to one other -/

namespace Pattern

variable {ps qs before after : List Pattern} {p q : Pattern} {t t' : Offset → Int}
  {own target : Offset} {r : TimeRelation}

/-- All tests of time that a pattern makes are about one and the same event, that
    of a pattern before it. -/
def Hangs (before : List Pattern) (p : Pattern) : Prop :=
  ∀ r target, .temporal r target ∈ p.joinTests → Occupy before target ∧
    ∀ r' target', .temporal r' target' ∈ p.joinTests → target' = target

/-- Of the patterns `ps`, those in `qs` are related in time to each other only,
    and each other one to a single pattern before it. -/
structure Tethered (qs ps : List Pattern) : Prop where
  positive : ∀ own r target, Relate qs own r target → Occupy qs target
  hangs : ∀ before p after, ps = before ++ p :: after → p ∉ qs → p.Hangs before

theorem offset_ne (hdistinct : ((before ++ p :: after).map offset).Nodup) (hq : q ∈ before) :
    q.offset ≠ p.offset := by
  rw [List.map_append, List.map_cons, List.nodup_append] at hdistinct
  exact hdistinct.2.2 _ (List.mem_map_of_mem hq) _ List.mem_cons_self

/-- The times `t` pass all tests that patterns in `ps` make, also those about
    events of other patterns. -/
def Settles (t : Offset → Int) (ps : List Pattern) : Prop :=
  ∀ own r target, Relate ps own r target → r.Allows (t own - t target)

theorem relate_concat : Relate (ps ++ [p]) own r target ↔ Relate ps own r target ∨
    (p.isSynthetic = false ∧ p.offset = own ∧ .temporal r target ∈ p.joinTests) := by
  simp [Relate, or_and_right, exists_or]

/-- The event of a negated pattern is none of the match. -/
theorem not_occupy (hsub : qs ⊆ ps) (hdistinct : (ps.map offset).Nodup) (hmem : p ∈ ps)
    (hp : p ∉ qs) : ¬ Occupy qs p.offset := by
  rintro ⟨q, hq, -, heq⟩
  exact hp (List.inj_on_of_nodup_map hdistinct (hsub hq) hmem heq ▸ hq)

namespace Tethered

/-- No test of an earlier pattern is about the event of a negated one. -/
theorem not_about (h : Tethered qs ps) (hsub : qs ⊆ ps) (hdistinct : (ps.map offset).Nodup)
    (hps : ps = before ++ p :: after) (hp : p ∉ qs) (hrelate : Relate before own r target) :
    own ≠ p.offset ∧ target ≠ p.offset := by
  obtain ⟨q, hq, hreal, rfl, htest⟩ := hrelate
  refine ⟨offset_ne (hps ▸ hdistinct) hq, ?_⟩
  by_cases hpos : q ∈ qs
  · rintro rfl
    exact not_occupy hsub hdistinct (hps ▸ by simp) hp
      (h.positive _ _ _ ⟨q, hpos, hreal, rfl, htest⟩)
  · obtain ⟨first, rest, rfl⟩ := List.append_of_mem hq
    obtain ⟨⟨q', hq', -, rfl⟩, -⟩ :=
      h.hangs first q (rest ++ p :: after) (by simpa using hps) hpos _ _ htest
    exact offset_ne (hps ▸ hdistinct) (List.mem_append_left _ hq')

/-- A negated pattern could have had an event, seen from the one event that its
    tests are about. -/
theorem exists_time {d : Distances} (h : Tethered qs ps) (hmoderate : Moderate ps)
    (hd : Distances.ofPatterns ps = .ok d) (hps : ps = before ++ p :: after) (hp : p ∉ qs) :
    ∃ time, ∀ r target, p.isSynthetic = false → .temporal r target ∈ p.joinTests →
      r.Allows (time - t target) := by
  obtain ⟨hpossible, hwithin⟩ := Distances.ofPatterns_within hmoderate hd
  by_cases hrelated : ∃ r target, .temporal r target ∈ p.joinTests
  · obtain ⟨r, k, htest⟩ := hrelated
    refine ⟨t k + (d.get k p.offset).lo, fun r' target hreal htest' => ?_⟩
    obtain rfl := (h.hangs before p after hps hp r k htest).2 r' target htest'
    have hrelate : Relate ps p.offset r' target := ⟨p, hps ▸ by simp, hreal, rfl, htest'⟩
    have hadmits := (hwithin _ _ _ hrelate).admits_lo (hpossible _ _)
    rw [Int.add_comm, Int.add_sub_cancel]
    exact (hmoderate _ _ _ hrelate).admits_of.1 hadmits
  · exact ⟨0, fun r target _ htest => absurd ⟨r, target, htest⟩ hrelated⟩

/-- One more pattern gets its time; those that events of the match have stay. -/
theorem settles_concat {d : Distances} (h : Tethered qs ps) (hsub : qs ⊆ ps)
    (hdistinct : (ps.map offset).Nodup) (hmoderate : Moderate ps)
    (hd : Distances.ofPatterns ps = .ok d) (ht : Pass qs t)
    (hps : ps = before ++ p :: after) (hagree : ∀ i, Occupy qs i → t' i = t i)
    (hsettles : Settles t' before) :
    ∃ t'', (∀ i, Occupy qs i → t'' i = t i) ∧ Settles t'' (before ++ [p]) := by
  by_cases hp : p ∈ qs
  · refine ⟨t', hagree, fun own r target hrelate => ?_⟩
    rcases relate_concat.1 hrelate with hrelate | ⟨hreal, rfl, htest⟩
    · exact hsettles own r target hrelate
    · have hrelate : Relate qs p.offset r target := ⟨p, hp, hreal, rfl, htest⟩
      have htarget := h.positive _ _ _ hrelate
      rw [hagree _ ⟨p, hp, hreal, rfl⟩, hagree _ htarget]
      exact ht _ _ _ hrelate htarget
  · -- No test of the patterns before is about this event, so its time is free for its own.
    obtain ⟨time, htime⟩ := h.exists_time (t := t') hmoderate hd hps hp
    refine ⟨Function.update t' p.offset time, fun i hi => ?_, fun own r target hrelate => ?_⟩
    · have hne : i ≠ p.offset := by
        rintro rfl
        exact not_occupy hsub hdistinct (hps ▸ by simp) hp hi
      rw [Function.update_of_ne hne, hagree i hi]
    · rcases relate_concat.1 hrelate with hrelate | ⟨hreal, rfl, htest⟩
      · obtain ⟨hown, htarget⟩ := h.not_about hsub hdistinct hps hp hrelate
        rw [Function.update_of_ne hown, Function.update_of_ne htarget]
        exact hsettles own r target hrelate
      · obtain ⟨⟨q, hq, -, rfl⟩, -⟩ := h.hangs before p after hps hp r target htest
        rw [Function.update_self, Function.update_of_ne (offset_ne (hps ▸ hdistinct) hq)]
        exact htime r q.offset hreal htest

/-- Times of events in a match are completed by times of events that the negated
    patterns could have had. -/
theorem exists_settles {d : Distances} (h : Tethered qs ps) (hsub : qs ⊆ ps)
    (hdistinct : (ps.map offset).Nodup) (hmoderate : Moderate ps)
    (hd : Distances.ofPatterns ps = .ok d) (ht : Pass qs t) :
    ∃ t', (∀ i, Occupy qs i → t' i = t i) ∧ Settles t' ps := by
  -- The patterns get their times in the order of the rule.
  suffices hfrom : ∀ after before t', ps = before ++ after →
      (∀ i, Occupy qs i → t' i = t i) → Settles t' before →
      ∃ t', (∀ i, Occupy qs i → t' i = t i) ∧ Settles t' ps from
    hfrom ps [] t rfl (fun _ _ => rfl) (by rintro own r target ⟨p, hp, -⟩; cases hp)
  intro after
  induction after with
  | nil =>
    intro before t' hps hagree hsettles
    rw [List.append_nil] at hps
    exact ⟨t', hagree, hps ▸ hsettles⟩
  | cons p after ih =>
    intro before t' hps hagree hsettles
    obtain ⟨t'', hagree', hsettles'⟩ :=
      h.settles_concat hsub hdistinct hmoderate hd ht hps hagree hsettles
    exact ih (before ++ [p]) t'' (by simpa using hps) hagree' hsettles'

end Tethered

end Pattern

/-! ## Bodies -/

namespace Body

variable {b : Body}

/-- The patterns of the body outside every negation. -/
def positives (b : Body) : List Pattern := b.toElement.positives

/-- The body is a conjunction of patterns and of groups that are no disjunctions;
    no two patterns have the same offset, and the bounds in their tests are
    moderate. -/
structure Ordinary (b : Body) : Prop where
  conjunction : b.connective = .and
  ordinary : b.toElement.isOrdinary
  distinct : (b.patterns.map Pattern.offset).Nodup
  moderate : Pattern.Moderate b.patterns

/-- If a fact is dropped at some time after its event, then no other event of a
    match comes later than that. -/
def KeepsLongEnough (b : Body) : Prop :=
  ∀ d, Distances.ofPatterns b.patterns = .ok d → ∀ t, Pattern.Pass b.positives t →
    ∀ i j, Pattern.Occupy b.positives i → Pattern.Occupy b.positives j →
      ∀ n, d.expiration i = .bounded n → t j - t i ≤ n

/-- **Facts are kept long enough** where each negated pattern is related in time
    to one earlier pattern only. -/
theorem keepsLongEnough_of_tethered (hb : b.Ordinary)
    (htethered : Pattern.Tethered b.positives b.patterns) : b.KeepsLongEnough := by
  intro d hd t ht i j hi hj n hn
  have hsub : b.positives ⊆ b.patterns := Element.positives_subset b.toElement
  obtain ⟨t', hagree, hsettles⟩ := htethered.exists_settles hsub hb.distinct hb.moderate hd ht
  have hends := Distances.ofPatterns_permits hb.moderate
    (fun own r target hrelate _ => hsettles own r target hrelate)
  rw [hd] at hends
  have hj' : Pattern.Occupy b.patterns j := by
    obtain ⟨q, hq, hreal, rfl⟩ := hj
    exact ⟨q, hsub hq, hreal, rfl⟩
  rw [← hagree i hi, ← hagree j hj]
  exact hends.le_of_expiration (Distances.mem_offsets_initial.2 hj') hn

/-- Two events, one at most `most` after the other, and none that passes some
    tests. -/
def hushing (most : Int) (tests : List TimeTest) : Body where
  connective := .and
  members := [.pattern first, .pattern second, .group .not [.pattern third]]
where
  first : Pattern := { offset := 0, type := 2, event := true }
  second : Pattern := { offset := 1, type := 3, event := true, timeTests := [⟨.after 0 most, 0⟩] }
  third : Pattern := { offset := 2, type := 4, event := true, timeTests := tests }

section Hushing

variable {most : Int} {tests : List TimeTest} {own target : Offset} {r : TimeRelation}

theorem patterns_hushing : (hushing most tests).patterns =
    [hushing.first, hushing.second most, hushing.third tests] := rfl

theorem positives_hushing : (hushing most tests).positives =
    [hushing.first, hushing.second most] := rfl

theorem ordinary_hushing (hmost : (TimeRelation.after 0 most).Moderate)
    (htests : ∀ t ∈ tests, t.relation.Moderate) : (hushing most tests).Ordinary := by
  refine ⟨rfl, rfl, by simp [patterns_hushing, hushing.first, hushing.second, hushing.third], ?_⟩
  rintro own r target ⟨p, hp, -, rfl, htest⟩
  simp only [patterns_hushing, List.mem_cons, List.not_mem_nil, or_false] at hp
  rcases hp with rfl | rfl | rfl
  · simp [Pattern.joinTests, hushing.first] at htest
  · simp [Pattern.joinTests, hushing.second, TimeTest.toJoinTest] at htest
    exact htest.1 ▸ hmost
  · simp only [Pattern.joinTests, hushing.third, List.nil_append, List.mem_map] at htest
    obtain ⟨t, ht, heq⟩ := htest
    cases heq
    exact htests t ht

theorem relate_positives_hushing (h : Pattern.Relate (hushing most tests).positives own r target) :
    own = 1 ∧ r = .after 0 most ∧ target = 0 := by
  obtain ⟨p, hp, -, rfl, htest⟩ := h
  simp only [positives_hushing, List.mem_cons, List.not_mem_nil, or_false] at hp
  rcases hp with rfl | rfl
  · simp [Pattern.joinTests, hushing.first] at htest
  · simpa [Pattern.joinTests, hushing.second, TimeTest.toJoinTest] using htest

theorem exists_expiration {i : Offset} {e : Expiration}
    (h : (Distances.ofPatterns (hushing most tests).patterns).toOption.map (·.expiration i) =
      some e) :
    ∃ d, Distances.ofPatterns (hushing most tests).patterns = .ok d ∧ d.expiration i = e := by
  cases hd : Distances.ofPatterns (hushing most tests).patterns with
  | error f => simp [hd, Except.toOption] at h
  | ok d =>
    rw [hd] at h
    exact ⟨d, rfl, Option.some.inj h⟩

theorem tethered_hushing (htests : ∀ t ∈ tests, t.target = 1) :
    Pattern.Tethered (hushing most tests).positives (hushing most tests).patterns := by
  constructor
  · intro own r target h
    obtain ⟨-, -, rfl⟩ := relate_positives_hushing h
    exact ⟨_, List.mem_cons_self, rfl, rfl⟩
  · intro before p after hps hp
    have hthird : before = [hushing.first, hushing.second most] ∧ p = hushing.third tests := by
      rw [patterns_hushing] at hps
      rw [positives_hushing, List.mem_cons, List.mem_singleton] at hp
      rcases before with _ | ⟨x, _ | ⟨y, _ | ⟨z, rest⟩⟩⟩ <;>
        simp only [List.nil_append, List.cons_append, List.cons.injEq] at hps
      · exact absurd (.inl hps.1.symm) hp
      · exact absurd (.inr hps.2.1.symm) hp
      · exact ⟨by rw [hps.1, hps.2.1], hps.2.2.1.symm⟩
      · simp at hps
    obtain ⟨rfl, rfl⟩ := hthird
    have htarget : ∀ r target, .temporal r target ∈ (hushing.third tests).joinTests →
        target = 1 := by
      intro r target htest
      simp only [Pattern.joinTests, hushing.third, List.nil_append, List.mem_map] at htest
      obtain ⟨t, ht, heq⟩ := htest
      cases heq
      exact htests t ht
    intro r target htest
    rw [htarget r target htest]
    exact ⟨⟨_, List.mem_cons_of_mem _ List.mem_cons_self, rfl, rfl⟩, htarget⟩

end Hushing

theorem keepsLongEnough_of_tethered_hushing :
    (hushing 100 [⟨.after 0 10, 1⟩]).Ordinary ∧
      Pattern.Tethered (hushing 100 [⟨.after 0 10, 1⟩]).positives
        (hushing 100 [⟨.after 0 10, 1⟩]).patterns ∧
      (∃ d, Distances.ofPatterns (hushing 100 [⟨.after 0 10, 1⟩]).patterns = .ok d ∧
        d.expiration 0 = .bounded 110) ∧
      (hushing 100 [⟨.after 0 10, 1⟩]).KeepsLongEnough := by
  have hordinary : (hushing 100 [⟨.after 0 10, 1⟩]).Ordinary :=
    ordinary_hushing (by decide) (by decide)
  have htethered : Pattern.Tethered (hushing 100 [⟨.after 0 10, 1⟩]).positives
      (hushing 100 [⟨.after 0 10, 1⟩]).patterns := tethered_hushing (by decide)
  exact ⟨hordinary, htethered, exists_expiration (by decide +kernel),
    keepsLongEnough_of_tethered hordinary htethered⟩

/-- The second event may come at any time after the first one; but the third one,
    which never comes, would have to come within ten units of time after both. -/
theorem not_keepsLongEnough_hushing :
    (hushing Interval.noUpper [⟨.after 0 10, 0⟩, ⟨.after 0 10, 1⟩]).Ordinary ∧
      ¬ (hushing Interval.noUpper [⟨.after 0 10, 0⟩, ⟨.after 0 10, 1⟩]).KeepsLongEnough := by
  refine ⟨ordinary_hushing (by decide) (by decide), fun hkeeps => ?_⟩
  obtain ⟨d, hd, hdropped⟩ : ∃ d, Distances.ofPatterns
      (hushing Interval.noUpper [⟨.after 0 10, 0⟩, ⟨.after 0 10, 1⟩]).patterns = .ok d ∧
        d.expiration 0 = .bounded 10 := exists_expiration (by decide +kernel)
  have hpass : Pattern.Pass
      (hushing Interval.noUpper [⟨.after 0 10, 0⟩, ⟨.after 0 10, 1⟩]).positives
      (fun i => if i = 1 then 1000 else 0) := by
    intro own r target h _
    obtain ⟨rfl, rfl, rfl⟩ := relate_positives_hushing h
    decide
  have hlate := hkeeps d hd _ hpass 0 1 ⟨_, List.mem_cons_self, rfl, rfl⟩
    ⟨_, List.mem_cons_of_mem _ List.mem_cons_self, rfl, rfl⟩ 10 hdropped
  exact absurd hlate (by decide)

end Body

end RuleNet
