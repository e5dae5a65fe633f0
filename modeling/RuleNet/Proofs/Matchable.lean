/-
  RuleNet — rules that can match, and contradictions reported all the same.

  Times contradict each other if no times of events pass all tests.  But the
  distances are worked out for all patterns of a branch together, and a negated
  pattern has no event in a match.  A negated disjunction becomes negations side
  by side, the patterns of which may have one offset: each of them alone could
  have an event there, and the tests of all of them are put together.  A rule may
  be refused for this although it matches (`RuleBase.refused_calm_disjoint`).

  Main result: where the negated patterns of one offset are related to one
  earlier event, at a distance that passes all their tests, a rule that can match
  is never refused for its times (`RuleBase.add_not_contradictory`).
-/
import RuleNet.Proofs.Contract
import RuleNet.Proofs.Keeping

namespace RuleNet

/-! ## Times of negated patterns -/

namespace Pattern

variable {ps qs : List Pattern} {i own target : Offset} {r : TimeRelation} {t : Offset → Int}

/-- Of the patterns `ps`, those that are not in `qs` have offsets of their own;
    and the tests of time at each such offset are all about one earlier event,
    and some distance from it passes them. -/
structure Detached (qs ps : List Pattern) : Prop where
  apart : ∀ p ∈ ps, p.isSynthetic = false → p ∉ qs → ¬ Occupy qs p.offset
  hangs : ∀ i, Occupy ps i → ¬ Occupy qs i → ∃ k distance, ∀ r target, Relate ps i r target →
    target = k ∧ target < i ∧ r.Allows distance

namespace Detached

/-- The negated patterns with offsets below `n` get times at which they could have
    had events; those that events of the match have stay. -/
theorem exists_times_below (h : Detached qs ps) (t : Offset → Int) (n : Nat) :
    ∃ t' : Offset → Int, (∀ i, Occupy qs i → t' i = t i) ∧
      ∀ own < n, ¬ Occupy qs own → ∀ r target, Relate ps own r target →
        r.Allows (t' own - t' target) := by
  induction n with
  | zero => exact ⟨t, fun _ _ => rfl, fun own hlt => absurd hlt (Nat.not_lt_zero own)⟩
  | succ n ih =>
    obtain ⟨t', hagree, hsettled⟩ := ih
    by_cases hn : Occupy ps n ∧ ¬ Occupy qs n
    · obtain ⟨k, distance, hall⟩ := h.hangs n hn.1 hn.2
      -- no test below is about this event, so its time is free for its own tests
      refine ⟨Function.update t' n (t' k + distance), fun i hi => ?_,
        fun own hlt hown r target hrelate => ?_⟩
      · have hne : i ≠ n := by
          rintro rfl
          exact hn.2 hi
        rw [Function.update_of_ne hne, hagree i hi]
      · obtain hlt | rfl := Nat.lt_succ_iff_lt_or_eq.1 hlt
        · obtain ⟨_, _, hall'⟩ := h.hangs own hrelate.occupy hown
          obtain ⟨-, htarget, -⟩ := hall' r target hrelate
          rw [Function.update_of_ne hlt.ne, Function.update_of_ne (htarget.trans hlt).ne]
          exact hsettled own hlt hown r target hrelate
        · obtain ⟨rfl, htarget, hallows⟩ := hall r target hrelate
          rw [Function.update_self, Function.update_of_ne htarget.ne, add_sub_cancel_left]
          exact hallows
    · refine ⟨t', hagree, fun own hlt hown r target hrelate => ?_⟩
      obtain hlt | rfl := Nat.lt_succ_iff_lt_or_eq.1 hlt
      · exact hsettled own hlt hown r target hrelate
      · exact absurd ⟨hrelate.occupy, hown⟩ hn

/-- Times of events in a match are completed by times at which the negated
    patterns could have had events. -/
theorem exists_times (h : Detached qs ps) (t : Offset → Int) : ∃ t' : Offset → Int,
    (∀ i, Occupy qs i → t' i = t i) ∧
      ∀ own r target, Relate ps own r target → ¬ Occupy qs own → r.Allows (t' own - t' target) := by
  obtain ⟨t', hagree, hsettled⟩ := h.exists_times_below t ((ps.map offset).sum + 1)
  refine ⟨t', hagree, fun own r target hrelate hown => hsettled own ?_ hown r target hrelate⟩
  obtain ⟨p, hp, -, rfl, -⟩ := hrelate
  exact Nat.lt_succ_of_le (List.le_sum_of_mem (List.mem_map_of_mem hp))

/-- If the events of the match can pass their tests, which are about each other
    only, then all patterns could have had events that pass all tests. -/
theorem exists_pass (h : Detached qs ps)
    (hinward : ∀ own r target, Relate qs own r target → target ∈ qs.map offset)
    (ht : Pass qs t) : ∃ t', Pass ps t' := by
  obtain ⟨t', hagree, hsettled⟩ := h.exists_times t
  refine ⟨t', fun own r target hrelate htarget => ?_⟩
  by_cases hown : Occupy qs own
  · -- the test is one of the match, so it is about an event of the match
    obtain ⟨p, hp, hreal, rfl, htest⟩ := hrelate
    have hpos : p ∈ qs := by
      by_contra hneg
      exact h.apart p hp hreal hneg hown
    have hrelate : Relate qs p.offset r target := ⟨p, hpos, hreal, rfl, htest⟩
    have htarget' : Occupy qs target := by
      obtain ⟨q, hq, rfl⟩ := List.mem_map.1 (hinward _ _ _ hrelate)
      obtain ⟨q', -, hreal', hsame⟩ := htarget
      refine ⟨q, hq, ?_, rfl⟩
      rwa [isSynthetic, ← hsame]
    rw [hagree _ hown, hagree _ htarget']
    exact ht _ _ _ hrelate htarget'
  · exact hsettled own r target hrelate hown

end Detached

end Pattern

/-! ## Rules that can match -/

namespace Body

variable {b : Body}

/-- Events could match the body as far as time goes: no two patterns outside
    every negation have one offset, they are related to each other only, and at
    some times their events pass all their tests. -/
structure CanMatch (b : Body) : Prop where
  moderate : Pattern.Moderate b.patterns
  distinct : (b.positives.map Pattern.offset).Nodup
  inward : ∀ own r target, Pattern.Relate b.positives own r target →
    target ∈ b.positives.map Pattern.offset
  possible : ∃ t, Pattern.Pass b.positives t

/-- No contradiction is found in the times of the body. -/
def Consistent (b : Body) : Prop :=
  ∀ i j, Distances.ofPatterns b.patterns ≠ .error (.unsatisfiableTimes i j)

theorem CanMatch.consistent (h : b.CanMatch) (hneg : Pattern.Detached b.positives b.patterns) :
    b.Consistent := by
  obtain ⟨t, ht⟩ := h.possible
  obtain ⟨t', ht'⟩ := hneg.exists_pass h.inward ht
  exact Distances.ofPatterns_ne_contradiction h.moderate ht'

/-- An event after which no event comes that stands in one relation to it and is
    of one type, nor one that stands in another relation and is of another type. -/
def calm (first second : TimeRelation) : Body where
  connective := .and
  members := [.pattern event, .group .not [.pattern (follower 3 first)],
    .group .not [.pattern (follower 4 second)]]
where
  event : Pattern := { offset := 0, type := 2, event := true }
  follower (type : Symbol) (relation : TimeRelation) : Pattern :=
    { offset := 1, type, event := true, timeTests := [⟨relation, 0⟩] }

section Calm

variable {first second r : TimeRelation} {own target : Offset}

theorem patterns_calm : (calm first second).patterns =
    [calm.event, calm.follower 3 first, calm.follower 4 second] := rfl

theorem positives_calm : (calm first second).positives = [calm.event] := rfl

theorem relate_calm (h : Pattern.Relate (calm first second).patterns own r target) :
    own = 1 ∧ target = 0 ∧ (r = first ∨ r = second) := by
  obtain ⟨p, hp, -, rfl, htest⟩ := h
  simp only [patterns_calm, List.mem_cons, List.not_mem_nil, or_false] at hp
  rcases hp with rfl | rfl | rfl
  · simp [Pattern.joinTests, calm.event] at htest
  · simp [Pattern.joinTests, calm.follower, TimeTest.toJoinTest] at htest
    exact ⟨rfl, htest.2, .inl htest.1⟩
  · simp [Pattern.joinTests, calm.follower, TimeTest.toJoinTest] at htest
    exact ⟨rfl, htest.2, .inr htest.1⟩

/-- The one event passes all its tests, for it has none. -/
theorem canMatch_calm (hfirst : first.Moderate) (hsecond : second.Moderate) :
    (calm first second).CanMatch := by
  have hfree : ∀ own r target, ¬ Pattern.Relate (calm first second).positives own r target := by
    rintro own r target ⟨p, hp, -, -, htest⟩
    rw [positives_calm, List.mem_singleton] at hp
    subst hp
    simp [Pattern.joinTests, calm.event] at htest
  refine ⟨fun own r target h => ?_, by simp [positives_calm], fun own r target h => ?_,
    fun _ => 0, fun own r target h => ?_⟩
  · obtain ⟨-, -, rfl | rfl⟩ := relate_calm h
    · exact hfirst
    · exact hsecond
  · exact absurd h (hfree own r target)
  · exact absurd h (hfree own r target)

theorem detached_calm {distance : Int} (hfirst : first.Allows distance)
    (hsecond : second.Allows distance) :
    Pattern.Detached (calm first second).positives (calm first second).patterns := by
  have hzero : Pattern.Occupy (calm first second).positives 0 := ⟨_, List.mem_cons_self, rfl, rfl⟩
  constructor
  · rintro p hp - hneg ⟨q, hq, -, heq⟩
    rw [positives_calm, List.mem_singleton] at hq hneg
    subst hq
    simp only [patterns_calm, List.mem_cons, List.not_mem_nil, or_false] at hp
    obtain rfl | rfl := hp.resolve_left hneg <;> cases heq
  · intro i _ _
    refine ⟨0, distance, fun r target h => ?_⟩
    obtain ⟨rfl, rfl, rfl | rfl⟩ := relate_calm h
    · exact ⟨rfl, Nat.zero_lt_one, hfirst⟩
    · exact ⟨rfl, Nat.zero_lt_one, hsecond⟩

end Calm

end Body

/-- A rule about an event after which neither of two others comes. -/
def Rule.calm (first second : TimeRelation) : Rule where
  name := "calm"
  body := ⟨.and, [.pattern Body.calm.event, .group .not [.group .or
    [.pattern (Body.calm.follower 3 first), .pattern (Body.calm.follower 4 second)]]]⟩

/-- The negated disjunction becomes two negations. -/
theorem Rule.branches_calm (first second : TimeRelation) :
    (Rule.calm first second).body.branches = .ok [⟨0, Body.calm first second⟩] := rfl

namespace RuleBase

variable {base : RuleBase} {r : Rule} {bs : List Branch}

/-- **A rule that can match is not refused for its times**, where in each of its
    branches the negated patterns of one offset are related to one earlier event,
    at a distance that passes all their tests. -/
theorem add_not_contradictory (h : base.Reachable) (hbs : r.body.branches = .ok bs)
    (hmatch : ∀ b ∈ bs, b.body.CanMatch)
    (hneg : ∀ b ∈ bs, Pattern.Detached b.body.positives b.body.patterns) :
    (∀ b ∈ bs, b.body.Consistent) ∧
      ∀ failure, (base.add r).result = .error failure →
        ∀ i j, failure.fault ≠ .unsatisfiableTimes i j := by
  have hconsistent : ∀ b ∈ bs, b.body.Consistent := fun b hb => (hmatch b hb).consistent (hneg b hb)
  refine ⟨hconsistent, fun failure hfail i j htimes => ?_⟩
  obtain ⟨defs, inst, hs⟩ := h.sound
  obtain ⟨hname, -⟩ | ⟨hblueprint | ⟨hname, -⟩, -⟩ := hs.add_fault hfail
  · rw [htimes] at hname
    cases hname
  · rw [htimes] at hblueprint
    obtain hempty | ⟨bs', hbs', hbranch | ⟨-, b, hb, hd⟩⟩ := Rule.blueprint_fault hblueprint
    · cases hempty
    · cases hbranch
    · obtain rfl : bs = bs' := Except.ok.inj (hbs.symm.trans hbs')
      exact hconsistent b hb i j hd
  · rw [htimes] at hname
    cases hname

/-- Between five and ten units of time after the event, either of the other two
    could have come. -/
theorem add_not_contradictory_calm :
    (Body.calm (.after 0 10) (.after 5 30)).CanMatch ∧
      Pattern.Detached (Body.calm (.after 0 10) (.after 5 30)).positives
        (Body.calm (.after 0 10) (.after 5 30)).patterns ∧
      (Body.calm (.after 0 10) (.after 5 30)).Consistent ∧
      ∀ failure, ((empty .stream).add (.calm (.after 0 10) (.after 5 30))).result = .error failure →
        ∀ i j, failure.fault ≠ .unsatisfiableTimes i j := by
  have hmatch : (Body.calm (.after 0 10) (.after 5 30)).CanMatch :=
    Body.canMatch_calm (by decide) (by decide)
  have hneg : Pattern.Detached (Body.calm (.after 0 10) (.after 5 30)).positives
      (Body.calm (.after 0 10) (.after 5 30)).patterns :=
    Body.detached_calm (by decide : TimeRelation.Allows _ 5) (by decide)
  have hempty : (empty .stream).Reachable := .empty rfl
  obtain ⟨hconsistent, hadd⟩ := add_not_contradictory hempty
    (Rule.branches_calm (.after 0 10) (.after 5 30)) (List.forall_mem_singleton.2 hmatch)
    (List.forall_mem_singleton.2 hneg)
  exact ⟨hmatch, hneg, hconsistent _ (List.mem_singleton_self _), hadd⟩

/-- No event can come both at most ten and at least twenty units of time after the
    one event.  The rule is about events that do not come, and is refused. -/
theorem refused_calm_disjoint :
    (Rule.calm (.after 0 10) (.after 20 30)).body.branches =
        .ok [⟨0, Body.calm (.after 0 10) (.after 20 30)⟩] ∧
      (Body.calm (.after 0 10) (.after 20 30)).connective = .and ∧
      (Body.calm (.after 0 10) (.after 20 30)).toElement.isOrdinary ∧
      (Body.calm (.after 0 10) (.after 20 30)).CanMatch ∧
      Distances.ofPatterns (Body.calm (.after 0 10) (.after 20 30)).patterns =
        .error (.unsatisfiableTimes 0 1) ∧
      ∃ failure, ((empty .stream).add (.calm (.after 0 10) (.after 20 30))).result =
        .error failure ∧ failure.fault = .unsatisfiableTimes 0 1 := by
  have hfault : ((empty .stream).add (.calm (.after 0 10) (.after 20 30))).result.mapError
      (·.fault) = .error (.unsatisfiableTimes 0 1) := by decide +kernel
  refine ⟨rfl, rfl, rfl, Body.canMatch_calm (by decide) (by decide), by decide +kernel, ?_⟩
  cases hadd : ((empty .stream).add (.calm (.after 0 10) (.after 20 30))).result with
  | ok built =>
    rw [hadd] at hfault
    cases hfault
  | error failure =>
    rw [hadd] at hfault
    exact ⟨failure, rfl, Except.error.inj hfault⟩

end RuleBase

end RuleNet
