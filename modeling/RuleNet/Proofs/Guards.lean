/-
  RuleNet — the guards of universal statements.

  A pattern of the rest of a universal statement is guarded if it is of the type
  of the base: its fact is the very one that the base matched.  The node that the
  pattern's facts come to makes just the tests of the pattern, its guard
  included, unless nodes are shared and the statement relates its rest by guards
  alone.  Then guards are left out of account where a node is searched for, and
  the first one found is taken, whether it has a guard or not
  (`universal_guards`).
-/
import RuleNet.Proofs.Repeating
import RuleNet.Proofs.Seats

namespace RuleNet

/-! ## Guarded patterns -/

namespace Pattern

variable {p : Pattern} {t : JoinTest} {o : Offset}

theorem mem_joinTests_guarded : t ∈ (p.guarded o).joinTests ↔ t ∈ p.joinTests ∨ t = .identity o := by
  simp only [joinTests, guarded, List.mem_append, List.mem_singleton]
  exact or_right_comm

theorem isGuard_of_not_isRelated (h : ¬ p.isRelated) (ht : t ∈ p.joinTests) : t.isGuard := by
  simp only [isRelated, Bool.or_eq_true, Bool.not_eq_true', List.isEmpty_eq_false_iff, not_or,
    not_not, List.any_eq_true, not_exists, not_and, Bool.not_eq_false] at h
  rw [joinTests, h.1, List.map_nil, List.append_nil] at ht
  exact h.2 t ht

end Pattern

namespace Universal

variable {base p : Pattern} {rest : List Pattern}

/-- A pattern of the rest is guarded if it is of the type of the base. -/
theorem exists_of_mem_rest (hp : p ∈ (of base rest).rest) :
    ∃ p₀, ((of base rest).guardsOnly → ¬ p₀.isRelated) ∧
      p = if p₀.type == (of base rest).base.type then p₀.guarded (of base rest).base.offset
        else p₀ := by
  obtain ⟨p₀, hp₀, rfl⟩ := List.mem_map.1 hp
  exact ⟨p₀, fun h => by simpa using List.all_eq_true.1 h p₀ hp₀, rfl⟩

theorem guard_mem (hp : p ∈ (of base rest).rest) (htype : p.type = (of base rest).base.type) :
    .identity (of base rest).base.offset ∈ p.joinTests := by
  obtain ⟨p₀, -, heq⟩ := exists_of_mem_rest hp
  split at heq
  · rw [heq, Pattern.mem_joinTests_guarded]
    exact .inr rfl
  · rename_i hother
    exact absurd (beq_iff_eq.2 (heq ▸ htype)) hother

/-- If only guards relate the rest, its patterns have no other tests. -/
theorem isGuard_of_guardsOnly (h : (of base rest).guardsOnly) (hp : p ∈ (of base rest).rest) :
    ∀ t ∈ p.joinTests, t.isGuard := by
  obtain ⟨p₀, hrelated, heq⟩ := exists_of_mem_rest hp
  intro t ht
  split at heq <;> rw [heq] at ht
  · obtain ht | rfl := Pattern.mem_joinTests_guarded.1 ht
    · exact Pattern.isGuard_of_not_isRelated (hrelated h) ht
    · rfl
  · exact Pattern.isGuard_of_not_isRelated (hrelated h) ht

end Universal

namespace Scope

variable {scope more : Scope} {offset : Offset} {p : Pattern} {i : Nat}

/-- The pattern that is put into scope is the one declared at its offset, unless
    an earlier one is. -/
theorem Declares.eq_length (h : (scope ++ [p] ++ more).Declares p.offset i)
    (hfree : ¬ scope.binds p.offset) : i = scope.length := by
  obtain ⟨q, hq, hoffset, hwritten⟩ := h.pattern
  rw [List.append_assoc] at hq
  rcases Nat.lt_trichotomy i scope.length with hi | hi | hi
  · refine absurd ?_ hfree
    rw [List.getElem?_append_left hi] at hq
    have hdeclares : scope.Declares p.offset i := by
      refine ⟨⟨q, hq, hoffset, hwritten⟩, fun j hj q' hq' => h.first j hj q' ?_⟩
      rw [List.append_assoc, List.getElem?_append_left (hj.trans hi), hq']
    rw [binds, find_eq_some_iff.2 hdeclares]
    rfl
  · exact hi
  · refine absurd (h.first _ hi p ?_ rfl) ?_
    · simp
    · rwa [Pattern.isSynthetic, ← hoffset]

end Scope

theorem JoinTest.isGuard_retarget (t : JoinTest) (o : Offset) :
    (t.retarget o).isGuard = t.isGuard := by
  cases t <;> rfl

theorem JoinTest.weighed_eq_nil_iff {ts : List JoinTest} :
    weighed true ts = [] ↔ ∀ t ∈ ts, t.isGuard := by
  simp [weighed]

/-! ## Joins in the network -/

/-- Whether a join was noted as a cross product does not matter to a search. -/
theorem Network.findServing_congr {net : Network} {g : Bool} {i j : Join} (hkind : i.kind = j.kind)
    (hleft : i.left = j.left) (hright : i.right = j.right) (htests : i.tests = j.tests)
    (hmemory : i.tupleMemory = j.tupleMemory) :
    net.findServing g (.join i) = net.findServing g (.join j) := by
  have hserves : ∀ k : NodeKind, k.serves g (.join i) = k.serves g (.join j) := by
    intro k
    cases k with
    | join k => simp only [NodeKind.serves, hkind, hleft, hright, htests, hmemory]
    | _ => rfl
  simp only [findServing, NodeKind.sources, List.head?_cons, hleft, hserves]

/-- What the node of a request for a join with some tests does.  Where guards are
    left out of account, it is the first one that does the work but for them. -/
def Network.Tests (net : Network) (config : Config) (guardsOut : Bool) (tests : List JoinTest)
    (x : NodeId) : Prop :=
  ∃ j, net.kinds x = some (.join j) ∧
    if config.betaSharing ∧ guardsOut then
      JoinTest.agree true j.tests tests ∧ net.findServing true (.join { j with tests }) = some x
    else j.tests = tests

/-- A node that was asked for as a join makes the tests asked for. -/
theorem Network.Houses.tests_nodeAt {net : Network} {config : Config}
    {inst : RuleId → Option Installation} {r : RuleId} {I : Installation} {i : Nat} {q : Request}
    {j : Join} (h : net.Houses config inst) (hI : inst r = some I) (hq : I.steps[i]? = some q)
    (hj : q.kind = .join j) : net.Tests config q.guardsOut j.tests (I.nodeAt i) := by
  have hx := h.node_of_step hI hq
  obtain ⟨n, hn, hserves⟩ := h.placed hI hq hx
  have hwanted : I.wanted r q = .join { j with left := I.nodeAt j.left, right := I.nodeAt j.right } := by
    rw [Installation.wanted, hj]
    rfl
  have hshares : config.shares q.kind = config.betaSharing := by rw [hj]; rfl
  obtain ⟨m, hm⟩ : ∃ m, n.kind = .join m := by
    rw [hwanted] at hserves
    obtain heq | ⟨m, _, hm, -⟩ := NodeKind.serves_cases hserves
    · exact ⟨_, heq⟩
    · exact ⟨m, hm⟩
  rw [hwanted, hm, NodeKind.serves_join] at hserves
  obtain ⟨hkind, hleft, hright, hmemory, hagree⟩ := hserves
  refine ⟨m, kinds_eq_some.2 ⟨n, hn, hm⟩, ?_⟩
  by_cases hbeta : config.betaSharing
  · by_cases hout : q.guardsOut
    · rw [if_pos ⟨hbeta, hout⟩]
      have hchosen := h.chosen hI hq hx (hshares.trans hbeta)
      rw [hwanted, existing_of_no_root rfl, if_pos (show config.shares (.join _) from hbeta),
        hout] at hchosen
      have hsame : net.findServing true (.join { m with tests := j.tests }) =
          net.findServing true
            (.join { j with left := I.nodeAt j.left, right := I.nodeAt j.right }) :=
        findServing_congr hkind hleft hright rfl hmemory
      exact ⟨hout ▸ hagree, hsame.trans hchosen⟩
    · rw [if_neg fun hboth => hout hboth.2]
      rwa [JoinTest.agree_iff, Bool.eq_false_iff.2 hout, JoinTest.weighed_false,
        JoinTest.weighed_false] at hagree
  · rw [if_neg fun hboth => hbeta hboth.1]
    have hmade := h.made hI hq hx (by rwa [hshares]) hn
    rw [hm, hwanted] at hmade
    cases hmade
    rfl

/-! ## Guards in rule bases -/

/-- What is known of the node of a pattern that stands `k`-th in the rest of a
    universal statement and is of the type of its base. -/
structure Seat.Guarded (s : Seat) (base : RuleBase) (k : Nat) (p : Pattern) (x : NodeId) (j : Join)
    (tests : List JoinTest) (i : Nat) : Prop where
  node : s.nodes[k]? = some x
  kind : base.network.kinds x = some (.join j)
  /-- These are the tests of the pattern in terms of positions. -/
  resolved : List.Forall₂ (s.scopeAt k).Resolves p.joinTests tests
  guard : .identity i ∈ tests
  /-- The guard reads the first pattern declared at the offset of the base. -/
  declared : (s.scopeAt k).Declares s.statement.base.offset i
  /-- It is the base itself, unless an earlier pattern has that offset. -/
  own : ¬ s.scope.binds s.statement.base.offset → i = s.scope.length
  /-- The node makes these tests, unless guards are left out of account; then it
      is the first node that does the work but for guards. -/
  tested : if base.config.betaSharing ∧ s.statement.guardsOnly then
    (∀ t ∈ j.tests, t.isGuard) ∧ base.network.findServing true (.join { j with tests }) = some x
  else j.tests = tests

namespace RuleBase.Sound

variable {base : RuleBase} {defs : RuleId → Option Rule} {inst : RuleId → Option Installation}
variable {id : RuleId} {r : Rule} {I : Installation} {s : Seat}

/-- The tests that the steps of a rule ask for at a seat are made at its nodes. -/
theorem guarded_of_drawn (h : base.Sound defs inst) (hI : inst id = some I) (hs : s.Drawn I.steps)
    {k : Nat} {p : Pattern} (hp : s.statement.rest[k]? = some p)
    (htype : p.type = s.statement.base.type) :
    ∃ x j tests i, (s.map I.nodeAt).Guarded base k p x j tests i := by
  obtain ⟨i, hi, q, j₀, hq, hj₀, hout, hresolves⟩ := hs k p hp
  have hmem : p ∈ s.statement.rest := List.mem_of_getElem? hp
  obtain ⟨j, hj, htested⟩ := h.houses.tests_nodeAt hI hq hj₀
  -- the guard of the pattern is among its tests
  have hback : List.Forall₂ (flip (s.scopeAt k).Resolves) j₀.tests p.joinTests := hresolves.flip
  obtain ⟨_, ht, position, hdeclares, rfl⟩ :=
    exists_of_forall₂ hback _ (Universal.guard_mem hmem htype)
  refine ⟨I.nodeAt i, j, j₀.tests, position, ?_, hj, hresolves, ht, hdeclares,
    hdeclares.eq_length, ?_⟩
  · rw [Seat.map, List.getElem?_map, hi]
    rfl
  · rw [hout] at htested
    split at htested
    · rename_i hboth
      refine (if_pos hboth).symm ▸ ⟨?_, htested.2⟩
      have hguards : ∀ t ∈ j₀.tests, t.isGuard := by
        intro t ht
        obtain ⟨written, hwritten, i, -, rfl⟩ := exists_of_forall₂ hresolves t ht
        rw [JoinTest.isGuard_retarget]
        exact Universal.isGuard_of_guardsOnly hboth.2 hmem written hwritten
      rw [← JoinTest.weighed_eq_nil_iff, JoinTest.agree_iff.1 htested.1,
        JoinTest.weighed_eq_nil_iff]
      exact hguards
    · rename_i hnot
      exact (if_neg hnot).symm ▸ htested

/-- The universal statements of a rule have seats, and guarded patterns there have
    guarded nodes. -/
theorem exists_seats (h : base.Sound defs inst) (hr : defs id = some r) :
    ∃ bs seats, r.body.branches = .ok bs ∧
      List.Forall₂ (base.network.kinds.Seated id r.isQuery) bs seats ∧
      ∀ L ∈ seats, ∀ s ∈ L, ∀ (k : Nat) (p : Pattern), s.statement.rest[k]? = some p →
        p.type = s.statement.base.type → ∃ x j tests i, s.Guarded base k p x j tests i := by
  obtain ⟨entry, I, -, hI, hreg⟩ := h.entry_of_definition hr
  obtain ⟨bp, hbp, hsteps⟩ := hreg.blueprint
  obtain ⟨bs, seats, hbs, hseats⟩ := Rule.exists_seatings hbp
  rw [← hsteps] at hseats
  refine ⟨bs, seats.map (List.map (Seat.map I.nodeAt)), hbs, ?_, fun L' hL' s' hs' k p hp htype => ?_⟩
  · rw [List.forall₂_map_right_iff]
    exact hseats.imp fun b L hL => hL.1.map (h.houses.served hI)
  · obtain ⟨L, hL, rfl⟩ := List.mem_map.1 hL'
    obtain ⟨s, hs, rfl⟩ := List.mem_map.1 hs'
    obtain ⟨b, -, hseating⟩ := exists_of_forall₂ hseats L hL
    exact h.guarded_of_drawn hI (hseating.2 s hs) hp htype

/-- These seats are the only ones. -/
theorem seats_unique (h : base.Sound defs inst) (hr : defs id = some r) {bs : List Branch}
    {seats seats' : List (List Seat)}
    (hseats : List.Forall₂ (base.network.kinds.Seated id r.isQuery) bs seats)
    (hseats' : List.Forall₂ (base.network.kinds.Seated id r.isQuery) bs seats') :
    seats = seats' := by
  obtain ⟨entry, I, -, hI, hreg⟩ := h.entry_of_definition hr
  obtain ⟨bp, hbp, hsteps⟩ := hreg.blueprint
  refine List.right_unique_forall₂' (fun b L L' hL hL' => ?_) hseats hseats'
  exact hL.unique (fun x y s s' => h.houses.terminal_unique hI hbp hsteps) hL'

end RuleBase.Sound

/-- **Universal statements keep their guards, unless nodes are shared that differ
    in guards alone.**  Whatever commands led to a library, the universal
    statements of a registered rule have seats above its terminals.  A pattern of
    the rest that is of the type of the base is compiled with a guard that reads
    the base, or else an earlier pattern with the offset of the base.  Its node
    makes just the tests of the pattern; but where nodes are shared, and only
    guards relate the rest to earlier patterns, it is the first node found that
    does the same work but for guards. -/
theorem universal_guards {l : Library} (h : l.Reachable) {id : RuleId} {r : Rule}
    (hr : l.definitions id = some r) : ∃ bs, r.body.branches = .ok bs ∧
      (∃ seats, List.Forall₂ (l.base.network.kinds.Seated id r.isQuery) bs seats) ∧
      ∀ seats, List.Forall₂ (l.base.network.kinds.Seated id r.isQuery) bs seats →
        ∀ L ∈ seats, ∀ s ∈ L, ∀ (k : Nat) (p : Pattern), s.statement.rest[k]? = some p →
          p.type = s.statement.base.type → ∃ x j tests i, s.Guarded l.base k p x j tests i := by
  obtain ⟨inst, hs⟩ := h.sound
  have hs : l.base.Sound l.definitions inst := hs
  obtain ⟨bs, seats, hbs, hseats, hguarded⟩ := hs.exists_seats hr
  refine ⟨bs, hbs, ⟨seats, hseats⟩, fun seats' hseats' => ?_⟩
  rwa [hs.seats_unique hr hseats' hseats]

/-- The object side of a pattern without field tests is the root of its type. -/
theorem Kinds.bears_root {kinds : Kinds} {p : Pattern} {x : NodeId} {memory : Bool}
    (hp : p.fieldTests = []) (hx : kinds x = some (.objectType p.entry p.type memory)) :
    kinds.Bears ⟨p, [x]⟩ where
  length := by rw [hp]; rfl
  root := ⟨x, memory, rfl, hx⟩
  test i t ht := by simp [hp] at ht

/-- A rule that is a universal statement. -/
def Rule.covering (name : String) : Rule where
  name
  body := ⟨.and, [.every { offset := 0, type := 2 } [{ offset := 1, type := 2 }]]⟩

/-- A rule whose universal statement has a base with the offset of an earlier
    pattern. -/
def Rule.shadowing (name : String) : Rule where
  name
  body := ⟨.and, [.pattern { offset := 0, type := 2 },
    .every { offset := 0, type := 2 } [{ offset := 1, type := 2 }]]⟩

/-- A library with both rules, and before them one with a negation in a negation. -/
def Library.covered : Library :=
  [Command.add (.doubting "first"), .add (.covering "second"), .add (.shadowing "third")].foldl
    Library.after (.empty {})

theorem Library.reachable_covered : Library.covered.Reachable :=
  .step (.step (.step (.empty rfl) _) _) _

/-- The universal statement of the second rule, at a node of the first one. -/
def Seat.covering : Seat where
  base := { offset := 0, type := 2 }
  rest := [{ offset := 1, type := 2 }]
  scope := [.initialFact]
  nodes := [5]

/-- The universal statement of the third rule. -/
def Seat.shadowing : Seat where
  base := { offset := 0, type := 2 }
  rest := [{ offset := 1, type := 2 }]
  scope := [{ offset := 0, type := 2 }]
  nodes := [12]

theorem Kinds.seated_covering {kinds : Kinds}
    (h₁ : kinds 1 = some (.objectType .default Symbol.initialFact true))
    (h₂ : kinds 2 = some (.leftInput 1)) (h₃ : kinds 3 = some (.objectType .default 2 true))
    (h₄ : kinds 4 = some (.join ⟨.join, 2, 3, [], true, true⟩))
    (h₅ : kinds 5 = some (.join ⟨.not, 4, 3, [], true, true⟩))
    (h₆ : kinds 6 = some (.rightInput 5))
    (h₇ : kinds 7 = some (.join ⟨.not, 2, 6, [], false, true⟩))
    (h₉ : kinds 9 = some (.terminal 7 1 0 false)) :
    kinds.Seated 1 false ⟨0, (Rule.covering "second").body⟩ [.covering] := by
  let base : Pattern := { offset := 0, type := 2 }
  let guarded : Pattern := { offset := 1, type := 2, ownJoinTests := [.identity 0] }
  have hinitial : kinds.Widens none ⟨.initialFact, [1]⟩ 2 := .leftInput (bears_root rfl h₁) rfl h₂
  have hbase : kinds.Widens (some 2) ⟨base, [3]⟩ 4 := .join (bears_root rfl h₃) rfl h₄ rfl
  have hrest : kinds.Denies 4 [guarded] [5] 5 :=
    .single (s := ⟨guarded, [3]⟩) (bears_root rfl h₃) rfl h₅ rfl
  refine ⟨some 7, 7, 9, [], ?_, .there, h₉⟩
  exact .every (s := ⟨base, [3]⟩) (.initial rfl hinitial) rfl hbase hrest h₆ h₇ rfl .nil

theorem Kinds.seated_shadowing {kinds : Kinds}
    (h₃ : kinds 3 = some (.objectType .default 2 true)) (h₁₀ : kinds 10 = some (.leftInput 3))
    (h₁₁ : kinds 11 = some (.join ⟨.join, 10, 3, [], true, true⟩))
    (h₁₂ : kinds 12 = some (.join ⟨.not, 11, 3, [.identity 0], true, true⟩))
    (h₁₃ : kinds 13 = some (.rightInput 12))
    (h₁₄ : kinds 14 = some (.join ⟨.not, 10, 13, [], true, true⟩))
    (h₁₅ : kinds 15 = some (.terminal 14 2 0 false)) :
    kinds.Seated 2 false ⟨0, (Rule.shadowing "third").body⟩ [.shadowing] := by
  let base : Pattern := { offset := 0, type := 2 }
  let guarded : Pattern := { offset := 1, type := 2, ownJoinTests := [.identity 0] }
  have hfirst : kinds.Widens none ⟨base, [3]⟩ 10 := .leftInput (bears_root rfl h₃) rfl h₁₀
  have hbase : kinds.Widens (some 10) ⟨base, [3]⟩ 11 := .join (bears_root rfl h₃) rfl h₁₁ rfl
  have hrest : kinds.Denies 11 [guarded] [12] 12 :=
    .single (s := ⟨guarded, [3]⟩) (bears_root rfl h₃) rfl h₁₂ rfl
  refine ⟨some 14, 14, 15, [], ?_, .there, h₁₅⟩
  exact .leaf rfl (.pattern hfirst .nil)
    (.every (s := ⟨base, [3]⟩) .there rfl hbase hrest h₁₃ h₁₄ rfl .nil)

namespace Library

theorem seated_covering : covered.base.network.kinds.Seated 1 false
    ⟨0, (Rule.covering "second").body⟩ [.covering] :=
  Kinds.seated_covering (by decide +kernel) (by decide +kernel) (by decide +kernel)
    (by decide +kernel) (by decide +kernel) (by decide +kernel) (by decide +kernel)
    (by decide +kernel)

theorem seated_shadowing : covered.base.network.kinds.Seated 2 false
    ⟨0, (Rule.shadowing "third").body⟩ [.shadowing] :=
  Kinds.seated_shadowing (by decide +kernel) (by decide +kernel) (by decide +kernel)
    (by decide +kernel) (by decide +kernel) (by decide +kernel) (by decide +kernel)

end Library

theorem universal_guards_covered : Library.covered.Reachable ∧
    Library.covered.definitions 2 = some (.shadowing "third") ∧
    ∃ x j tests i, Seat.shadowing.Guarded Library.covered.base 0
      { offset := 1, type := 2, ownJoinTests := [.identity 0] } x j tests i := by
  have hr : Library.covered.definitions 2 = some (.shadowing "third") := by decide +kernel
  obtain ⟨bs, hbs, -, hguarded⟩ := universal_guards Library.reachable_covered hr
  cases hbs
  refine ⟨Library.reachable_covered, hr, ?_⟩
  exact hguarded [[Seat.shadowing]] (.cons Library.seated_shadowing .nil) _
    (List.mem_singleton_self _) _ (List.mem_singleton_self _) 0 _ rfl rfl

/-- The second rule shares a node without a guard, and the guard of the third one
    reads another pattern than the base. -/
theorem not_universal_guards_covered : Library.covered.Reachable ∧
    (Library.covered.definitions 1 = some (.covering "second") ∧
      Library.covered.base.network.kinds.Seated 1 false ⟨0, (Rule.covering "second").body⟩
        [.covering] ∧
      ∃ x j, Seat.covering.nodes[0]? = some x ∧ Library.covered.base.network.kinds x = some (.join j) ∧
        ∀ i, .identity i ∉ j.tests) ∧
    (Library.covered.definitions 2 = some (.shadowing "third") ∧
      Library.covered.base.network.kinds.Seated 2 false ⟨0, (Rule.shadowing "third").body⟩
        [.shadowing] ∧
      ∃ x j, Seat.shadowing.nodes[0]? = some x ∧
        Library.covered.base.network.kinds x = some (.join j) ∧
          .identity Seat.shadowing.scope.length ∉ j.tests) := by
  have hshared : Library.covered.base.network.kinds 5 =
      some (.join ⟨.not, 4, 3, [], true, true⟩) := by decide +kernel
  have hown : Library.covered.base.network.kinds 12 =
      some (.join ⟨.not, 11, 3, [.identity 0], true, true⟩) := by decide +kernel
  refine ⟨Library.reachable_covered, ⟨?_, Library.seated_covering, 5, _, rfl, hshared, ?_⟩,
    ?_, Library.seated_shadowing, 12, _, rfl, hown, ?_⟩
  · decide +kernel
  · simp
  · decide +kernel
  · simp [Seat.shadowing]

end RuleNet
