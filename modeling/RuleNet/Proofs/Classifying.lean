/-
  RuleNet — what is noted of a join that rules share.

  A join is noted as a cross product if none of its tests counts.  Whoever shares
  its node takes it as it was noted when it was made, and the search for a node to
  share does not look at what is noted.

  If no pattern that only guards relate to earlier ones, where they count, is about
  the same facts as one that nothing else relates where they do not, each join that
  a rule gets is noted as it was asked for, whether or not it is shared
  (`Session.joins_noted`).  Otherwise it need not be so
  (`Session.not_joins_noted_guarding`).
-/
import RuleNet.Proofs.Contract
import RuleNet.Proofs.Joinings
import RuleNet.Proofs.Posing

namespace RuleNet

/-! ## The network -/

/-- Each join of a network is noted as guards counted, in a way that is allowed,
    for what it has on its right. -/
def Network.Noted (net : Network) (W : Bool → Pattern → Prop) : Prop :=
  ∀ (x : NodeId) (j : Join), net.kinds x = some (.join j) →
    ∃ g, j.crossProduct = JoinTest.noneCounts g j.tests ∧ net.kinds.Poses W g j

namespace Site

variable {w w₀ : Site} {rule : RuleId} {I : Installation} {q : Request} {partition : PartitionId}
variable {x : NodeId} {origin? : Option Origin}
variable {W : Bool → Pattern → Prop}

/-- Taking a node into use does not change what nodes do. -/
theorem touch_kinds (w : Site) (rule : RuleId) (partition : PartitionId) (e? : Option Expiration)
    (x : NodeId) : (w.touch rule partition e? x).base.network.kinds = w.base.network.kinds := by
  funext y
  rw [Network.kinds, touch_nodes]
  split
  · rw [Option.map_map, show (Node.kind ∘ (·.claimed rule partition e?)) = Node.kind from
      funext fun _ => Node.claimed_kind]
    rfl
  · rfl

/-- What nodes do once a node has been made. -/
theorem make_kinds (w : Site) (rule : RuleId) (partition : PartitionId) (e? : Option Expiration)
    (origin? : Option Origin) {kind : NodeKind} (hnd : (w.base.network.parentsOf kind).Nodup)
    (y : NodeId) : (w.make rule partition e? kind origin?).base.network.kinds y =
      if y = w.base.ids.issue.1 then some kind else w.base.network.kinds y := by
  rw [Network.kinds, make_nodes w rule partition e? origin? hnd]
  split
  · rw [Option.map_some, Node.claimed_kind]
  · split
    · rw [Option.map_map]
      rfl
    · rfl

/-- What is asked for next is noted as it is asked for. -/
theorem Standing.noted_serve (h : w.Standing rule I)
    (hq : q.Follows w.base.config.objectTypeMemory I.steps) (hnoted : w.base.network.Noted W)
    (hposes : ∀ j, q.kind = .join j → (stepKinds I.steps).Poses W q.guardsOut j) :
    Network.Noted
      (w.serve rule partition q.guardsOut (I.wanted rule q) q.expiration? origin?).2.base.network
      W := by
  unfold Site.serve
  split
  · rename_i x hx
    intro y j hj
    rw [touch_kinds] at hj ⊢
    exact hnoted y j hj
  · rename_i hx
    have hnd := wanted_parents_nodup h.stands hq
    have hkinds := make_kinds w rule partition q.expiration? origin? hnd
    have hfresh : w.base.network.kinds w.base.ids.issue.1 = none := by
      rw [Network.kinds, h.fresh]
      rfl
    have hw : w.base.network.kinds.Within
        (w.make rule partition q.expiration? (I.wanted rule q) origin?).base.network.kinds := by
      intro y k hk
      rw [hkinds, if_neg (by rintro rfl; rw [hfresh] at hk; cases hk)]
      exact hk
    intro y j hj
    rw [hkinds] at hj
    split at hj
    · -- the new node does what was asked for
      have hwanted := Option.some.inj hj
      rw [Installation.wanted] at hwanted
      cases hk : q.kind with
      | join j₀ =>
        rw [hk] at hwanted
        cases hwanted
        refine ⟨q.guardsOut, hq.cross j₀ hk, Kinds.Poses.mono ?_ hw⟩
        exact (hposes j₀ hk).map h.stands.served rfl rfl
      | _ =>
        rw [hk] at hwanted
        cases hwanted
    · obtain ⟨g, hcross, hj⟩ := hnoted y j hj
      exact ⟨g, hcross, hj.mono hw⟩

/-- Serving requests keeps a network noted. -/
theorem Runs.noted (hr : Runs rule partition w₀ I w) (h₀ : w₀.Standing rule .empty)
    (hnoted : w₀.base.network.Noted W) (hposed : Posed W I.steps) : w.base.network.Noted W := by
  induction hr with
  | start => exact hnoted
  | @step I w q origin? before follows ih =>
    obtain ⟨hposed, hq⟩ := posed_concat.1 hposed
    rw [← before.config_eq] at follows
    exact (before.standing h₀).noted_serve follows (ih hposed) hq

end Site

namespace Kinds

variable {kinds kinds' : Kinds} {x : NodeId} {k : NodeKind} {entry : EntryPoint} {type : Symbol}
variable {ts : List FieldTest}

/-- Where no node is without its sources, the facts of those that are left are
    what they were. -/
theorem Facts.of_within (h : kinds.Facts x entry type ts) (hw : kinds'.Within kinds)
    (hup : ∀ y k, kinds' y = some k → ∀ s ∈ k.sources, ∃ k', kinds' s = some k')
    (hx : kinds' x = some k) : kinds'.Facts x entry type ts := by
  induction h generalizing k with
  | root kind =>
    cases kind.symm.trans (hw _ _ hx)
    exact .root hx
  | @alpha x source _ _ _ test kind _ ih =>
    cases kind.symm.trans (hw _ _ hx)
    obtain ⟨k', hk'⟩ := hup _ _ hx source (by simp [NodeKind.sources])
    exact .alpha hx (ih hk')

end Kinds

theorem Network.Noted.of_within {net net' : Network} {W : Bool → Pattern → Prop}
    (h : net.Noted W) (hwired : net'.Wired) (hw : net'.kinds.Within net.kinds) : net'.Noted W := by
  have hup : ∀ y k, net'.kinds y = some k → ∀ s ∈ k.sources, ∃ k', net'.kinds s = some k' := by
    intro y k hk s hs
    obtain ⟨n, hn, rfl⟩ := Network.kinds_eq_some.1 hk
    obtain ⟨m, hm⟩ := hwired.source hn s hs
    exact ⟨m.kind, Network.kinds_eq_some.2 ⟨m, hm, rfl⟩⟩
  intro x j hj
  obtain ⟨g, hcross, hposes⟩ := h x j (hw _ _ hj)
  obtain ⟨k, hright⟩ := hup x _ hj j.right (by simp [NodeKind.sources])
  refine ⟨g, hcross, ?_⟩
  cases hposes with
  | pattern weighed facts tests => exact .pattern weighed (facts.of_within hw hup hright) tests
  | subnetwork adapter tests =>
    cases adapter.symm.trans (hw _ _ hright)
    exact .subnetwork hright tests

/-- What is asked for as a join, is wanted as one. -/
theorem Installation.wanted_join {I : Installation} {rule : RuleId} {q : Request} {j : Join}
    (h : I.wanted rule q = .join j) : ∃ j₀, q.kind = .join j₀ ∧
      j = { j₀ with left := I.nodeAt j₀.left, right := I.nodeAt j₀.right } := by
  rw [wanted] at h
  cases hq : q.kind with
  | join j₀ =>
    rw [hq] at h
    exact ⟨j₀, rfl, (NodeKind.join.inj h).symm⟩
  | _ =>
    rw [hq] at h
    cases h

/-- The node of a join is noted as it was asked for. -/
theorem Network.Stands.noted_join {net : Network} {config : Config} {rule : RuleId}
    {I : Installation} {W : Bool → Pattern → Prop} {i : Nat} {q : Request} {j : Join}
    (h : net.Stands config rule I) (hapart : Pattern.Apart W) (hnoted : net.Noted W)
    (hposed : Posed W I.steps) (hq : I.steps[i]? = some q) (hj : I.wanted rule q = .join j) :
    ∃ k, net.kinds (I.nodeAt i) = some (.join k) ∧ k.crossProduct = j.crossProduct := by
  obtain ⟨n, hn, hserves⟩ := h.placed hq (h.node_of_step hq)
  rw [hj] at hserves
  obtain ⟨k, hkind⟩ : ∃ k, n.kind = .join k := by
    obtain hkind | ⟨k, -, hkind, -⟩ := NodeKind.serves_cases hserves
    · exact ⟨j, hkind⟩
    · exact ⟨k, hkind⟩
  have hk : net.kinds (I.nodeAt i) = some (.join k) := Network.kinds_eq_some.2 ⟨n, hn, hkind⟩
  obtain ⟨g, hcross, hposes⟩ := hnoted _ k hk
  obtain ⟨j₀, hj₀, hjoin⟩ := Installation.wanted_join hj
  have hasked : net.kinds.Poses W q.guardsOut j :=
    ((hposed i q j₀ hq hj₀).mono (stepKinds_within (List.take_prefix i _))).map h.served
      (by rw [hjoin]) (by rw [hjoin])
  have hwanted : j.crossProduct = JoinTest.noneCounts q.guardsOut j.tests := by
    rw [hjoin]
    exact (h.orderly i q hq).cross j₀ hj₀
  refine ⟨k, hk, ?_⟩
  rw [hcross, hwanted]
  exact hposes.noneCounts_eq hapart hasked (hkind ▸ hserves)

/-! ## Every command -/

namespace RuleBase

variable {base : RuleBase} {W : Bool → Pattern → Prop} {defs : RuleId → Option Rule}
variable {inst : RuleId → Option Installation}

/-- A command keeps a network noted if the patterns that it brings are weighed in
    ways that are allowed. -/
theorem Sound.noted_run (h : base.Sound defs inst) (hnoted : base.network.Noted W) (c : Command)
    (hc : ∀ r ∈ c.brings, r.body.toElement.Within W) : (c.run base).network.Noted W := by
  refine h.run_induction_of_brings (P := fun base => base.network.Noted W) hnoted c ?_ ?_ ?_
    (fun _ _ => hnoted) (fun _ _ => hnoted)
  · intro base base' hnoted hk
    rwa [Network.Noted, hk.kinds_eq]
  · intro base base' defs inst r b built I hr hb hs hnoted hcompiled
    obtain ⟨w, hruns, -, -, hbase'⟩ := hcompiled.served
    obtain ⟨p, hbegun⟩ := base.begun_eq
    have hposed : Posed W I.steps := by
      rw [hcompiled.steps, Rule.blueprint_requests hb]
      exact Rule.posed_requests base.config (hc r hr)
    have hstart : base.begun.2.network.Noted W := by
      rw [hbegun]
      exact hnoted
    rw [hbase']
    exact hruns.noted hs.standing hstart hposed
  · intro base' entry removal hs he hnoted hr
    obtain ⟨-, r, I, -, hI, hreg⟩ := hs.registered he
    refine hnoted.of_within hr.wired fun x k hk => ?_
    obtain ⟨m, hm, rfl⟩ := Network.kinds_eq_some.1 hk
    obtain ⟨n, hn, -, hkind, -⟩ := hr.node hs.houses hI hreg.nodes hm
    exact Network.kinds_eq_some.2 ⟨n, hn, hkind.symm⟩

/-- A network is noted after commands that bring only patterns weighed in ways that
    are allowed. -/
theorem noted_foldl {config : Config} (hmaker : config.maker = .plain) (cs : List Command)
    (hcs : ∀ c ∈ cs, ∀ r ∈ c.brings, r.body.toElement.Within W) :
    (cs.foldl Command.run (empty config)).network.Noted W := by
  induction cs using List.reverseRecOn with
  | nil =>
    intro x j hj
    simp [Network.kinds, empty, Network.empty] at hj
  | append_singleton cs c ih =>
    obtain ⟨hcs, hc⟩ := List.forall_mem_append.1 hcs
    obtain ⟨defs, inst, hs⟩ := (reachable_foldl hmaker cs).sound
    rw [List.foldl_append]
    exact hs.noted_run (ih hcs) c (hc c (List.mem_singleton_self c))

end RuleBase

/-! ## The rule at hand -/

namespace Session

variable {s s₀ t : Session} {r : Rule} {begun : RuleId × PartitionId}

/-- **Each join that a rule gets is noted as it was asked for.**  Let a rule be
    compiled after any commands.  Among all the rules that have been brought, let no
    pattern that only guards relate to earlier ones, where they count, be about the
    same facts as one that nothing else relates where they do not.  Then what the
    rule asks for has been served, up to where attaching it fails if it does; and the
    node that it gets for a join, made or shared, is noted as a cross product just
    if the wanted join is. -/
theorem joins_noted {config : Config} (hmaker : config.maker = .plain) {cs : List Command}
    (hapart : Pattern.Apart (Rule.Weigh (r :: cs.flatMap Command.brings))) (hidle : s.Idle)
    (hbase : s.base = cs.foldl Command.run (.empty config))
    (hbegin : beginRule r s = .ok begun s₀) (hl : Leaves (attachRule r) s₀ t) :
    ∃ I : Installation, I.steps = r.requests s.base.config ∧
      t.Served ⟨s.base.begun.2, []⟩ begun.1 begun.2 I ∧
      ∀ (i : Nat) (q : Request) (j : Join), I.steps[i]? = some q → I.wanted begun.1 q = .join j →
        ∃ k, t.base.network.kinds (I.nodeAt i) = some (.join k) ∧
          k.crossProduct = j.crossProduct := by
  let W := Rule.Weigh (r :: cs.flatMap Command.brings)
  have hwithin : ∀ r' ∈ r :: cs.flatMap Command.brings, r'.body.toElement.Within W :=
    fun r' hr' g p hp => ⟨r', hr', hp⟩
  have hcommands : ∀ c ∈ cs, ∀ r' ∈ c.brings, r'.body.toElement.Within W := fun c hc r' hr' =>
    hwithin r' (List.mem_cons_of_mem _ (List.mem_flatMap.2 ⟨c, hc, hr'⟩))
  have hreachable := RuleBase.reachable_foldl hmaker cs
  have hnoted := RuleBase.noted_foldl hmaker cs hcommands
  rw [← hbase] at hreachable hnoted
  obtain ⟨defs, inst, hs⟩ := hreachable.sound
  have h₀ := hs.standing
  obtain ⟨⟨⟩, rfl⟩ := hidle.eq_of_beginRule hbegin
  obtain ⟨I, hserved, hsteps⟩ := hidle.between_begun.requests h₀ hl
  obtain ⟨p, hbegun⟩ := s.base.begun_eq
  have hconfig : s.base.begun.2.config = s.base.config := by rw [hbegun]
  have hstart : s.base.begun.2.network.Noted W := by
    rw [hbegun]
    exact hnoted
  have hsteps : I.steps = r.requests s.base.config := hconfig ▸ hsteps
  have hposed : Posed W I.steps := hsteps ▸ Rule.posed_requests _ (hwithin r List.mem_cons_self)
  have hleft : t.base.network.Noted W := Site.Runs.noted hserved h₀ hstart hposed
  have hstands := (Site.Runs.standing hserved h₀).stands
  exact ⟨I, hsteps, hserved, fun i q j => hstands.noted_join hapart hleft hposed⟩

end Session

/-- A rule that is a universal statement with a rest of two patterns, the second
    one related to the base. -/
def Rule.comparing (name : String) : Rule where
  name
  body := ⟨.and, [.every { offset := 0, type := 2 }
    [{ offset := 1, type := 2 },
      { offset := 2, type := 2, ownJoinTests := [.field 3 .equal ⟨0, 3⟩] }]]⟩

/-- A rule that is a universal statement about a type, with a rest of two patterns
    that only guards relate to the base. -/
def Rule.guarding (name : String) (type : Symbol) : Rule where
  name
  body := ⟨.and, [.every { offset := 0, type } [{ offset := 1, type }, { offset := 2, type }]]⟩

theorem Element.weighs_every {conn : Connective} {base p : Pattern} {rest : List Pattern}
    {g : Bool} (h : (Element.group conn [.every base rest]).Weighs g p) :
    g = (Universal.of base rest).guardsOnly ∧
      p ∈ (Universal.of base rest).base :: (Universal.of base rest).rest := by
  have honly {e : Element} (inside : Occurs e (.group conn [.every base rest]))
      (hgroup : ∀ members, e ≠ .group conn members) : e = .every base rest := by
    obtain heq | ⟨x, hx, inside⟩ := Element.occurs_group.1 inside
    · exact absurd heq (hgroup _)
    · rw [List.mem_singleton.1 hx] at inside
      cases inside
      rfl
  cases h with
  | pattern inside => exact absurd (honly inside (by simp)) (by simp)
  | every inside mem =>
    cases honly inside (by simp)
    exact ⟨rfl, mem⟩

/-- Guards count in the first kind of rule. -/
theorem Rule.weighs_comparing {name : String} {g : Bool} {p : Pattern}
    (h : (Rule.comparing name).body.toElement.Weighs g p) : g = false ∧ p.type = 2 := by
  obtain ⟨rfl, hp⟩ := Element.weighs_every h
  refine ⟨rfl, ?_⟩
  simp only [Universal.of, List.isEmpty_cons, Bool.false_eq_true, if_false, List.map_cons,
    List.map_nil, beq_self_eq_true, if_true, List.mem_cons, List.not_mem_nil, or_false] at hp
  obtain rfl | rfl | rfl := hp <;> rfl

/-- They do not in the second one. -/
theorem Rule.weighs_guarding {name : String} {type : Symbol} {g : Bool} {p : Pattern}
    (h : (Rule.guarding name type).body.toElement.Weighs g p) : g = true ∧ p.type = type := by
  obtain ⟨rfl, hp⟩ := Element.weighs_every h
  refine ⟨rfl, ?_⟩
  simp only [Universal.of, List.isEmpty_cons, Bool.false_eq_true, if_false, List.map_cons,
    List.map_nil, beq_self_eq_true, if_true, List.mem_cons, List.not_mem_nil, or_false] at hp
  obtain rfl | rfl | rfl := hp <;> rfl

/-- The rules that are about different types are apart. -/
theorem Rule.apart_comparing : Pattern.Apart (Rule.Weigh
    [.comparing "third", .comparing "first", .guarding "second" 5]) := by
  have hrules {r : Rule} (hr : r ∈ [.comparing "third", .comparing "first", .guarding "second" 5]) :
      (∃ name, r = .comparing name) ∨ r = .guarding "second" 5 := by
    simp only [List.mem_cons, List.not_mem_nil, or_false] at hr
    obtain rfl | rfl | rfl := hr
    · exact .inl ⟨_, rfl⟩
    · exact .inl ⟨_, rfl⟩
    · exact .inr rfl
  rintro p p' ⟨r, hr, hp⟩ ⟨r', hr', hp'⟩ - - hsame
  have htype : p.type = 2 := by
    obtain ⟨name, rfl⟩ | rfl := hrules hr
    · exact (Rule.weighs_comparing hp).2
    · exact absurd (Rule.weighs_guarding hp).1 (by decide)
  have htype' : p'.type = 5 := by
    obtain ⟨name, rfl⟩ | rfl := hrules hr'
    · exact absurd (Rule.weighs_comparing hp').1 (by decide)
    · exact (Rule.weighs_guarding hp').2
  have hdiffer := hsame.type
  rw [htype, htype'] at hdiffer
  exact absurd hdiffer (by decide)

namespace Session

theorem start_base (base : RuleBase) : (start base).base = base := rfl

/-- The session in which a rule has been begun after the first two. -/
def comparing : Session :=
  (start ([.add (.comparing "first"), .add (.guarding "second" 5)].foldl Command.run
    (.empty {}))).begun (.comparing "third")

/-- The session in which it has been attached. -/
def compared : Session := left (attachRule (.comparing "third") comparing)

/-- Guards count in the first and the third rule, and do not in the second one,
    which is about another type.  The third rule shares all that was made for the
    first one but its terminal. -/
theorem joins_noted_comparing :
    let cs : List Command := [.add (.comparing "first"), .add (.guarding "second" 5)]
    let base := cs.foldl Command.run (.empty {})
    Pattern.Apart (Rule.Weigh (.comparing "third" :: cs.flatMap Command.brings)) ∧
      beginRule (.comparing "third") (start base) = .ok (2, .shared) comparing ∧
      Leaves (attachRule (.comparing "third")) comparing compared ∧
      (compared.attached.filter (!·.created)).map (·.id) = [0, 1, 2, 3, 4, 5, 6, 7, 8, 9, 10] ∧
      ∃ I : Installation, I.steps = (Rule.comparing "third").requests base.config ∧
        compared.Served ⟨base.begun.2, []⟩ 2 .shared I ∧
        ∀ (i : Nat) (q : Request) (j : Join), I.steps[i]? = some q → I.wanted 2 q = .join j →
          ∃ k, compared.base.network.kinds (I.nodeAt i) = some (.join k) ∧
            k.crossProduct = j.crossProduct := by
  intro cs base
  obtain ⟨defs, inst, hs⟩ := (@RuleBase.reachable_foldl {} rfl cs).sound
  have hidle : (start base).Idle := hs.idle
  have hnumber : (start base).base.nextRule = 2 := by decide +kernel
  have hpartition : (start base).base.begun.1 = .shared := by decide +kernel
  have hfree : (Rule.comparing "third").name ∉ (start base).base.names := by decide +kernel
  have hbegin := hidle.beginRule_ok hfree
  rw [hnumber, hpartition] at hbegin
  have hleaves : Leaves (attachRule (.comparing "third")) comparing compared := leaves_left _ _
  have hshared : (compared.attached.filter (!·.created)).map (·.id) =
      [0, 1, 2, 3, 4, 5, 6, 7, 8, 9, 10] := by decide +kernel
  have hapart : Pattern.Apart (Rule.Weigh (.comparing "third" :: cs.flatMap Command.brings)) :=
    Rule.apart_comparing
  have hbase : (start base).base = base := start_base base
  have hnoted := @joins_noted (start base) comparing compared (.comparing "third") (2, .shared) {}
    rfl cs hapart hidle hbase hbegin hleaves
  rw [hbase] at hnoted
  exact ⟨hapart, hbegin, hleaves, hshared, hnoted⟩

end Session

/-- The join that is there already where a joining asks for one. -/
def Joining.shared? (j : Joining) : Option Join :=
  match Session.attachBeta (.join j.candidate) (j.session.expirationOf j.pattern) j.asking with
  | .ok x _ => match j.session.base.network.kinds x with
    | some (.join k) => some k
    | _ => none
  | .error .. => none

theorem Joining.exists_of_shared? {j : Joining} {k : Join} (h : j.shared? = some k) : ∃ x t,
    Session.attachBeta (.join j.candidate) (j.session.expirationOf j.pattern) j.asking = .ok x t ∧
      j.session.base.network.kinds x = some (.join k) := by
  unfold shared? at h
  split at h
  · rename_i x t hx
    split at h
    · rename_i k' hk
      cases h
      exact ⟨x, t, hx, hk⟩
    · cases h
  · cases h

namespace Session

/-- The second rule shares a join that the first one has got.  Only a guard is
    tested there; it counted for the first rule, and does not for the second. -/
theorem not_joins_noted_guarding :
    let base := Command.run (.empty {}) (.add (.comparing "first"))
    base.Reachable ∧ ∃ j ∈ Joining.ofRun (.guarding "second" 2) (start base), ∃ x t k,
      attachBeta (.join j.candidate) (j.session.expirationOf j.pattern) j.asking = .ok x t ∧
        j.session.base.network.kinds x = some (.join k) ∧
        k.crossProduct = false ∧ j.candidate.crossProduct = true := by
  intro base
  have hshares : ((Joining.ofRun (.guarding "second" 2) (start base)).any fun j =>
      j.candidate.crossProduct && j.shared?.any (!·.crossProduct)) = true := by decide +kernel
  obtain ⟨j, hj, hcross⟩ := List.any_eq_true.1 hshares
  obtain ⟨hcandidate, hshared⟩ := Bool.and_eq_true_iff.1 hcross
  obtain ⟨k, hk, hnot⟩ := (Option.any_eq_true _ _).1 hshared
  obtain ⟨x, t, hx, hkind⟩ := Joining.exists_of_shared? hk
  refine ⟨.step (.empty rfl) _, j, hj, x, t, k, hx, hkind, ?_, hcandidate⟩
  simpa using hnot

end Session

end RuleNet
