/-
  RuleNet — the origins of nodes do not matter.

  A node remembers the construct that it was first made for, and no step of
  compiling ever asks for it.  Leaving the origins out commutes with whatever is
  done to a network, so two rule bases that differ in the origins only are led by
  the same requests, or by undoing them, to rule bases that do
  (`Site.Runs.unmarked_eq`, `RuleBase.unmarked_rollback`).
-/
import RuleNet.Proofs.Compiling

namespace RuleNet

/-! ## Networks without origins -/

/-- The node, but for the construct that it was made for. -/
def Node.unmarked (n : Node) : Node := { n with origin? := none }

namespace Network

variable {net : Network} {n : Node} {x : NodeId} {f : Node → Node} {kind : NodeKind}

/-- The network, but for the origins of its nodes. -/
def unmarked (net : Network) : Network := { net with nodes := net.nodes.map fun _ n => n.unmarked }

theorem getElem?_unmarked (net : Network) (x : NodeId) :
    net.unmarked.nodes[x]? = net.nodes[x]?.map Node.unmarked :=
  Std.ExtTreeMap.getElem?_map

theorem map_modify {nodes : Std.ExtTreeMap NodeId Node} {f g : Node → Node}
    (hf : ∀ n, g (f n) = f (g n)) (x : NodeId) :
    (nodes.modify x f).map (fun _ => g) = (nodes.map fun _ => g).modify x f := by
  refine Std.ExtTreeMap.ext_getElem? fun y => ?_
  simp only [Std.ExtTreeMap.getElem?_map, Std.ExtTreeMap.getElem?_modify, Std.compare_eq_iff_eq]
  split
  · subst y
    cases nodes[x]? <;> simp [hf]
  · rfl

theorem map_foldl_modify {f g : Node → Node} (hf : ∀ n, g (f n) = f (g n)) (ps : List NodeId)
    (nodes : Std.ExtTreeMap NodeId Node) :
    (ps.foldl (fun nodes p => nodes.modify p f) nodes).map (fun _ => g) =
      ps.foldl (fun nodes p => nodes.modify p f) (nodes.map fun _ => g) := by
  induction ps generalizing nodes with
  | nil => rfl
  | cons p ps ih => rw [List.foldl_cons, ih, map_modify hf, List.foldl_cons]

theorem unmarked_modify (hf : ∀ n, (f n).unmarked = f n.unmarked) (x : NodeId) :
    (net.modify x f).unmarked = net.unmarked.modify x f :=
  congrArg (Network.mk · net.roots net.size) (map_modify hf x)

theorem unmarked_link (net : Network) (n : Node) :
    (net.link n).unmarked = net.unmarked.link n.unmarked := by
  have hfold := map_foldl_modify (f := (·.addSink n.id)) (g := Node.unmarked) (fun _ => rfl)
    (net.parentsOf n.kind) net.nodes
  have hinsert {nodes : Std.ExtTreeMap NodeId Node} :
      (nodes.insert n.id n).map (fun _ => Node.unmarked) =
        (nodes.map fun _ => Node.unmarked).insert n.id n.unmarked := by
    refine Std.ExtTreeMap.ext_getElem? fun y => ?_
    simp only [Std.ExtTreeMap.getElem?_map, Std.ExtTreeMap.getElem?_insert]
    split <;> rfl
  unfold link
  exact congrArg (Network.mk · _ _) (hinsert.trans (congrArg (·.insert n.id n.unmarked) hfold))

theorem unmarked_unlink (net : Network) (n : Node) :
    (net.unlink n).unmarked = net.unmarked.unlink n.unmarked := by
  have hfold := map_foldl_modify (f := (·.dropSink n.id)) (g := Node.unmarked) (fun _ => rfl)
    (net.parentsOf n.kind) (net.nodes.erase n.id)
  have herase : (net.nodes.erase n.id).map (fun _ => Node.unmarked) =
      (net.nodes.map fun _ => Node.unmarked).erase n.id := by
    refine Std.ExtTreeMap.ext_getElem? fun y => ?_
    simp only [Std.ExtTreeMap.getElem?_map, Std.ExtTreeMap.getElem?_erase]
    split <;> rfl
  rw [herase] at hfold
  unfold unlink
  exact congrArg (Network.mk · _ _) hfold

theorem unmarked_remove (net : Network) (x : NodeId) : net.unmarked.remove x =
    (net.remove x).map fun removed => (removed.1.unmarked, removed.2.unmarked) := by
  unfold remove require
  rw [getElem?_unmarked]
  cases net.nodes[x]? with
  | none => rfl
  | some n =>
    change (if n.sinks.isEmpty then _ else _) = Except.map _ (if n.sinks.isEmpty then _ else _)
    split
    · rw [← unmarked_unlink]
      rfl
    · rfl

theorem unmarked_sinksOf (net : Network) (x : NodeId) :
    net.unmarked.sinksOf x = (net.sinksOf x).map Node.unmarked := by
  unfold sinksOf
  rw [getElem?_unmarked]
  cases net.nodes[x]? with
  | none => rfl
  | some n =>
    simp only [Option.map_some, List.map_filterMap]
    exact List.filterMap_congr fun y _ => getElem?_unmarked net y

theorem unmarked_existing (net : Network) (config : Config) (g : Bool) (wanted : NodeKind) :
    net.unmarked.existing config g wanted = net.existing config g wanted := by
  have hserving : net.unmarked.findServing g wanted = net.findServing g wanted := by
    unfold findServing
    cases wanted.sources.head? with
    | none => rfl
    | some s =>
      simp only [Option.bind_eq_bind, Option.bind_some, unmarked_sinksOf, List.find?_map,
        Option.bind_map]
      rfl
  unfold existing
  rw [hserving]
  rfl

end Network

/-! ## Rule bases without origins -/

namespace RuleBase

variable {base : RuleBase} {rule : RuleId}

/-- The rule base, but for the origins of its nodes. -/
def unmarked (base : RuleBase) : RuleBase := { base with network := base.network.unmarked }

theorem unmarked_undo (base : RuleBase) (rule : RuleId) (a : Attached) :
    (base.undo rule a).unmarked = base.unmarked.undo rule a := by
  unfold undo
  split
  · rw [show base.unmarked.network = base.network.unmarked from rfl,
      base.network.unmarked_remove a.id]
    cases base.network.remove a.id with
    | error _ => rfl
    | ok removed =>
      simp only [Except.map, releaseId, unmarked]
      cases base.ids.release a.id <;> rfl
  · exact congrArg (fun network => { base with network })
      (Network.unmarked_modify (f := (·.undone rule a)) (fun _ => rfl) a.id)

theorem unmarked_rollback (base : RuleBase) (rule : RuleId) (as : List Attached) :
    (base.rollback rule as).unmarked = base.unmarked.rollback rule as := by
  induction as with
  | nil => rfl
  | cons a as ih =>
    rw [rollback, List.foldr_cons, unmarked_undo, ← rollback, ih]
    rfl

end RuleBase

/-! ## Serving requests -/

namespace Site

variable {w w' w₀ : Site} {rule : RuleId} {partition : PartitionId} {I J : Installation}

/-- The site, but for the origins of nodes. -/
def unmarked (w : Site) : Site := ⟨w.base.unmarked, w.attached⟩

theorem unmarked_claimed (n : Node) (rule : RuleId) (partition : PartitionId)
    (e? : Option Expiration) :
    (n.claimed rule partition e?).unmarked = n.unmarked.claimed rule partition e? := by
  have hstamp : ((n.own rule).stamp partition).unmarked = (n.unmarked.own rule).stamp partition := by
    have hof : (n.unmarked.own rule).stampOf partition = (n.own rule).stampOf partition := rfl
    rw [Node.stamp, Node.stamp, hof]
    cases (n.own rule).stampOf partition <;> rfl
  rw [Node.claimed, Node.claimed, ← hstamp]
  cases e? <;> rfl

theorem unmarked_touch (w : Site) (rule : RuleId) (partition : PartitionId) (e? : Option Expiration)
    (x : NodeId) : (w.touch rule partition e? x).unmarked = w.unmarked.touch rule partition e? x := by
  have hnetwork : (w.base.network.modify x (·.claimed rule partition e?)).unmarked =
      w.base.network.unmarked.modify x (·.claimed rule partition e?) :=
    Network.unmarked_modify (fun n => unmarked_claimed n rule partition e?) x
  have hattached : (w.unmarked.touch rule partition e? x).attached =
      (w.touch rule partition e? x).attached := by
    simp only [touch, unmarked, RuleBase.unmarked, Network.getElem?_unmarked]
    cases w.base.network.nodes[x]? <;> rfl
  exact congrArg₂ Site.mk (congrArg (fun network => { w.base with network }) hnetwork)
    hattached.symm

theorem unmarked_make (w : Site) (rule : RuleId) (partition : PartitionId) (e? : Option Expiration)
    (kind : NodeKind) (origin? : Option Origin) :
    (w.make rule partition e? kind origin?).unmarked =
      w.unmarked.make rule partition e? kind none := by
  have hnetwork : ((w.base.network.link { id := w.base.ids.issue.1, kind, origin? }).modify
      w.base.ids.issue.1 (·.claimed rule partition e?)).unmarked =
      (w.base.network.unmarked.link { id := w.base.ids.issue.1, kind }).modify w.base.ids.issue.1
        (·.claimed rule partition e?) := by
    rw [Network.unmarked_modify (fun n => unmarked_claimed n rule partition e?),
      Network.unmarked_link]
    rfl
  exact congrArg (fun network => Site.mk { w.base with network, ids := w.base.ids.issue.2 } _)
    hnetwork

theorem unmarked_serve (w : Site) (rule : RuleId) (partition : PartitionId) (g : Bool)
    (wanted : NodeKind) (e? : Option Expiration) (origin? : Option Origin) :
    w.unmarked.serve rule partition g wanted e? none =
      ((w.serve rule partition g wanted e? origin?).1,
        (w.serve rule partition g wanted e? origin?).2.unmarked) := by
  unfold serve
  rw [show w.unmarked.base.network.existing w.unmarked.base.config g wanted =
    w.base.network.existing w.base.config g wanted from Network.unmarked_existing ..]
  cases w.base.network.existing w.base.config g wanted with
  | some x => exact congrArg (x, ·) (w.unmarked_touch rule partition e? x).symm
  | none => exact congrArg (w.base.ids.issue.1, ·) (w.unmarked_make rule partition e? wanted _).symm

/-- **The same requests are served alike**, whatever constructs they are traced
    back to: they get the same nodes, and the sites differ in origins only. -/
theorem Runs.unmarked_eq (h : Runs rule partition w₀ I w) (h' : Runs rule partition w₀ J w')
    (hsteps : I.steps = J.steps) : I = J ∧ w.unmarked = w'.unmarked := by
  induction h generalizing J w' with
  | start =>
    cases h' with
    | start => exact ⟨rfl, rfl⟩
    | step q origin? before follows => simp [Installation.empty, Installation.snoc] at hsteps
  | @step I w q origin? before follows ih =>
    cases h' with
    | start => simp [Installation.empty, Installation.snoc] at hsteps
    | @step J w' q' origin?' before' follows' =>
      have hconcat : I.steps ++ [q] = J.steps ++ [q'] := hsteps
      obtain ⟨hI, rfl⟩ := List.append_singleton_inj.1 hconcat
      obtain ⟨rfl, hw⟩ := ih before' hI
      have hserve := w.unmarked_serve rule partition q.guardsOut (I.wanted rule q) q.expiration?
        origin?
      rw [hw, w'.unmarked_serve rule partition q.guardsOut (I.wanted rule q) q.expiration?
        origin?', Prod.mk.injEq] at hserve
      exact ⟨by rw [hserve.1], hserve.2.symm⟩

/-- Undoing the same requests leaves the same behind, but for origins. -/
theorem Runs.undone_eq (h : Runs rule partition w₀ I w) (h' : Runs rule partition w₀ J w')
    (hsteps : I.steps = J.steps) : (w'.base.rollback rule w'.attached).unmarked =
      (w.base.rollback rule w.attached).unmarked := by
  obtain ⟨hbase, hattached⟩ : w.base.unmarked = w'.base.unmarked ∧ w.attached = w'.attached :=
    Site.mk.inj (h.unmarked_eq h' hsteps).2
  rw [RuleBase.unmarked_rollback, RuleBase.unmarked_rollback, hbase, hattached]

end Site

/-! ## Compiling rules -/

/-- What is left of a rule that has been compiled depends on its blueprint, its
    name and its kind, but for origins. -/
theorem RuleBase.Compiled.unmarked_eq {base base₁ base₂ : RuleBase} {r r' : Rule} {b : Blueprint}
    {built₁ built₂ : Session.Built} {I J : Installation} (h₁ : base.Compiled r b built₁ I base₁)
    (h₂ : base.Compiled r' b built₂ J base₂) (hname : r'.name = r.name)
    (hquery : r'.isQuery = r.isQuery) : built₂ = built₁ ∧ base₂.unmarked = base₁.unmarked := by
  obtain ⟨w₁, hruns₁, hcreated₁, hshared₁, hbase₁⟩ := h₁.served
  obtain ⟨w₂, hruns₂, hcreated₂, hshared₂, hbase₂⟩ := h₂.served
  obtain ⟨rfl, hw⟩ := hruns₁.unmarked_eq hruns₂ (h₁.steps.trans h₂.steps.symm)
  obtain ⟨hbase, hattached⟩ : w₂.base.unmarked = w₁.base.unmarked ∧ w₂.attached = w₁.attached :=
    Site.mk.inj hw.symm
  constructor
  · have hrule := h₂.rule.trans h₁.rule.symm
    have hpartition := h₂.partition.trans h₁.partition.symm
    have hterminals := h₂.terminals_eq.trans h₁.terminals_eq.symm
    have hcreated : built₂.created = built₁.created := by rw [hcreated₁, hcreated₂, hattached]
    have hshared : built₂.shared = built₁.shared := by rw [hshared₁, hshared₂, hattached]
    cases built₁
    cases built₂
    exact Session.Built.mk.injEq .. ▸ ⟨hrule, hpartition, hterminals, hcreated, hshared⟩
  · let leaves (rebuilt : RuleBase) (name : String) (query : Bool) (nodes : List NodeId) : RuleBase :=
      { rebuilt with
        rules := base.rules.insert base.nextRule ⟨base.nextRule, name, query, base.begun.1, nodes⟩
        names := base.names.insert name base.nextRule
        journal := base.journal ++ base.memories.map fun memory =>
          ⟨memory, .attached, base.nextRule, nodes⟩ }
    have hleaves : leaves w₂.base.unmarked r'.name r'.isQuery (w₂.attached.map (·.id)) =
        leaves w₁.base.unmarked r.name r.isQuery (w₁.attached.map (·.id)) := by
      rw [hbase, hname, hquery, hattached]
    rw [hbase₁, hbase₂]
    exact hleaves

namespace Session

variable {s : Session} {r : Rule}

/-- A rule that cannot be drawn leaves behind what undoing leaves of what was
    drawn of it. -/
theorem compile_undone (hs : s.Idle)
    (h₀ : Site.Standing ⟨s.base.begun.2, []⟩ s.base.nextRule .empty) (hfree : r.name ∉ s.base.names)
    {f : Fault} {d : Draft} (hd : Draw.rule s.base.config r .empty = .error f d) : ∃ t p w I,
      compile r s = .error ⟨f, some p⟩ t ∧
      Site.Runs s.base.nextRule s.base.begun.1 ⟨s.base.begun.2, []⟩ I w ∧ I.steps = d.steps ∧
      t.base = w.base.rollback s.base.nextRule w.attached := by
  obtain ⟨p, hbegun⟩ := s.base.begun_eq
  have hconfig : s.base.config = s.base.begun.2.config := by rw [hbegun]
  have hagree := (hs.between_begun (r := r)).agree_rule h₀
  rw [hconfig] at hd
  rw [hd] at hagree
  cases hattach : attachRule r (s.begun r) with
  | ok terminals t =>
    rw [hattach] at hagree
    cases hagree
  | error f' t =>
    rw [hattach] at hagree
    cases hagree with
    | error hfailed =>
      obtain ⟨I, hsteps, hserved⟩ := hfailed
      obtain ⟨u, hundone, hbase⟩ := orUndone_error s.base.nextRule hattach
      refine ⟨u, t.place, ⟨t.base, t.attached⟩, I, ?_, hserved, hsteps, hbase⟩
      rw [compile, bind_ok (placeless_ok (hs.beginRule_ok hfree))]
      exact bind_error hundone

end Session

end RuleNet
