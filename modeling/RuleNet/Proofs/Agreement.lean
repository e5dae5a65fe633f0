/-
  RuleNet — sessions that follow a blueprint.

  A step of a session and a step of drawing agree if both fail with the same
  fault, or both come to an end and the session has served what was drawn
  (`Agree`).  The session then still matches the draft (`Stage.Matches`): the
  scope is the same, and tuples are taken from the node that the step of the
  draft got.

  Attaching a single node agrees with requesting it (`Matches.agree_root`,
  `Matches.agree_node`): the network refuses nothing that a blueprint asks for.
-/
import RuleNet.Proofs.Site
import RuleNet.Session.Attach

namespace RuleNet

/-! ## Two runs that agree -/

/-- Two runs end alike: both well, or with the same fault. -/
inductive Agree {α β : Type} (fails : Session → Draft → Prop)
    (post : α → Session → β → Draft → Prop) :
    EStateM.Result Fault Session α → EStateM.Result Fault Draft β → Prop where
  | ok {a : α} {s : Session} {b : β} {d : Draft} (h : post a s b d) :
      Agree fails post (.ok a s) (.ok b d)
  | error {f : Fault} {s : Session} {d : Draft} (h : fails s d) :
      Agree fails post (.error f s) (.error f d)

namespace Agree

variable {α β γ δ : Type} {F : Session → Draft → Prop} {s s' : Session} {d d' : Draft}
variable {P : α → Session → β → Draft → Prop} {Q : γ → Session → δ → Draft → Prop}
variable {m : Compile α} {p : Draw β} {k : α → Compile γ} {l : β → Draw δ} {a : α} {b : β}

theorem of_ok {r : EStateM.Result Fault Draft β} (h : Agree F P (.ok a s) r) :
    ∃ b d, r = .ok b d ∧ P a s b d := by
  cases h with
  | ok h => exact ⟨_, _, rfl, h⟩

theorem of_error {f : Fault} {r : EStateM.Result Fault Draft β} (h : Agree F P (.error f s) r) :
    ∃ d, r = .error f d ∧ F s d := by
  cases h with
  | error h => exact ⟨_, rfl, h⟩

theorem of_drawn {r : EStateM.Result Fault Session α} (h : Agree F P r (.ok b d)) :
    ∃ a s, r = .ok a s ∧ P a s b d := by
  cases h with
  | ok h => exact ⟨_, _, rfl, h⟩

theorem imp {r : EStateM.Result Fault Session α} {t : EStateM.Result Fault Draft β}
    {F' : Session → Draft → Prop} {P' : α → Session → β → Draft → Prop} (h : Agree F P r t)
    (hf : ∀ {s d}, F s d → F' s d) (hp : ∀ {a s b d}, P a s b d → P' a s b d) : Agree F' P' r t := by
  cases h with
  | ok h => exact .ok (hp h)
  | error h => exact .error (hf h)

theorem mono {r : EStateM.Result Fault Session α} {t : EStateM.Result Fault Draft β}
    {P' : α → Session → β → Draft → Prop} (h : Agree F P r t)
    (hp : ∀ {a s b d}, P a s b d → P' a s b d) : Agree F P' r t :=
  h.imp id hp

theorem bind (h : Agree F P (m s) (p d))
    (hk : ∀ {a s' b d'}, P a s' b d' → Agree F Q (k a s') (l b d')) :
    Agree F Q ((m >>= k) s) ((p >>= l) d) := by
  change Agree F Q (EStateM.bind m k s) (EStateM.bind p l d)
  unfold EStateM.bind
  revert h
  generalize m s = r, p d = t
  intro h
  cases h with
  | ok h => exact hk h
  | error h => exact .error h

/-- A step of the session alone. -/
theorem left {r : EStateM.Result Fault Draft δ} (hm : m s = .ok a s')
    (h : Agree F Q (k a s') r) : Agree F Q ((m >>= k) s) r := by
  change Agree F Q (EStateM.bind m k s) r
  unfold EStateM.bind
  rwa [hm]

/-- A step of the drawing alone. -/
theorem right {r : EStateM.Result Fault Session γ} (hp : p d = .ok b d')
    (h : Agree F Q r (l b d')) : Agree F Q r ((p >>= l) d) := by
  change Agree F Q r (EStateM.bind p l d)
  unfold EStateM.bind
  rwa [hp]

/-- Steps of the session alone at the end, which do not fail. -/
theorem last {r : EStateM.Result Fault Draft δ} {P : α → Session → δ → Draft → Prop}
    (h : Agree F P (m s) r)
    (hk : ∀ {a s' b d'}, P a s' b d' → ∃ c t, k a s' = .ok c t ∧ Q c t b d') :
    Agree F Q ((m >>= k) s) r := by
  change Agree F Q (EStateM.bind m k s) r
  unfold EStateM.bind
  revert h
  generalize m s = u
  intro h
  cases h with
  | ok h =>
    obtain ⟨c, t, hk, hq⟩ := hk h
    simp only [hk]
    exact .ok hq
  | error h => exact .error h

/-- What the drawing returns may be dropped. -/
theorem drop {r : EStateM.Result Fault Session α} (h : Agree F P r (p d)) :
    Agree F (fun a s _ d => ∃ b, P a s b d) r ((p >>= fun _ => pure ()) d) := by
  change Agree F _ r (EStateM.bind p _ d)
  unfold EStateM.bind
  revert h
  generalize p d = u
  intro h
  cases h with
  | ok h => exact .ok ⟨_, h⟩
  | error h => exact .error h

/-- The same check on both sides. -/
theorem check {ε : Type} {k : ε → Compile γ} {l : ε → Draw δ} (e : Except Fault ε) (hF : F s d)
    (h : ∀ a, e = .ok a → Agree F Q (k a s) (l a d)) :
    Agree F Q ((Session.orFail e >>= k) s) ((ofExcept e >>= l) d) := by
  cases e with
  | error f => exact .error hF
  | ok a => exact h a rfl

end Agree

/-! ## Matching a session and a draft -/

namespace Installation

/-- The rule has been built further. -/
structure Below (I J : Installation) : Prop where
  steps : I.steps <+: J.steps
  nodes : I.nodes <+: J.nodes

/-- A step got a node, from which something can be taken. -/
def Got (I : Installation) (supply : NodeKind.Supply) (x : NodeId) (i : Nat) : Prop :=
  I.nodes[i]? = some x ∧ ∃ q, I.steps[i]? = some q ∧ q.kind.supplies supply

variable {I J K : Installation} {q : Request} {x : NodeId} {i : Nat} {supply : NodeKind.Supply}

theorem Below.refl (I : Installation) : I.Below I := ⟨List.prefix_rfl, List.prefix_rfl⟩

theorem Below.trans (h : I.Below J) (h' : J.Below K) : I.Below K :=
  ⟨h.steps.trans h'.steps, h.nodes.trans h'.nodes⟩

theorem below_snoc (I : Installation) (q : Request) (x : NodeId) : I.Below (I.snoc q x) :=
  ⟨List.prefix_append _ _, List.prefix_append _ _⟩

theorem Below.node (hb : I.Below J) (hx : I.nodes[i]? = some x) : J.nodes[i]? = some x := by
  obtain ⟨hi, rfl⟩ := List.getElem?_eq_some_iff.1 hx
  exact List.prefix_iff_getElem?.1 hb.nodes i hi

theorem Below.step {q : Request} (hb : I.Below J) (hq : I.steps[i]? = some q) :
    J.steps[i]? = some q := by
  obtain ⟨hi, rfl⟩ := List.getElem?_eq_some_iff.1 hq
  exact List.prefix_iff_getElem?.1 hb.steps i hi

theorem Got.mono (h : I.Got supply x i) (hb : I.Below J) : J.Got supply x i := by
  obtain ⟨hx, q, hq, hs⟩ := h
  exact ⟨hb.node hx, q, hb.step hq, hs⟩

theorem rel_got_mono {x? : Option NodeId} {i? : Option Nat} (h : Option.Rel (I.Got supply) x? i?)
    (hb : I.Below J) : Option.Rel (J.Got supply) x? i? := by
  cases h with
  | some h => exact .some (h.mono hb)
  | none => exact .none

theorem Got.nodeAt (h : I.Got supply x i) : I.nodeAt i = x := nodeAt_eq h.1

theorem Got.objects (h : I.Got .facts x i) : I.Got .objects x i := by
  obtain ⟨hx, q, hq, hs⟩ := h
  exact ⟨hx, q, hq, NodeKind.supplies_objects_of_facts hs⟩

/-- A request may follow if each of its inputs has been got. -/
theorem follows_of_got {memory : Bool} (hin : ∀ i ∈ q.kind.inputs, ∃ x, I.Got i.2 x i.1)
    (hroot : q.kind.parentKey? = none)
    (hcross : ∀ j, q.kind = .join j → j.crossProduct = JoinTest.noneCounts q.guardsOut j.tests) :
    q.Follows memory I.steps where
  input i hi := by
    obtain ⟨x, -, p, hp, hs⟩ := hin i hi
    exact ⟨p, hp, hs⟩
  parent key hkey := by rw [hroot] at hkey; cases hkey
  memory entry type m hk := by rw [hk] at hroot; cases hroot
  cross := hcross

end Installation

/-- What stays the same while a step is attached. -/
structure Stage where
  site : Site
  rule : RuleId
  partition : PartitionId
  /-- What stays the same for the drawing. -/
  setting : Setting
  tupleMemory : Bool
  query : Bool
  branch? : Option Branch
  elements : Stack Element
  trail : Stack Origin

/-- What a session has served, seen from where the rule was begun. -/
def Session.Served (s : Session) (site : Site) (rule : RuleId) (partition : PartitionId)
    (I : Installation) : Prop :=
  Site.Runs rule partition site I ⟨s.base, s.attached⟩

/-- Where a step fails, what was drawn has been served. -/
def Session.Failed (site : Site) (rule : RuleId) (partition : PartitionId) (s : Session)
    (d : Draft) : Prop :=
  ∃ I, I.steps = d.steps ∧ s.Served site rule partition I

/-- The failures of the steps at a stage. -/
def Stage.Fails (g : Stage) : Session → Draft → Prop := Session.Failed g.site g.rule g.partition

/-- A session that has served just what was drawn. -/
structure Stage.Matches (g : Stage) (s : Session) (d : Draft) (I : Installation) : Prop where
  served : s.Served g.site g.rule g.partition I
  /-- It was just that. -/
  steps : I.steps = d.steps
  memory : g.setting.memory = g.site.base.config.objectTypeMemory
  maker : s.maker = .plain
  memories : s.memories? = none
  ruleId : s.ruleId? = some g.rule
  partition : s.partition?.getD .shared = g.partition
  objectTypeMemory : s.objectTypeMemory = g.setting.memory
  distances : s.distances? = g.setting.distances?
  guardsOut : s.guardsOut = g.setting.guardsOut
  tupleMemory : s.tupleMemory = g.tupleMemory
  query : s.query = g.query
  branch : s.branch? = g.branch?
  elements : s.elements = g.elements
  trail : s.trail = g.trail
  scope : s.scope = d.scope
  /-- The tuple has as many facts as there are patterns in scope. -/
  offset : s.offset = d.scope.length
  recent : s.recent = d.recent
  /-- Tuples are taken from the node that the step got. -/
  tuple : Option.Rel (I.Got .tuples) s.tupleSource? d.tuple?

namespace Stage

variable {g : Stage} {s s' : Session} {d d' : Draft} {I J : Installation} {q : Request}

/-- What holds after a step that ends well: the session matches the draft, and
    what came of the step is related as told. -/
def Post {α β : Type} (g : Stage) (R : α → β → Draft → Installation → Prop) :
    α → Session → β → Draft → Prop :=
  fun a s b d => ∃ I, g.Matches s d I ∧ R a b d I

theorem Matches.fails (h : g.Matches s d I) : g.Fails s d := ⟨I, h.steps, h.served⟩

end Stage

/-! ## Single nodes -/

namespace Session

variable {s : Session} {rule : RuleId} {x : NodeId} {n : Node} {e? : Option Expiration}
variable {kind : NodeKind} {α β : Type}

/-- What compiling a rule works on. -/
def site (s : Session) : Site := ⟨s.base, s.attached⟩

/-- The session after a node was taken into use. -/
def moved (s : Session) (w : Site) : Session := { s with base := w.base, attached := w.attached }

theorem bind_ok {ε σ : Type} {s t : σ} {m : EStateM ε σ α} {k : α → EStateM ε σ β} {a : α}
    (h : m s = .ok a t) : (m >>= k) s = k a t := by
  change EStateM.bind m k s = _
  rw [EStateM.bind, h]

theorem bind_error {ε σ : Type} {s t : σ} {m : EStateM ε σ α} {k : α → EStateM ε σ β} {f : ε}
    (h : m s = .error f t) : (m >>= k) s = .error f t := by
  change EStateM.bind m k s = _
  rw [EStateM.bind, h]

theorem get_bind {ε σ : Type} {s : σ} (k : σ → EStateM ε σ β) : (get >>= k) s = k s s := rfl

theorem set_bind (t : Session) (k : PUnit → Compile β) : (set t >>= k) s = k ⟨⟩ t := rfl

theorem requireRule_eq (hr : s.ruleId? = some rule) : requireRule s = .ok rule s := by
  rw [requireRule, get_bind, hr]
  rfl

theorem claim_eq (e? : Option Expiration) (hr : s.ruleId? = some rule)
    (hn : s.base.network.nodes[x]? = some n) :
    claim x e? s = .ok () { s with base := { s.base with
      network := s.base.network.modify x (·.claimed rule (s.partition?.getD .shared) e?) } } := by
  have hup : ∀ f, s.base.network.update x f = .ok (s.base.network.modify x f) := by
    intro f
    simp only [Network.update, Network.require, hn]
    rfl
  rw [claim, bind_ok (requireRule_eq hr), change, get_bind, hup]
  rfl

theorem shareNode_eq (hr : s.ruleId? = some rule) (hn : s.base.network.nodes[x]? = some n) :
    shareNode x e? s = .ok x (s.moved (s.site.touch rule (s.partition?.getD .shared) e? x)) := by
  have hreq : orFail (s.base.network.require x) s = .ok n s := by
    simp only [Network.require, hn]
    rfl
  rw [shareNode, bind_ok (requireRule_eq hr), get_bind, bind_ok hreq]
  by_cases hc : n.rules.contains rule
  · simp only [hc, if_true]
    rw [bind_ok (claim_eq e? hr hn)]
    simp only [moved, site, Site.touch, hn, hc, if_true]
    rfl
  · simp only [hc]
    have := claim_eq (s := s.attach ⟨x, false, n.partition?, n.retention.total⟩) e? hr hn
    simp only [if_false, Bool.false_eq_true]
    rw [set_bind, bind_ok this]
    simp only [moved, site, Site.touch, hn, hc, attach, Bool.false_eq_true, if_false]
    rfl

theorem createNode_eq (hr : s.ruleId? = some rule)
    (hf : s.base.network.Fits { id := s.base.ids.issue.1, kind, origin? := s.origin? }) :
    createNode kind e? s = .ok s.base.ids.issue.1
      (s.moved (s.site.make rule (s.partition?.getD .shared) e? kind s.origin?)) := by
  have hissue : issueId s = .ok s.base.ids.issue.1
      { s with base := { s.base with ids := s.base.ids.issue.2 } } := rfl
  have hins := hf.insert_eq
  simp only [origin?, trail] at hins
  rw [createNode, bind_ok (requireRule_eq hr), bind_ok hissue, get_bind]
  simp only [origin?, trail, hins, set_bind]
  refine Eq.trans (bind_ok (claim_eq e? hr hf.getElem?_link_self)) ?_
  rfl
end Session

namespace Stage.Matches

variable {g : Stage} {s : Session} {d : Draft} {I : Installation} {q : Request} {x : NodeId}
variable (h : g.Matches s d I)
include h

variable (h₀ : g.site.Standing g.rule .empty)
include h₀

theorem standing : s.site.Standing g.rule I := Site.Runs.standing h.served h₀

theorem length : I.nodes.length = d.steps.length := by
  rw [(h.standing h₀).stands.lengths, h.steps]

variable (hq : q.Follows g.setting.memory I.steps)
include hq

omit h₀ in
theorem follows : q.Follows s.base.config.objectTypeMemory I.steps := by
  have hconfig : s.base.config = g.site.base.config := Site.Runs.config_eq h.served
  rwa [hconfig, ← h.memory]

/-- The site after the request has been served. -/
theorem serve_eq : (match s.base.network.existing s.base.config q.guardsOut (I.wanted g.rule q) with
      | some id => Session.shareNode id q.expiration?
      | none => Session.createNode (s.maker.make (I.wanted g.rule q)) q.expiration?) s =
    .ok (s.site.serve g.rule g.partition q.guardsOut (I.wanted g.rule q) q.expiration? s.origin?).1
      (s.moved (s.site.serve g.rule g.partition q.guardsOut (I.wanted g.rule q) q.expiration?
        s.origin?).2) := by
  have hs := h.standing h₀
  have hf := h.follows hq
  unfold Site.serve
  rw [← h.partition]
  cases hx : s.base.network.existing s.base.config q.guardsOut (I.wanted g.rule q) with
  | some x =>
    obtain ⟨n, hn, -⟩ := Site.existing_serves hs.stands hf hx
    simp only [Session.site, hx]
    exact Session.shareNode_eq h.ruleId hn
  | none =>
    have hfits := Site.wanted_fits hs.stands hf s.origin? hx hs.fresh
    simp only [Session.site, hx, h.maker]
    exact Session.createNode_eq h.ruleId hfits

omit h₀ in
/-- The request stands at the end of the draft. -/
theorem next {r : NodeId × Site}
    (hr : r = s.site.serve g.rule g.partition q.guardsOut (I.wanted g.rule q) q.expiration? s.origin?) :
    g.Matches (s.moved r.2) { d with steps := d.steps ++ [q] } (I.snoc q r.1) :=
  { h with
    served := by
      rw [h.memory] at hq
      rw [hr]
      exact .step q s.origin? h.served hq
    steps := by rw [Installation.snoc, h.steps]
    tuple := Installation.rel_got_mono h.tuple (Installation.below_snoc I q r.1) }

end Stage.Matches

/-! ## Requests -/

namespace Stage

variable {g : Stage} {s : Session} {d : Draft} {I : Installation} {q : Request} {x : NodeId}

/-- What comes of a request: one more step of the draft, and its node. -/
def Requested (d : Draft) (I : Installation) (q : Request) (x : NodeId) (i : Nat) (d' : Draft)
    (J : Installation) : Prop :=
  i = d.steps.length ∧ d' = { d with steps := d.steps ++ [q] } ∧ J = I.snoc q x

/-- What comes of requests, the last of which is for a node from which something
    can be taken. -/
def Supplied (supply : NodeKind.Supply) (d : Draft) (I : Installation) (x : NodeId) (i : Nat)
    (d' : Draft) (J : Installation) : Prop :=
  I.Below J ∧ d' = { d with steps := d'.steps } ∧ J.Got supply x i

namespace Matches

variable (h : g.Matches s d I) (h₀ : g.site.Standing g.rule .empty)
include h h₀

/-- The last node of some requests. -/
theorem supplied (supply : NodeKind.Supply) {i : Nat} {d' : Draft} {J : Installation}
    (hr : Requested d I q x i d' J) (hs : q.kind.supplies supply) : Supplied supply d I x i d' J := by
  obtain ⟨rfl, rfl, rfl⟩ := hr
  refine ⟨Installation.below_snoc I q x, rfl, ?_, q, ?_, hs⟩
  · rw [Installation.snoc, ← h.length h₀, List.getElem?_concat_length]
  · rw [Installation.snoc, h.steps, List.getElem?_concat_length]

variable (hq : q.Follows g.setting.memory I.steps) (hg : q.guardsOut = g.setting.guardsOut)
include hq hg

omit h₀ in
theorem agree_request {step : Compile NodeId} (hstep : step s =
    .ok (s.site.serve g.rule g.partition q.guardsOut (I.wanted g.rule q) q.expiration? s.origin?).1
      (s.moved (s.site.serve g.rule g.partition q.guardsOut (I.wanted g.rule q) q.expiration?
        s.origin?).2)) :
    Agree g.Fails (g.Post (Requested d I q)) (step s)
      (Draw.request g.setting q.kind q.expiration? d) := by
  have hdraw : Draw.request g.setting q.kind q.expiration? d =
      .ok d.steps.length { d with steps := d.steps ++ [q] } := by
    obtain ⟨kind, guardsOut, e?⟩ := q
    obtain rfl : guardsOut = g.setting.guardsOut := hg
    rfl
  rw [hstep, hdraw]
  exact .ok ⟨_, h.next hq rfl, rfl, rfl, rfl⟩

theorem agree_root {key : RootKey} (hkey : q.kind.rootKey? = some key) :
    Agree g.Fails (g.Post (Requested d I q))
      (Session.attachRoot key (I.wanted g.rule q) q.expiration? s)
      (Draw.request g.setting q.kind q.expiration? d) := by
  refine h.agree_request hq hg ?_
  rw [← h.serve_eq h₀ hq, Network.existing_of_root (Installation.rootKey?_wanted.trans hkey)]
  rfl

theorem agree_node (sharing : Bool) (hkey : q.kind.rootKey? = none)
    (hshares : sharing = s.base.config.shares q.kind) :
    Agree g.Fails (g.Post (Requested d I q))
      (Session.attachNode sharing (I.wanted g.rule q) q.expiration? s)
      (Draw.request g.setting q.kind q.expiration? d) := by
  refine h.agree_request hq hg ?_
  rw [← h.serve_eq h₀ hq, Network.existing_of_no_root (Installation.rootKey?_wanted.trans hkey),
    Installation.shares_wanted, ← hshares, hg, ← h.guardsOut]
  rfl

/-- A node that is never shared is made. -/
theorem agree_made (hkey : q.kind.rootKey? = none) (hshares : s.base.config.shares q.kind = false) :
    Agree g.Fails (g.Post (Requested d I q))
      (Session.createNode (s.maker.make (I.wanted g.rule q)) q.expiration? s)
      (Draw.request g.setting q.kind q.expiration? d) := by
  refine h.agree_request hq hg ?_
  rw [← h.serve_eq h₀ hq, Network.existing_of_no_root (Installation.rootKey?_wanted.trans hkey),
    Installation.shares_wanted, hshares]
  rfl

end Matches

end Stage

end RuleNet
