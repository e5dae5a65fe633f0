/-
  RuleNet — the object sides above a terminal.

  The nodes above the terminal of a branch tell how the branch was built: where
  the facts of each pattern come from, and which tuples they become part of
  (`Kinds.Attaches`).  A pattern has an object side wherever it stands, in a
  negation, an existence claim or a universal statement as well.

  The terminal determines the object sides (`Kinds.Attaches.unique`).
-/
import RuleNet.Proofs.Drafts
import RuleNet.Proofs.Slots

namespace RuleNet

/-- The object side of a pattern: the root of its type, and a node for each of
    its field tests. -/
structure Side where
  pattern : Pattern
  nodes : List NodeId

/-- The same side, its nodes renamed. -/
def Side.map (f : NodeId → NodeId) (s : Side) : Side := { s with nodes := s.nodes.map f }

namespace Kinds

/-- The facts that match a pattern by themselves come down its object side. -/
structure Bears (kinds : Kinds) (s : Side) : Prop where
  length : s.nodes.length = s.pattern.fieldTests.length + 1
  root : ∃ x memory, s.nodes[0]? = some x ∧
    kinds x = some (.objectType s.pattern.entry s.pattern.type memory)
  /-- Each field test takes the facts that stood the one before. -/
  test : ∀ (i : Nat) (t : FieldTest), s.pattern.fieldTests[i]? = some t →
    ∃ x y, s.nodes[i]? = some x ∧ s.nodes[i + 1]? = some y ∧ kinds y = some (.alpha x t)

/-- What holds of the root of an object side, with no test, and goes down from a
    node to the one below with the test of that one, holds of its last node. -/
theorem Bears.last_induction {kinds : Kinds} {s : Side} {x : NodeId}
    {P : NodeId → List FieldTest → Prop} (h : kinds.Bears s) (hx : s.nodes.getLast? = some x)
    (root : ∀ y memory, kinds y = some (.objectType s.pattern.entry s.pattern.type memory) → P y [])
    (alpha : ∀ y z t ts, kinds z = some (.alpha y t) → P y ts → P z (ts ++ [t])) :
    P x s.pattern.fieldTests := by
  have hdown : ∀ i ≤ s.pattern.fieldTests.length, ∀ y, s.nodes[i]? = some y →
      P y (s.pattern.fieldTests.take i) := by
    intro i
    induction i with
    | zero =>
      intro _ y hy
      obtain ⟨z, memory, hz, hkind⟩ := h.root
      obtain rfl : z = y := Option.some.inj (hz.symm.trans hy)
      exact root z memory hkind
    | succ i ih =>
      intro hi y hy
      obtain ⟨z, y', hz, hy', hkind⟩ := h.test i _ (List.getElem?_eq_getElem hi)
      obtain rfl : y' = y := Option.some.inj (hy'.symm.trans hy)
      rw [List.take_succ_eq_append_getElem hi]
      exact alpha z y' _ _ hkind (ih (Nat.le_of_lt hi) z hz)
  rw [List.getLast?_eq_getElem?, h.length] at hx
  have hlast := hdown _ le_rfl x hx
  rwa [List.take_length] at hlast

/-- At a node, the facts of an object side become part of the tuple at hand, or
    start it. -/
inductive Widens (kinds : Kinds) : Option NodeId → Side → NodeId → Prop where
  | leftInput {s : Side} {x source : NodeId} (bears : kinds.Bears s)
      (last : s.nodes.getLast? = some source) (kind : kinds x = some (.leftInput source)) :
      Widens kinds none s x
  | join {s : Side} {x : NodeId} {j : Join} (bears : kinds.Bears s)
      (last : s.nodes.getLast? = some j.right) (kind : kinds x = some (.join j))
      (widens : j.kind = .join) : Widens kinds (some j.left) s x

/-- There is a tuple, or the initial fact starts it. -/
inductive Starts (kinds : Kinds) : Option NodeId → NodeId → List Side → Prop where
  | there {left : NodeId} : Starts kinds (some left) left []
  | initial {s : Side} {x : NodeId} (initial : s.pattern = .initialFact)
      (widens : kinds.Widens none s x) : Starts kinds none x [s]

/-- Nodes that stand between two tuples are built as some elements tell; their
    patterns have these object sides. -/
inductive Builds (kinds : Kinds) : Option NodeId → List Element → Option NodeId → List Side → Prop where
  | nil {t? : Option NodeId} : Builds kinds t? [] t? []
  | pattern {t? u? : Option NodeId} {s : Side} {x : NodeId} {es : List Element} {S : List Side}
      (widens : kinds.Widens t? s x) (rest : Builds kinds (some x) es u? S) :
      Builds kinds t? (.pattern s.pattern :: es) u? (s :: S)
  | and {t? u? v? : Option NodeId} {members es : List Element} {S S' : List Side}
      (inside : Builds kinds t? members u? S) (rest : Builds kinds u? es v? S') :
      Builds kinds t? (.group .and members :: es) v? (S ++ S')
  /-- The object side of a single pattern is joined to the tuple. -/
  | single {t? u? : Option NodeId} {q : Session.Quantifier} {s : Side} {x : NodeId} {j : Join}
      {es : List Element} {S₀ S : List Side} (start : kinds.Starts t? j.left S₀)
      (bears : kinds.Bears s) (last : s.nodes.getLast? = some j.right)
      (kind : kinds x = some (.join j)) (joins : j.kind = q.joinKind)
      (rest : Builds kinds (some x) es u? S) :
      Builds kinds t? (.group q.connective [.pattern s.pattern] :: es) u? (S₀ ++ s :: S)
  /-- Anything else is a subnetwork on the tuple. -/
  | subnetwork {t? u? : Option NodeId} {q : Session.Quantifier} {x last : NodeId} {j : Join}
      {members es : List Element} {S₀ S S' : List Side} (many : Element.single? members = none)
      (start : kinds.Starts t? j.left S₀) (inside : Builds kinds (some j.left) members (some last) S)
      (adapter : kinds j.right = some (.rightInput last)) (kind : kinds x = some (.join j))
      (joins : j.kind = q.joinKind) (rest : Builds kinds (some x) es u? S') :
      Builds kinds t? (.group q.connective members :: es) u? (S₀ ++ S ++ S')
  /-- A universal statement is built as the negation that it is. -/
  | every {t? u? : Option NodeId} {base : Pattern} {rest : List Pattern} {es : List Element}
      {S : List Side}
      (inside : Builds kinds t? (.group .not (Universal.of base rest).outer :: es) u? S) :
      Builds kinds t? (.every base rest :: es) u? S
  | call {t? u? : Option NodeId} {q : QueryCall} {left x : NodeId} {arguments : List Argument}
      {es : List Element} {S₀ S : List Side} (start : kinds.Starts t? left S₀)
      (kind : kinds x = some (.queryElement left q.query arguments))
      (rest : Builds kinds (some x) es u? S) : Builds kinds t? (.call q :: es) u? (S₀ ++ S)

/-- The patterns of a rule's branch have these object sides: they stand above its
    terminal. -/
def Attaches (kinds : Kinds) (rule : RuleId) (query : Bool) (b : Branch) (S : List Side) : Prop :=
  ∃ (t? : Option NodeId) (last terminal : NodeId) (S₁ S₂ : List Side),
    kinds.Builds none b.body.members t? S₁ ∧ kinds.Starts t? last S₂ ∧
      kinds terminal = some (.terminal last rule b.index query) ∧ S = S₁ ++ S₂

variable {kinds kinds' : Kinds} {t? u? v? : Option NodeId} {s s' : Side} {x y left : NodeId}
variable {es es' : List Element} {S S' : List Side}

/-- Nodes of some elements, and nodes of more elements on their tuples. -/
theorem Builds.append (h : kinds.Builds t? es u? S) (h' : kinds.Builds u? es' v? S') :
    kinds.Builds t? (es ++ es') v? (S ++ S') := by
  induction h with
  | nil => exact h'
  | pattern widens _ ih => exact .pattern widens (ih h')
  | and inside _ _ ih => exact List.append_assoc .. ▸ .and inside (ih h')
  | single start bears last kind joins _ ih =>
    exact List.append_assoc .. ▸ .single start bears last kind joins (ih h')
  | subnetwork many start inside adapter kind joins _ _ ih =>
    exact List.append_assoc .. ▸ .subnetwork many start inside adapter kind joins (ih h')
  | every _ ih => exact .every (ih h')
  | call start kind _ ih => exact List.append_assoc .. ▸ .call start kind (ih h')

/-! ## Renamed nodes -/

section Served
variable {f : NodeId → NodeId} {g : RuleId → RuleId} (hs : kinds.Served f g kinds')
include hs

theorem Bears.map (h : kinds.Bears s) : kinds'.Bears (s.map f) where
  length := (List.length_map _).trans h.length
  root := by
    obtain ⟨x, memory, hx, hkind⟩ := h.root
    exact ⟨f x, memory, by simp [Side.map, hx], hs.kind hkind (by simp)⟩
  test i t ht := by
    obtain ⟨x, y, hx, hy, hkind⟩ := h.test i t ht
    exact ⟨f x, f y, by simp [Side.map, hx], by simp [Side.map, hy], hs.kind hkind (by simp)⟩

omit hs in
theorem getLast?_map {s : Side} (h : s.nodes.getLast? = some x) :
    (s.map f).nodes.getLast? = some (f x) := by
  rw [Side.map, List.getLast?_map, h]
  rfl

theorem Widens.map (h : kinds.Widens t? s x) : kinds'.Widens (t?.map f) (s.map f) (f x) := by
  cases h with
  | leftInput bears last kind =>
    exact .leftInput (bears.map hs) (getLast?_map last) (hs.kind kind (by simp))
  | join bears last kind widens =>
    obtain ⟨j', kind', hkind, hleft, hright⟩ := hs.join kind
    rw [Option.map_some, ← hleft]
    exact .join (bears.map hs) (hright ▸ getLast?_map last) kind' (hkind.trans widens)

theorem Starts.map (h : kinds.Starts t? left S) :
    kinds'.Starts (t?.map f) (f left) (S.map (Side.map f)) := by
  cases h with
  | there => exact .there
  | initial initial widens => exact .initial initial (widens.map hs)

theorem Builds.map (h : kinds.Builds t? es u? S) :
    kinds'.Builds (t?.map f) es (u?.map f) (S.map (Side.map f)) := by
  induction h with
  | nil => exact .nil
  | pattern widens _ ih => exact .pattern (widens.map hs) ih
  | and _ _ ih ih' =>
    rw [List.map_append]
    exact .and ih ih'
  | @single _ _ _ s _ _ _ _ _ start bears last kind joins _ ih =>
    obtain ⟨j', kind', hkind, hleft, hright⟩ := hs.join kind
    rw [List.map_append, List.map_cons]
    exact .single (s := s.map f) (hleft ▸ start.map hs) (bears.map hs)
      (hright ▸ getLast?_map last) kind' (hkind.trans joins) ih
  | subnetwork many start _ adapter kind joins _ ih ih' =>
    obtain ⟨j', kind', hkind, hleft, hright⟩ := hs.join kind
    rw [List.map_append, List.map_append]
    exact .subnetwork many (hleft ▸ start.map hs) (by rw [hleft]; exact ih)
      (hright ▸ hs.kind adapter (by simp)) kind' (hkind.trans joins) ih'
  | every _ ih => exact .every ih
  | call start kind _ ih =>
    rw [List.map_append]
    exact .call (start.map hs) (hs.kind kind (by simp)) ih

theorem Attaches.map {rule : RuleId} {query : Bool} {b : Branch}
    (h : kinds.Attaches rule query b S) :
    kinds'.Attaches (g rule) query b (S.map (Side.map f)) := by
  obtain ⟨t?, last, terminal, S₁, S₂, hbuilds, hstarts, hkind, rfl⟩ := h
  refine ⟨t?.map f, f last, f terminal, _, _, hbuilds.map hs, hstarts.map hs, ?_, List.map_append⟩
  exact hs.kind hkind (by simp)

end Served

theorem Side.map_id (s : Side) : s.map id = s := by
  simp [Side.map]

theorem map_map_id (S : List Side) : S.map (Side.map id) = S := by
  rw [show Side.map id = id from funext Side.map_id, List.map_id]

theorem Widens.mono (h : kinds.Widens t? s x) (hk : kinds.Within kinds') : kinds'.Widens t? s x := by
  have h := h.map hk.served
  rwa [Option.map_id_apply, Side.map_id] at h

theorem Starts.mono (h : kinds.Starts t? x S) (hk : kinds.Within kinds') : kinds'.Starts t? x S := by
  have h := h.map hk.served
  rwa [Option.map_id_apply, map_map_id] at h

theorem Builds.mono (h : kinds.Builds t? es u? S) (hk : kinds.Within kinds') :
    kinds'.Builds t? es u? S := by
  have h := h.map hk.served
  rwa [Option.map_id_apply, Option.map_id_apply, map_map_id] at h

theorem Attaches.mono {rule : RuleId} {query : Bool} {b : Branch}
    (h : kinds.Attaches rule query b S) (hk : kinds.Within kinds') :
    kinds'.Attaches rule query b S := by
  have h := h.map hk.served
  rwa [map_map_id] at h

/-! ## One way of building -/

section Bears
variable (h : kinds.Bears s) (h' : kinds.Bears s') (hp : s.pattern = s'.pattern)
include h h' hp

theorem Bears.length_unique : s.nodes.length = s'.nodes.length := by rw [h.length, h'.length, hp]

/-- From the last node of an object side upwards, each one names the one before. -/
theorem Bears.getElem?_unique (hx : s.nodes.getLast? = some x) (hx' : s'.nodes.getLast? = some x)
    {k : Nat} (hk : k ≤ s.pattern.fieldTests.length) :
    s.nodes[s.pattern.fieldTests.length - k]? = s'.nodes[s.pattern.fieldTests.length - k]? := by
  induction k with
  | zero =>
    rw [List.getLast?_eq_getElem?, h.length] at hx
    rw [List.getLast?_eq_getElem?, ← h.length_unique h' hp, h.length] at hx'
    exact hx.trans hx'.symm
  | succ k ih =>
    have ih := ih (Nat.le_of_succ_le hk)
    obtain ⟨i, hi⟩ : ∃ i, s.pattern.fieldTests.length - k = i + 1 :=
      ⟨s.pattern.fieldTests.length - k - 1, by omega⟩
    rw [show s.pattern.fieldTests.length - (k + 1) = i by omega]
    have ht := List.getElem?_eq_getElem (l := s.pattern.fieldTests) (i := i) (by omega)
    obtain ⟨a, b, ha, hb, hkind⟩ := h.test i _ ht
    obtain ⟨a', b', ha', hb', hkind'⟩ := h'.test i _ (by rw [← hp]; exact ht)
    rw [hi, hb, hb'] at ih
    cases ih
    cases hkind.symm.trans hkind'
    rw [ha, ha']

/-- The last node of an object side determines the side of a pattern. -/
theorem Bears.unique (hx : s.nodes.getLast? = some x) (hx' : s'.nodes.getLast? = some x) :
    s = s' := by
  have hnodes : s.nodes = s'.nodes := by
    refine List.ext_getElem? fun i => ?_
    by_cases hi : i ≤ s.pattern.fieldTests.length
    · have hsame := h.getElem?_unique h' hp hx hx' (Nat.sub_le _ i)
      rwa [Nat.sub_sub_self hi] at hsame
    · have hi : s.nodes.length ≤ i := by rw [h.length]; omega
      rw [List.getElem?_eq_none hi, List.getElem?_eq_none (h.length_unique h' hp ▸ hi)]
  obtain ⟨p, nodes⟩ := s
  obtain ⟨p', nodes'⟩ := s'
  cases hp
  cases hnodes
  rfl

end Bears

theorem Widens.unique (h : kinds.Widens t? s x) (h' : kinds.Widens u? s' x)
    (hp : s.pattern = s'.pattern) : t? = u? ∧ s = s' := by
  cases h with
  | leftInput bears last kind =>
    cases h' with
    | leftInput bears' last' kind' =>
      cases kind.symm.trans kind'
      exact ⟨rfl, bears.unique bears' hp last last'⟩
    | join _ _ kind' => cases kind.symm.trans kind'
  | join bears last kind =>
    cases h' with
    | leftInput _ _ kind' => cases kind.symm.trans kind'
    | join bears' last' kind' =>
      cases kind.symm.trans kind'
      exact ⟨rfl, bears.unique bears' hp last last'⟩

theorem Starts.unique (h : kinds.Starts t? left S) (h' : kinds.Starts u? left S')
    (ht : t?.isSome = u?.isSome) : t? = u? ∧ S = S' := by
  cases h with
  | there =>
    cases h' with
    | there => exact ⟨rfl, rfl⟩
    | initial => cases ht
  | initial initial widens =>
    cases h' with
    | there => cases ht
    | initial initial' widens' =>
      obtain ⟨-, rfl⟩ := widens.unique widens' (initial.trans initial'.symm)
      exact ⟨rfl, rfl⟩

section Inversion
variable {p : Pattern} {c : Connective} {members : List Element}

theorem Builds.pattern_inv (h : kinds.Builds t? (.pattern p :: es) u? S) : ∃ s x S₁,
    s.pattern = p ∧ kinds.Widens t? s x ∧ kinds.Builds (some x) es u? S₁ ∧ S = s :: S₁ := by
  cases h with
  | pattern widens rest => exact ⟨_, _, _, rfl, widens, rest, rfl⟩

theorem Builds.call_inv {q : QueryCall} (h : kinds.Builds t? (.call q :: es) u? S) :
    ∃ left x arguments S₀ S₁, kinds.Starts t? left S₀ ∧
      kinds x = some (.queryElement left q.query arguments) ∧
      kinds.Builds (some x) es u? S₁ ∧ S = S₀ ++ S₁ := by
  cases h with
  | call start kind rest => exact ⟨_, _, _, _, _, start, kind, rest, rfl⟩

theorem Builds.every_inv {base : Pattern} {rest : List Pattern}
    (h : kinds.Builds t? (.every base rest :: es) u? S) :
    kinds.Builds t? (.group .not (Universal.of base rest).outer :: es) u? S := by
  cases h with
  | every inside => exact inside

theorem Builds.and_inv (h : kinds.Builds t? (.group .and members :: es) u? S) :
    ∃ v? S₁ S₂, kinds.Builds t? members v? S₁ ∧ kinds.Builds v? es u? S₂ ∧ S = S₁ ++ S₂ := by
  generalize hc : Connective.and = c at h
  cases h with
  | and inside rest => exact ⟨_, _, _, inside, rest, rfl⟩
  | @single _ _ q | @subnetwork _ _ q => cases q <;> cases hc

/-- A negation or existence claim is a join on the tuple at hand. -/
theorem Builds.quantified_inv {q : Session.Quantifier}
    (h : kinds.Builds t? (.group q.connective members :: es) u? S) :
    ∃ x j S₀ S₁ S₂, kinds.Starts t? j.left S₀ ∧ kinds x = some (.join j) ∧
      kinds.Builds (some x) es u? S₂ ∧ S = S₀ ++ S₁ ++ S₂ ∧
      ((∃ s, members = [.pattern s.pattern] ∧ kinds.Bears s ∧ s.nodes.getLast? = some j.right ∧
          S₁ = [s]) ∨
        Element.single? members = none ∧ ∃ last, kinds j.right = some (.rightInput last) ∧
          kinds.Builds (some j.left) members (some last) S₁) := by
  generalize hc : q.connective = c at h
  cases h with
  | and => cases q <;> cases hc
  | @single _ _ q' s x j _ S₀ S start bears last kind joins rest =>
    refine ⟨x, j, S₀, [s], S, start, kind, rest, ?_, .inl ⟨s, rfl, bears, last, rfl⟩⟩
    rw [List.append_assoc, List.singleton_append]
  | subnetwork many start inside adapter kind joins rest =>
    exact ⟨_, _, _, _, _, start, kind, rest, rfl, .inr ⟨many, _, adapter, inside⟩⟩

end Inversion

/-- Whether there is a tuple afterwards does not depend on the nodes. -/
theorem Builds.isSome_eq {u'? : Option NodeId} (h : kinds.Builds t? es u? S) :
    ∀ {t'? S'}, kinds.Builds t'? es u'? S' → t?.isSome = t'?.isSome → u?.isSome = u'?.isSome := by
  induction h generalizing u'? with
  | nil =>
    intro t'? S' h' ht
    cases h'
    exact ht
  | pattern _ _ ih =>
    intro t'? S' h' _
    obtain ⟨s, x, S₁, -, -, hrest, -⟩ := h'.pattern_inv
    exact ih hrest rfl
  | and _ _ ih ih' =>
    intro t'? S' h' ht
    obtain ⟨v?, S₁, S₂, hinside, hrest, -⟩ := h'.and_inv
    exact ih' hrest (ih hinside ht)
  | single _ _ _ _ _ _ ih | subnetwork _ _ _ _ _ _ _ _ ih =>
    intro t'? S' h' _
    obtain ⟨x, j, S₀, S₁, S₂, -, -, hrest, -⟩ := h'.quantified_inv
    exact ih hrest rfl
  | every _ ih => exact fun h' => ih h'.every_inv
  | call _ _ _ ih =>
    intro t'? S' h' _
    obtain ⟨left, x, arguments, S₀, S₁, -, -, hrest, -⟩ := h'.call_inv
    exact ih hrest rfl

/-- The node at the end determines the object sides of some elements. -/
theorem Builds.unique (h : kinds.Builds t? es u? S) :
    ∀ {t'? S'}, kinds.Builds t'? es u? S' → t?.isSome = t'?.isSome → t? = t'? ∧ S = S' := by
  induction h with
  | nil =>
    intro t'? S' h' _
    cases h'
    exact ⟨rfl, rfl⟩
  | pattern widens _ ih =>
    intro t'? S' h' _
    obtain ⟨s', x', S₁, hp, hwidens, hrest, rfl⟩ := h'.pattern_inv
    obtain ⟨hx, rfl⟩ := ih hrest rfl
    cases hx
    obtain ⟨rfl, rfl⟩ := widens.unique hwidens hp.symm
    exact ⟨rfl, rfl⟩
  | and inside _ ih ih' =>
    intro t'? S' h' ht
    obtain ⟨v?, S₁, S₂, hinside, hrest, rfl⟩ := h'.and_inv
    obtain ⟨rfl, rfl⟩ := ih' hrest (inside.isSome_eq hinside ht)
    obtain ⟨rfl, rfl⟩ := ih hinside ht
    exact ⟨rfl, rfl⟩
  | single start bears last kind _ _ ih =>
    intro t'? S' h' ht
    obtain ⟨x', j', S₀, S₁, S₂, hstart, hkind, hrest, rfl, hright⟩ := h'.quantified_inv
    obtain ⟨hx, rfl⟩ := ih hrest rfl
    cases hx
    cases kind.symm.trans hkind
    obtain ⟨rfl, rfl⟩ := start.unique hstart ht
    obtain ⟨s', hp, hbears, hlast, rfl⟩ | ⟨hmany, -⟩ := hright
    · simp only [List.cons.injEq, Element.pattern.injEq, and_true] at hp
      obtain rfl := bears.unique hbears hp last hlast
      exact ⟨rfl, by rw [List.append_assoc, List.singleton_append]⟩
    · cases hmany
  | subnetwork many start _ adapter kind _ _ ih ih' =>
    intro t'? S' h' ht
    obtain ⟨x', j', S₀, S₁, S₂, hstart, hkind, hrest, rfl, hright⟩ := h'.quantified_inv
    obtain ⟨hx, rfl⟩ := ih' hrest rfl
    cases hx
    cases kind.symm.trans hkind
    obtain ⟨rfl, rfl⟩ := start.unique hstart ht
    obtain ⟨s', rfl, -⟩ | ⟨-, last', hadapter, hinside⟩ := hright
    · cases many
    · cases adapter.symm.trans hadapter
      obtain ⟨-, rfl⟩ := ih hinside rfl
      exact ⟨rfl, rfl⟩
  | every _ ih => exact fun h' => ih h'.every_inv
  | call start kind _ ih =>
    intro t'? S' h' ht
    obtain ⟨left', x', arguments', S₀, S₁, hstart, hkind, hrest, rfl⟩ := h'.call_inv
    obtain ⟨hx, rfl⟩ := ih hrest rfl
    cases hx
    cases kind.symm.trans hkind
    obtain ⟨rfl, rfl⟩ := start.unique hstart ht
    exact ⟨rfl, rfl⟩

/-- **A branch with one terminal has one choice of object sides.** -/
theorem Attaches.unique {rule : RuleId} {query : Bool} {b : Branch}
    (hone : ∀ x y s s', kinds x = some (.terminal s rule b.index query) →
      kinds y = some (.terminal s' rule b.index query) → x = y)
    (h : kinds.Attaches rule query b S) (h' : kinds.Attaches rule query b S') : S = S' := by
  obtain ⟨t?, last, x, S₁, S₂, hbuilds, hstarts, hkind, rfl⟩ := h
  obtain ⟨t'?, last', x', S₁', S₂', hbuilds', hstarts', hkind', rfl⟩ := h'
  obtain rfl := hone x x' last last' hkind hkind'
  cases hkind.symm.trans hkind'
  obtain ⟨rfl, rfl⟩ := hstarts.unique hstarts' (hbuilds.isSome_eq hbuilds' rfl)
  obtain ⟨-, rfl⟩ := hbuilds.unique hbuilds' rfl
  rfl

end Kinds

/-! ## Drawn object sides -/

/-- The facts of an object side are of the type of the pattern. -/
theorem Kinds.Bears.typed {kinds : Kinds} {s : Side} {x : NodeId} (h : kinds.Bears s)
    (hx : s.nodes.getLast? = some x) : Typed kinds x s.pattern.type :=
  h.last_induction (P := fun y _ => Typed kinds y s.pattern.type) hx
    (fun _ _ hkind => .root hkind) fun _ _ _ _ hkind habove => .alpha hkind habove

/-- The steps of the object side of a pattern that follows `n` other steps. -/
def Pattern.sideNodes (p : Pattern) (n : Nat) : List Nat :=
  List.range' (n + 1) (p.fieldTests.length + 1)

namespace Draft

variable {d d' : Draft} {c : Setting} {p : Pattern} {n : Nat}

theorem getLast?_sideNodes : (p.sideNodes n).getLast? = some (p.sideEnd n) := by
  simp [Pattern.sideNodes, Pattern.sideEnd, List.getLast?_range']

theorem getElem?_sideNodes {i : Nat} (hi : i ≤ p.fieldTests.length) :
    (p.sideNodes n)[i]? = some (n + 1 + i) := by
  rw [Pattern.sideNodes, List.getElem?_range' (by omega), Nat.one_mul]

/-- The object side of a pattern, once it has been drawn. -/
theorem bears_sided (h : (d.sided c p).steps <+: d'.steps) :
    (stepKinds d'.steps).Bears ⟨p, p.sideNodes d.steps.length⟩ := by
  have hlook : ∀ {i : Nat} {q : Request}, (c.side p d.steps.length)[i]? = some q →
      stepKinds d'.steps (d.steps.length + i) = some q.kind := by
    intro i q hq
    refine stepKinds_within h _ _ ?_
    rw [stepKinds, steps_sided, List.getElem?_append_right (Nat.le_add_right _ _),
      Nat.add_sub_cancel_left, hq]
    rfl
  constructor
  · exact List.length_range' ..
  · exact ⟨_, c.memory, getElem?_sideNodes (Nat.zero_le _),
      hlook (i := 1) (q := ⟨.objectType p.entry p.type c.memory, c.guardsOut, c.expirationOf p⟩) rfl⟩
  · intro i t ht
    obtain ⟨hi, rfl⟩ := List.getElem?_eq_some_iff.1 ht
    refine ⟨_, _, getElem?_sideNodes hi.le, getElem?_sideNodes hi, ?_⟩
    have hside : (c.side p d.steps.length)[i + 2]? =
        some ⟨.alpha (d.steps.length + 1 + i) p.fieldTests[i], c.guardsOut, c.expirationOf p⟩ := by
      simp [Setting.side, hi]
    rw [show d.steps.length + 1 + (i + 1) = d.steps.length + (i + 2) by omega]
    exact hlook hside

/-- A subnetwork ends in an adapter, and in a join that takes it in. -/
theorem exists_closed (d : Draft) (c : Setting) (q : Session.Quantifier) (left last n : Nat)
    (first : Bool) :
    let d' := (d.cut c left last n).closed c q left first (d.steps.length, [], none)
    d.steps <+: d'.steps ∧ ∃ x j, d'.tuple? = some x ∧ stepKinds d'.steps x = some (.join j) ∧
      j.kind = q.joinKind ∧ j.left = left ∧ stepKinds d'.steps j.right = some (.rightInput last) := by
  let adapter : Request := ⟨.rightInput last, c.guardsOut, none⟩
  let request := c.joinRequest q.joinKind left d.steps.length [] (!first) none
  have hadapter : d.steps <+: (d.snoc adapter).steps := List.prefix_append _ _
  have hclosed : (d.snoc adapter).steps <+: ((d.snoc adapter).snoc request).steps :=
    List.prefix_append _ _
  exact ⟨hadapter.trans hclosed, _, _, rfl, stepKinds_concat (d.snoc adapter).steps request, rfl, rfl,
    stepKinds_within hclosed _ _ (stepKinds_concat d.steps adapter)⟩

end Draft

end RuleNet
