/-
  RuleNet — where universal statements sit in the network.

  The nodes above the terminal of a branch tell where the universal statements
  of the branch sit (`Kinds.Seats`): which patterns are in scope there, and to
  which nodes the facts of the patterns of the rest come.  All else is built as
  the elements of the branch tell, so the terminal determines the seats
  (`Kinds.Seated.unique`).

  Drawing a branch asks for nodes that seat its universal statements, and for
  the tests of their patterns in terms of positions
  (`Rule.exists_seatings`).
-/
import RuleNet.Proofs.Retaining
import RuleNet.Proofs.Alignment

namespace RuleNet

/-- A universal statement in the network. -/
structure Seat where
  base : Pattern
  rest : List Pattern
  /-- The patterns in scope where it stands. -/
  scope : Scope
  /-- For each pattern of the rest, the node that its facts come to. -/
  nodes : List NodeId

/-- The same seat, its nodes renamed. -/
def Seat.map (f : NodeId → NodeId) (s : Seat) : Seat := { s with nodes := s.nodes.map f }

/-- The statement, written as a negation. -/
def Seat.statement (s : Seat) : Universal := .of s.base s.rest

/-- What is in scope at a pattern of the rest. -/
def Seat.scopeAt (s : Seat) (k : Nat) : Scope :=
  s.scope ++ [s.statement.base] ++ s.statement.rest.take k

/-- An element inside which no universal statement can stand. -/
def Element.isLeaf : Element → Bool
  | pattern _ | call _ => true
  | group .not members | group .exists members => (single? members).isSome
  | group .and _ | group .or _ | every .. => false

namespace Kinds

/-- The facts of some patterns become part of the tuples of a node, pattern by
    pattern. -/
inductive Chain (kinds : Kinds) : NodeId → List Pattern → List NodeId → NodeId → Prop where
  | nil {x : NodeId} : Chain kinds x [] [] x
  | cons {left x last : NodeId} {s : Side} {ps : List Pattern} {xs : List NodeId}
      (widens : kinds.Widens (some left) s x) (rest : Chain kinds x ps xs last) :
      Chain kinds left (s.pattern :: ps) (x :: xs) last

/-- A node passes on the tuples of another one with which no facts of some
    patterns go. -/
inductive Denies (kinds : Kinds) : NodeId → List Pattern → List NodeId → NodeId → Prop where
  | single {s : Side} {x : NodeId} {j : Join} (bears : kinds.Bears s)
      (last : s.nodes.getLast? = some j.right) (kind : kinds x = some (.join j))
      (denies : j.kind = .not) : Denies kinds j.left [s.pattern] [x] x
  | several {ps : List Pattern} {xs : List NodeId} {x last : NodeId} {j : Join}
      (many : Element.single? (ps.map .pattern) = none) (chain : kinds.Chain j.left ps xs last)
      (adapter : kinds j.right = some (.rightInput last)) (kind : kinds x = some (.join j))
      (denies : j.kind = .not) : Denies kinds j.left ps xs x

/-- Nodes that stand between two tuples are built as some elements tell, which
    start with a scope; their universal statements have these seats. -/
inductive Seats (kinds : Kinds) :
    Scope → Option NodeId → List Element → Option NodeId → List Seat → Prop where
  | nil {scope : Scope} {t? : Option NodeId} : Seats kinds scope t? [] t? []
  | leaf {scope : Scope} {t? u? v? : Option NodeId} {e : Element} {es : List Element}
      {S : List Side} {L : List Seat} (leaf : e.isLeaf) (built : kinds.Builds t? [e] u? S)
      (after : Seats kinds (e.scopeAfter scope) u? es v? L) : Seats kinds scope t? (e :: es) v? L
  | and {scope : Scope} {t? u? v? : Option NodeId} {members es : List Element} {L L' : List Seat}
      (inside : Seats kinds scope t? members u? L)
      (after : Seats kinds (Element.scopeAfterAll scope members) u? es v? L') :
      Seats kinds scope t? (.group .and members :: es) v? (L ++ L')
  | subnetwork {scope : Scope} {t? u? : Option NodeId} {q : Session.Quantifier} {x last : NodeId}
      {j : Join} {members es : List Element} {S : List Side} {L L' : List Seat}
      (many : Element.single? members = none) (start : kinds.Starts t? j.left S)
      (inside : Seats kinds scope.started (some j.left) members (some last) L)
      (adapter : kinds j.right = some (.rightInput last)) (kind : kinds x = some (.join j))
      (joins : j.kind = q.joinKind) (after : Seats kinds scope.started (some x) es u? L') :
      Seats kinds scope t? (.group q.connective members :: es) u? (L ++ L')
  /-- The facts of the base become part of the tuple, and the rest is denied. -/
  | every {scope : Scope} {t? u? : Option NodeId} {base : Pattern} {rest : List Pattern}
      {x y last : NodeId} {s : Side} {j : Join} {xs : List NodeId} {es : List Element}
      {S : List Side} {L : List Seat} (start : kinds.Starts t? j.left S)
      (range : s.pattern = (Universal.of base rest).base) (widens : kinds.Widens (some j.left) s y)
      (denies : kinds.Denies y (Universal.of base rest).rest xs last)
      (adapter : kinds j.right = some (.rightInput last)) (kind : kinds x = some (.join j))
      (joins : j.kind = .not) (after : Seats kinds scope.started (some x) es u? L) :
      Seats kinds scope t? (.every base rest :: es) u? (⟨base, rest, scope.started, xs⟩ :: L)

/-- The universal statements of a rule's branch have these seats: they stand above
    its terminal. -/
def Seated (kinds : Kinds) (rule : RuleId) (query : Bool) (b : Branch) (L : List Seat) : Prop :=
  ∃ (t? : Option NodeId) (last terminal : NodeId) (S : List Side),
    kinds.Seats [] none b.body.members t? L ∧ kinds.Starts t? last S ∧
      kinds terminal = some (.terminal last rule b.index query)

variable {kinds kinds' : Kinds} {scope : Scope} {t? u? v? : Option NodeId} {x last left : NodeId}
variable {es es' members : List Element} {ps : List Pattern} {xs xs' : List NodeId}
variable {L L' : List Seat} {e : Element}

/-! ## Building -/

theorem Chain.builds (h : kinds.Chain left ps xs last) :
    ∃ S, kinds.Builds (some left) (ps.map .pattern) (some last) S := by
  induction h with
  | nil => exact ⟨[], .nil⟩
  | cons widens _ ih =>
    obtain ⟨S, hS⟩ := ih
    exact ⟨_, .pattern widens hS⟩

theorem Denies.builds (h : kinds.Denies left ps xs x) :
    ∃ S, kinds.Builds (some left) [.group .not (ps.map .pattern)] (some x) S := by
  cases h with
  | single bears last kind denies =>
    exact ⟨_, .single (q := .none) .there bears last kind denies .nil⟩
  | several many chain adapter kind denies =>
    obtain ⟨S, hS⟩ := chain.builds
    exact ⟨_, .subnetwork (q := .none) many .there hS adapter kind denies .nil⟩

/-- Nodes that seat universal statements are built as the elements tell. -/
theorem Seats.builds (h : kinds.Seats scope t? es u? L) : ∃ S, kinds.Builds t? es u? S := by
  induction h with
  | nil => exact ⟨[], .nil⟩
  | leaf _ built _ ih =>
    obtain ⟨S, hS⟩ := ih
    exact ⟨_, built.append hS⟩
  | and _ _ ih ih' =>
    obtain ⟨S, hS⟩ := ih
    obtain ⟨S', hS'⟩ := ih'
    exact ⟨_, .and hS hS'⟩
  | subnetwork many start _ adapter kind joins _ ih ih' =>
    obtain ⟨S, hS⟩ := ih
    obtain ⟨S', hS'⟩ := ih'
    exact ⟨_, .subnetwork many start hS adapter kind joins hS'⟩
  | every start range widens denies adapter kind joins _ ih =>
    obtain ⟨S, hS⟩ := ih
    obtain ⟨S', hS'⟩ := denies.builds
    have houter := Builds.pattern widens hS'
    rw [range] at houter
    exact ⟨_, .every (.subnetwork (q := .none) rfl start houter adapter kind joins hS)⟩

theorem Seats.append (h : kinds.Seats scope t? es u? L)
    (h' : kinds.Seats (Element.scopeAfterAll scope es) u? es' v? L') :
    kinds.Seats scope t? (es ++ es') v? (L ++ L') := by
  induction h with
  | nil => exact h'
  | leaf leaf built _ ih => exact .leaf leaf built (ih h')
  | and inside _ _ ih => exact List.append_assoc .. ▸ .and inside (ih h')
  | @subnetwork _ _ _ q _ _ _ _ _ _ _ _ many start inside adapter kind joins _ _ ih =>
    refine List.append_assoc .. ▸ .subnetwork many start inside adapter kind joins (ih ?_)
    cases q <;> exact h'
  | every start range widens denies adapter kind joins _ ih =>
    exact .every start range widens denies adapter kind joins (ih h')

/-! ## Renamed nodes -/

section Served
variable {f : NodeId → NodeId} {g : RuleId → RuleId} (hs : kinds.Served f g kinds')
include hs

theorem Chain.map (h : kinds.Chain left ps xs last) :
    kinds'.Chain (f left) ps (xs.map f) (f last) := by
  induction h with
  | nil => exact .nil
  | @cons _ _ _ s _ _ widens _ ih => exact .cons (s := s.map f) (widens.map hs) ih

theorem Denies.map (h : kinds.Denies left ps xs x) :
    kinds'.Denies (f left) ps (xs.map f) (f x) := by
  cases h with
  | @single s _ j bears last kind denies =>
    obtain ⟨j', kind', hkind, hleft, hright⟩ := hs.join kind
    rw [← hleft]
    exact .single (s := s.map f) (bears.map hs) (hright ▸ getLast?_map last) kind'
      (hkind.trans denies)
  | several many chain adapter kind denies =>
    obtain ⟨j', kind', hkind, hleft, hright⟩ := hs.join kind
    rw [← hleft]
    exact .several many (hleft ▸ chain.map hs) (hright ▸ hs.kind adapter (by simp)) kind'
      (hkind.trans denies)

theorem Seats.map (h : kinds.Seats scope t? es u? L) :
    kinds'.Seats scope (t?.map f) es (u?.map f) (L.map (Seat.map f)) := by
  induction h with
  | nil => exact .nil
  | leaf leaf built _ ih => exact .leaf leaf (built.map hs) ih
  | and _ _ ih ih' =>
    rw [List.map_append]
    exact .and ih ih'
  | subnetwork many start _ adapter kind joins _ ih ih' =>
    obtain ⟨j', kind', hkind, hleft, hright⟩ := hs.join kind
    rw [List.map_append]
    exact .subnetwork many (hleft ▸ start.map hs) (by rw [hleft]; exact ih)
      (hright ▸ hs.kind adapter (by simp)) kind' (hkind.trans joins) ih'
  | @every _ _ _ _ _ _ _ _ s _ _ _ _ _ start range widens denies adapter kind joins _ ih =>
    obtain ⟨j', kind', hkind, hleft, hright⟩ := hs.join kind
    exact .every (s := s.map f) (hleft ▸ start.map hs) range (by rw [hleft]; exact widens.map hs)
      (denies.map hs) (hright ▸ hs.kind adapter (by simp)) kind' (hkind.trans joins) ih

theorem Seated.map {rule : RuleId} {query : Bool} {b : Branch} (h : kinds.Seated rule query b L) :
    kinds'.Seated (g rule) query b (L.map (Seat.map f)) := by
  obtain ⟨t?, last, terminal, S, hseats, hstarts, hkind⟩ := h
  exact ⟨t?.map f, f last, f terminal, _, hseats.map hs, hstarts.map hs, hs.kind hkind (by simp)⟩

end Served

theorem map_seat_id (L : List Seat) : L.map (Seat.map id) = L := by
  rw [show Seat.map id = id from funext fun s => by simp [Seat.map], List.map_id]

theorem Chain.mono (h : kinds.Chain left ps xs last) (hk : kinds.Within kinds') :
    kinds'.Chain left ps xs last := by
  have h := h.map hk.served
  rwa [List.map_id] at h

theorem Denies.mono (h : kinds.Denies left ps xs x) (hk : kinds.Within kinds') :
    kinds'.Denies left ps xs x := by
  have h := h.map hk.served
  rwa [List.map_id] at h

theorem Seats.mono (h : kinds.Seats scope t? es u? L) (hk : kinds.Within kinds') :
    kinds'.Seats scope t? es u? L := by
  have h := h.map hk.served
  rwa [Option.map_id_apply, Option.map_id_apply, map_seat_id] at h

theorem Seated.mono {rule : RuleId} {query : Bool} {b : Branch} (h : kinds.Seated rule query b L)
    (hk : kinds.Within kinds') : kinds'.Seated rule query b L := by
  have h := h.map hk.served
  rwa [map_seat_id] at h

/-! ## One way of seating -/

theorem Chain.unique (h : kinds.Chain left ps xs last) :
    ∀ {left' xs'}, kinds.Chain left' ps xs' last → left = left' ∧ xs = xs' := by
  induction h with
  | nil =>
    intro left' xs' h'
    cases h'
    exact ⟨rfl, rfl⟩
  | @cons left x last s ps xs widens _ ih =>
    intro left' xs' h'
    generalize hp : s.pattern = p at h'
    cases h' with
    | cons widens' rest' =>
      obtain ⟨rfl, rfl⟩ := ih rest'
      obtain ⟨hleft, -⟩ := widens.unique widens' hp
      cases hleft
      exact ⟨rfl, rfl⟩

theorem Denies.unique (h : kinds.Denies left ps xs x) {left' : NodeId}
    (h' : kinds.Denies left' ps xs' x) : left = left' ∧ xs = xs' := by
  cases h with
  | @single s _ j _ _ kind =>
    generalize hps : [s.pattern] = ps at h'
    cases h' with
    | single _ _ kind' =>
      cases kind.symm.trans kind'
      exact ⟨rfl, rfl⟩
    | several many =>
      rw [← hps] at many
      cases many
  | several many chain adapter kind =>
    cases h' with
    | single => cases many
    | several _ chain' adapter' kind' =>
      cases kind.symm.trans kind'
      cases adapter.symm.trans adapter'
      exact ⟨rfl, (chain.unique chain').2⟩

section Inversion

theorem Seats.leaf_inv (hleaf : e.isLeaf) (h : kinds.Seats scope t? (e :: es) u? L) :
    ∃ v? S, kinds.Builds t? [e] v? S ∧ kinds.Seats (e.scopeAfter scope) v? es u? L := by
  cases h with
  | leaf _ built after => exact ⟨_, _, built, after⟩
  | and | every => cases hleaf
  | @subnetwork _ _ _ q _ _ _ _ _ _ _ _ many =>
    cases q <;> simp [Element.isLeaf, Session.Quantifier.connective, many] at hleaf

theorem Seats.and_inv (h : kinds.Seats scope t? (.group .and members :: es) u? L) :
    ∃ v? L₁ L₂, kinds.Seats scope t? members v? L₁ ∧
      kinds.Seats (Element.scopeAfterAll scope members) v? es u? L₂ ∧ L = L₁ ++ L₂ := by
  generalize hc : Connective.and = c at h
  cases h with
  | leaf leaf =>
    rw [← hc] at leaf
    cases leaf
  | and inside after => exact ⟨_, _, _, inside, after, rfl⟩
  | @subnetwork _ _ _ q => cases q <;> cases hc

theorem Seats.subnetwork_inv {q : Session.Quantifier} (many : Element.single? members = none)
    (h : kinds.Seats scope t? (.group q.connective members :: es) u? L) :
    ∃ x j last S L₁ L₂, kinds.Starts t? j.left S ∧ kinds x = some (.join j) ∧
      kinds j.right = some (.rightInput last) ∧
      kinds.Seats scope.started (some j.left) members (some last) L₁ ∧
      kinds.Seats scope.started (some x) es u? L₂ ∧ L = L₁ ++ L₂ := by
  generalize hc : q.connective = c at h
  cases h with
  | leaf leaf =>
    rw [← hc] at leaf
    cases q <;> simp [Element.isLeaf, Session.Quantifier.connective, many] at leaf
  | and => cases q <;> cases hc
  | subnetwork _ start inside adapter kind _ after =>
    exact ⟨_, _, _, _, _, _, start, kind, adapter, inside, after, rfl⟩

theorem Seats.every_inv {base : Pattern} {rest : List Pattern}
    (h : kinds.Seats scope t? (.every base rest :: es) u? L) :
    ∃ x y j last xs L', kinds x = some (.join j) ∧ kinds j.right = some (.rightInput last) ∧
      kinds.Denies y (Universal.of base rest).rest xs last ∧
      kinds.Seats scope.started (some x) es u? L' ∧ L = ⟨base, rest, scope.started, xs⟩ :: L' := by
  cases h with
  | leaf leaf => cases leaf
  | every _ _ _ denies adapter kind _ after =>
    exact ⟨_, _, _, _, _, _, kind, adapter, denies, after, rfl⟩

end Inversion

/-- Where some elements end in the same tuple, they start with the same one. -/
theorem Seats.start_unique (h : kinds.Seats scope t? es u? L) {t'? : Option NodeId}
    (h' : kinds.Seats scope t'? es u? L') (ht : t?.isSome = t'?.isSome) : t? = t'? := by
  obtain ⟨S, hS⟩ := h.builds
  obtain ⟨S', hS'⟩ := h'.builds
  exact (hS.unique hS' ht).1

/-- The node at the end determines the seats in some elements. -/
theorem Seats.unique (h : kinds.Seats scope t? es u? L) :
    ∀ {t'? L'}, kinds.Seats scope t'? es u? L' → t?.isSome = t'?.isSome → L = L' := by
  induction h with
  | nil =>
    intro t'? L' h' _
    cases h'
    rfl
  | leaf leaf built after ih =>
    intro t'? L' h' ht
    obtain ⟨v?, S', built', after'⟩ := h'.leaf_inv leaf
    exact ih after' (built.isSome_eq built' ht)
  | and inside after ih ih' =>
    intro t'? L' h' ht
    obtain ⟨v?, L₁, L₂, inside', after', rfl⟩ := h'.and_inv
    obtain ⟨S, hS⟩ := inside.builds
    obtain ⟨S', hS'⟩ := inside'.builds
    have hu := hS.isSome_eq hS' ht
    obtain rfl := after.start_unique after' hu
    rw [ih inside' ht, ih' after' rfl]
  | subnetwork many start inside adapter kind joins after ih ih' =>
    intro t'? L' h' _
    obtain ⟨x', j', last', S', L₁, L₂, -, kind', adapter', inside', after', rfl⟩ :=
      h'.subnetwork_inv many
    cases after.start_unique after' rfl
    cases kind.symm.trans kind'
    cases adapter.symm.trans adapter'
    rw [ih inside' rfl, ih' after' rfl]
  | every start range widens denies adapter kind joins after ih =>
    intro t'? L' h' _
    obtain ⟨x', y', j', last', xs', L'', kind', adapter', denies', after', rfl⟩ := h'.every_inv
    cases after.start_unique after' rfl
    cases kind.symm.trans kind'
    cases adapter.symm.trans adapter'
    rw [(denies.unique denies').2, ih after' rfl]

/-- **A branch with one terminal has one choice of seats.** -/
theorem Seated.unique {rule : RuleId} {query : Bool} {b : Branch}
    (hone : ∀ x y s s', kinds x = some (.terminal s rule b.index query) →
      kinds y = some (.terminal s' rule b.index query) → x = y)
    (h : kinds.Seated rule query b L) (h' : kinds.Seated rule query b L') : L = L' := by
  obtain ⟨t?, last, x, S, hseats, hstarts, hkind⟩ := h
  obtain ⟨t'?, last', x', S', hseats', hstarts', hkind'⟩ := h'
  obtain rfl := hone x x' last last' hkind hkind'
  cases hkind.symm.trans hkind'
  obtain ⟨B, hB⟩ := hseats.builds
  obtain ⟨B', hB'⟩ := hseats'.builds
  obtain ⟨rfl, -⟩ := hstarts.unique hstarts' (hB.isSome_eq hB' rfl)
  exact hseats.unique hseats' rfl

end Kinds

/-! ## Drawn seats -/

/-- A step asks for the join of a pattern, with its tests in terms of positions;
    it tells whether guards are left out of account. -/
def Request.Tests (steps : List Request) (scope : Scope) (guardsOut : Bool) (p : Pattern) (i : Nat) :
    Prop :=
  ∃ q j, steps[i]? = some q ∧ q.kind = .join j ∧ q.guardsOut = guardsOut ∧
    List.Forall₂ scope.Resolves p.joinTests j.tests

/-- Some steps ask for the joins of some patterns, each of which puts the patterns
    before it into scope. -/
def Request.TestsAll (steps : List Request) (scope : Scope) (guardsOut : Bool) (ps : List Pattern)
    (is : List Nat) : Prop :=
  ∀ (k : Nat) (p : Pattern), ps[k]? = some p →
    ∃ i, is[k]? = some i ∧ Request.Tests steps (scope ++ ps.take k) guardsOut p i

/-- Some steps ask for the joins of the patterns of a universal statement. -/
def Seat.Drawn (s : Seat) (steps : List Request) : Prop :=
  Request.TestsAll steps (s.scope ++ [s.statement.base]) s.statement.guardsOnly s.statement.rest
    s.nodes

section Tests
variable {steps steps' : List Request} {scope : Scope} {g : Bool} {p : Pattern} {ps : List Pattern}
variable {i : Nat} {is : List Nat}

theorem Request.Tests.mono (h : Tests steps scope g p i) (hsteps : steps <+: steps') :
    Tests steps' scope g p i := by
  obtain ⟨q, j, hq, hrest⟩ := h
  obtain ⟨new, rfl⟩ := hsteps
  refine ⟨q, j, ?_, hrest⟩
  rw [List.getElem?_append_left (List.getElem?_eq_some_iff.1 hq).1, hq]

theorem Request.TestsAll.mono (h : TestsAll steps scope g ps is) (hsteps : steps <+: steps') :
    TestsAll steps' scope g ps is := fun k p hp => by
  obtain ⟨i, hi, htests⟩ := h k p hp
  exact ⟨i, hi, htests.mono hsteps⟩

theorem Request.TestsAll.cons (h : Tests steps scope g p i)
    (hall : TestsAll steps (scope ++ [p]) g ps is) : TestsAll steps scope g (p :: ps) (i :: is) := by
  intro k p' hp'
  cases k with
  | zero =>
    cases hp'
    exact ⟨i, rfl, by rwa [List.take_zero, List.append_nil]⟩
  | succ k =>
    obtain ⟨i', hi', htests⟩ := hall k p' hp'
    exact ⟨i', hi', by rwa [List.append_assoc, List.singleton_append] at htests⟩

theorem Seat.Drawn.mono {s : Seat} (h : s.Drawn steps) (hsteps : steps <+: steps') :
    s.Drawn steps' := Request.TestsAll.mono h hsteps

end Tests

namespace Draft

/-- From one draft to another, some elements have been drawn where a layout is,
    and their universal statements have been seated. -/
structure Seats (l : Layout) (es : List Element) (d d' : Draft) : Prop where
  walked : Walked (l.afterAll es) d d'
  seats : ∃ L, (stepKinds d'.steps).Seats l.scope d.tuple? es d'.tuple? L ∧ ∀ s ∈ L, s.Drawn d'.steps

variable {d d' d₁ d₂ : Draft} {c : Setting} {e : Element} {es es' : List Element} {p : Pattern}
variable {l : Layout} {tests : List JoinTest} {left : Nat}

theorem Aligned.seats_nil (h : d.Aligned l) : d.Seats l [] d :=
  ⟨h.walked, [], .nil, by simp⟩

theorem Seats.trans (h : d.Seats l es d₁) (h' : d₁.Seats (l.afterAll es) es' d₂) :
    d.Seats l (es ++ es') d₂ := by
  obtain ⟨L, hL, hdrawn⟩ := h.seats
  obtain ⟨L', hL', hdrawn'⟩ := h'.seats
  have hgrows := h'.walked.grows
  refine ⟨?_, L ++ L', (hL.mono (stepKinds_within hgrows)).append hL', fun s hs => ?_⟩
  · rw [Layout.afterAll_append]
    exact h.walked.trans h'.walked
  · exact (List.mem_append.1 hs).elim (fun hs => (hdrawn s hs).mono hgrows) (hdrawn' s)

/-- It is enough to know where the universal statements of an element sit. -/
theorem Aligned.ends_element (hd : d.Aligned l)
    (h : Draw.Ends (fun _ => True) (fun _ d' => ∃ L,
      (stepKinds d'.steps).Seats l.scope d.tuple? [e] d'.tuple? L ∧ ∀ s ∈ L, s.Drawn d'.steps)
        (Draw.element c e d)) :
    Draw.Ends (fun _ => True) (fun _ d' => d.Seats l [e] d') (Draw.element c e d) :=
  (h.and (walks_element hd e)).mono fun _ _ hd' => ⟨hd'.2, hd'.1⟩

/-! ### Elements without universal statements -/

theorem seats_leaf (hd : d.Aligned l) (hleaf : e.isLeaf) :
    Draw.Ends (fun _ => True) (fun _ d' => d.Seats l [e] d') (Draw.element c e d) := by
  refine hd.ends_element ((drawn_element e).mono fun _ d' hd' => ?_)
  obtain ⟨S, -, hbuilds⟩ := hd'
  exact ⟨[], .leaf hleaf hbuilds .nil, by simp⟩

/-! ### Universal statements -/

/-- The join of a drawn pattern makes the pattern's tests. -/
theorem tests_joined (hleft : d.tuple? = some left) (htests : d.scope.resolve p.joinTests = .ok tests) :
    Request.Tests (d.joined c p tests).steps d.scope c.guardsOut p (d.sided c p).steps.length := by
  let q := c.joinRequest .join left (p.sideEnd d.steps.length) tests true (c.expirationOf p)
  have hq : (d.joined c p tests).steps[(d.sided c p).steps.length]? = some q := by
    rw [steps_joined, hleft, List.getElem?_concat_length]
    rfl
  exact ⟨q, _, hq, rfl, rfl, Scope.resolve_eq_ok htests⟩

/-- Patterns drawn one after the other widen the tuple one after the other. -/
theorem ends_patterns (ps : List Pattern) (hleft : d.tuple? = some left) :
    Draw.Ends (fun _ => True) (fun _ d' => d.steps <+: d'.steps ∧ ∃ last is,
      d'.tuple? = some last ∧ (stepKinds d'.steps).Chain left ps is last ∧
        Request.TestsAll d'.steps d.scope c.guardsOut ps is)
      (ps.forM (fun p => do let _ ← Draw.pattern c p : Pattern → Draw Unit) d) := by
  induction ps generalizing d left with
  | nil => exact ⟨List.prefix_rfl, left, [], hleft, .nil, fun k p hp => by cases hp⟩
  | cons p ps ih =>
    have hfirst : Draw.Ends (fun _ => True) (fun _ d₁ => ∃ tests,
        d.scope.resolve p.joinTests = .ok tests ∧ d₁ = d.joined c p tests)
        ((do let _ ← Draw.pattern c p : Draw Unit) d) :=
      Draw.Ends.bind (Draw.ends_pattern trivial fun tests htests => ⟨tests, htests, rfl⟩)
        fun _ _ hd₁ => hd₁
    refine Draw.Ends.bind hfirst fun _ d₁ hd₁ => ?_
    obtain ⟨tests, htests, rfl⟩ := hd₁
    refine (ih tuple?_joined).mono fun _ d₂ hd₂ => ?_
    obtain ⟨hgrows, last, is, hlast, hchain, hall⟩ := hd₂
    have hwants : _ ∧ (stepKinds (d.joined c p tests).steps).Widens d.tuple? _ _ := widens_joined
    rw [hleft] at hwants
    exact ⟨hwants.1.grows.trans hgrows, last, _, hlast,
      .cons (hwants.2.mono (stepKinds_within hgrows)) hchain,
      .cons ((tests_joined hleft htests).mono hgrows) hall⟩

/-- The patterns of the rest are drawn as a negation of them. -/
theorem ends_denied (ps : List Pattern) (hleft : d.tuple? = some left) :
    Draw.Ends (fun _ => True) (fun _ d' => d.steps <+: d'.steps ∧ ∃ last is,
      d'.tuple? = some last ∧ (stepKinds d'.steps).Denies left ps is last ∧
        Request.TestsAll d'.steps d.scope c.guardsOut ps is)
      (Draw.quantified c .none (ps.map .pattern)
        (ps.forM fun p => do let _ ← Draw.pattern c p) d) := by
  have hstarted : d.started c = d := started_of_some hleft
  refine Draw.ends_quantified trivial trivial (fun left' p tests hleft' hp htests => ?_)
    fun left' hleft' hmany => ?_
  · rw [hstarted] at hleft' htests ⊢
    obtain rfl : left = left' := Option.some.inj (hleft.symm.trans hleft')
    obtain rfl : ps = [p] := by
      have := Element.single?_eq_some_iff.1 hp
      rwa [← List.map_singleton, List.map_inj_right fun _ _ => Element.pattern.inj] at this
    let d₂ := (d.sided c p).record p
    let request := c.joinRequest .not left (p.sideEnd d.steps.length) tests (!d.first)
      (c.expirationOf p)
    have hbears : (stepKinds (d₂.snoc request).steps).Bears ⟨p, p.sideNodes d.steps.length⟩ :=
      bears_sided (List.prefix_append _ _)
    have hasks : Request.Tests (d₂.snoc request).steps d.scope c.guardsOut p d₂.steps.length :=
      ⟨request, _, List.getElem?_concat_length, rfl, rfl, Scope.resolve_eq_ok htests⟩
    refine ⟨(List.prefix_append _ _).trans (List.prefix_append _ [request]), _, _, rfl,
      .single hbears getLast?_sideNodes (stepKinds_concat _ request) rfl, ?_⟩
    exact .cons hasks fun k p hp => by cases hp
  · rw [hstarted] at hleft' ⊢
    obtain rfl : left = left' := Option.some.inj (hleft.symm.trans hleft')
    refine (ends_patterns ps hleft).mono fun _ d₂ hd₂ => ⟨trivial, fun last hlast => ?_⟩
    obtain ⟨hgrows, last', is, hlast', hchain, hall⟩ := hd₂
    obtain rfl : last = last' := Option.some.inj (hlast.symm.trans hlast')
    obtain ⟨hafter, x, j, htuple, hkind, hjoins, rfl, hright⟩ :=
      d₂.exists_closed c .none left last d.scope.length d.first
    exact ⟨hgrows.trans hafter, x, is, htuple,
      .several hmany (hchain.mono (stepKinds_within hafter)) hright hkind hjoins, hall.mono hafter⟩

/-- A universal statement is drawn as the negation that it is, and so has a
    seat. -/
theorem seats_universal (hd : d.Aligned l) (base : Pattern) (rest : List Pattern) :
    Draw.Ends (fun _ => True) (fun _ d' => d.Seats l [.every base rest] d')
      (Draw.element c (.every base rest) d) := by
  refine hd.ends_element ?_
  rw [Draw.element]
  let u := Universal.of base rest
  let c' : Setting := { c with guardsOut := u.guardsOnly }
  have hstarted : Walked l.started d (d.started c') := walked_started hd
  change Draw.Ends _ _ (Draw.quantified c' .none u.outer (do
    let _ ← Draw.pattern c' u.base
    Draw.quantified c' .none u.inner (u.rest.forM fun p => do let _ ← Draw.pattern c' p)) d)
  refine Draw.ends_quantified trivial trivial (fun _ p _ _ hp => ?_) fun left hleft _ => ?_
  · cases Element.single?_eq_some_iff.1 hp
  obtain ⟨S, hS, hstarts⟩ := begins_started hleft
  have hrange : Draw.Ends (fun _ => True) (fun _ d₂ => ∃ tests,
      d₂ = (d.started c').joined c' u.base tests) (Draw.pattern c' u.base (d.started c')) :=
    Draw.ends_pattern trivial fun tests _ => ⟨tests, rfl⟩
  refine Draw.Ends.bind hrange fun _ d₂ hd₂ => ?_
  obtain ⟨tests, rfl⟩ := hd₂
  refine (ends_denied u.rest tuple?_joined).mono fun _ d₃ hd₃ => ⟨trivial, fun last hlast => ?_⟩
  obtain ⟨hgrows, last', is, hlast', hdenies, hall⟩ := hd₃
  obtain rfl : last = last' := Option.some.inj (hlast.symm.trans hlast')
  have hwants : _ ∧ (stepKinds ((d.started c').joined c' u.base tests).steps).Widens
    (d.started c').tuple? _ _ := widens_joined
  rw [hleft] at hwants
  obtain ⟨hafter, x, j, htuple, hkind, hjoins, rfl, hright⟩ :=
    d₃.exists_closed c' .none left last (d.started c').scope.length (d.started c').first
  refine ⟨[⟨base, rest, l.scope.started, is⟩], ?_, fun s hs => ?_⟩
  · rw [htuple]
    exact .every (hstarts.mono (stepKinds_within (hwants.1.grows.trans (hgrows.trans hafter)))) rfl
      (hwants.2.mono (stepKinds_within (hgrows.trans hafter)))
      (hdenies.mono (stepKinds_within hafter)) hright hkind hjoins .nil
  · rw [List.mem_singleton.1 hs]
    have hall := hall.mono hafter
    rwa [scope_joined, hstarted.aligned.scope] at hall

/-! ### Rules -/

/-- A negation or existence claim of more than a pattern is a subnetwork, in which
    universal statements sit. -/
theorem seats_subnetwork {q : Session.Quantifier} {members : List Element} (hd : d.Aligned l)
    (hmany : Element.single? members = none)
    (hdraw : Draw.element c (.group q.connective members) =
      Draw.quantified c q members (Draw.elements c members))
    (hm : ∀ d₁ : Draft, d₁.Aligned l.started → Draw.Ends (fun _ => True)
      (fun _ d' => d₁.Seats l.started members d') (Draw.elements c members d₁)) :
    Draw.Ends (fun _ => True) (fun _ d' => d.Seats l [.group q.connective members] d')
      (Draw.element c (.group q.connective members) d) := by
  refine hd.ends_element ?_
  rw [hdraw]
  have hstarted : Walked l.started d (d.started c) := walked_started hd
  refine Draw.ends_quantified trivial trivial (fun _ p _ _ hp => ?_) fun left hleft _ => ?_
  · rw [hmany] at hp
    cases hp
  obtain ⟨S, hS, hstarts⟩ := begins_started hleft
  refine (hm _ hstarted.aligned).mono fun _ d₂ hd₂ =>
    ⟨trivial, fun last hlast => ?_⟩
  obtain ⟨L, hL, hdrawn⟩ := hd₂.seats
  rw [hleft, hlast] at hL
  obtain ⟨hafter, x, j, htuple, hkind, hjoins, rfl, hright⟩ :=
    d₂.exists_closed c q left last (d.started c).scope.length (d.started c).first
  refine ⟨L ++ [], ?_, fun s hs => ?_⟩
  · rw [htuple]
    exact .subnetwork hmany (hstarts.mono (stepKinds_within (hd₂.walked.grows.trans hafter)))
      (hL.mono (stepKinds_within hafter)) hright hkind hjoins .nil
  · rw [List.append_nil] at hs
    exact (hdrawn s hs).mono hafter

mutual

theorem seats_element {d : Draft} {l : Layout} (hd : d.Aligned l) : (e : Element) →
    Draw.Ends (fun _ => True) (fun _ d' => d.Seats l [e] d') (Draw.element c e d)
  | .pattern _ | .call _ => seats_leaf hd rfl
  | .group .and members => by
    refine hd.ends_element ?_
    rw [Draw.element]
    refine (seats_elements hd members).mono fun _ d' hd' => ?_
    obtain ⟨L, hL, hdrawn⟩ := hd'.seats
    exact ⟨L ++ [], .and hL .nil, by rwa [List.append_nil]⟩
  | .group .or members => by
    rw [Draw.element]
    exact trivial
  | .group .not members => by
    cases hp : Element.single? members with
    | some p => exact seats_leaf hd (by rw [Element.isLeaf, hp]; rfl)
    | none =>
      refine seats_subnetwork (q := .none) hd hp ?_ fun _ hd₁ => seats_elements hd₁ members
      rw [Session.Quantifier.connective, Draw.element]
  | .group .exists members => by
    cases hp : Element.single? members with
    | some p => exact seats_leaf hd (by rw [Element.isLeaf, hp]; rfl)
    | none =>
      refine seats_subnetwork (q := .some) hd hp ?_ fun _ hd₁ => seats_elements hd₁ members
      rw [Session.Quantifier.connective, Draw.element]
  | .every base rest => seats_universal hd base rest

/-- **Drawing elements seats their universal statements.** -/
theorem seats_elements {d : Draft} {l : Layout} (hd : d.Aligned l) : (es : List Element) →
    Draw.Ends (fun _ => True) (fun _ d' => d.Seats l es d') (Draw.elements c es d)
  | [] => by
    rw [Draw.elements]
    exact hd.seats_nil
  | e :: es => by
    rw [Draw.elements]
    refine Draw.Ends.bind (seats_element hd e) fun _ d₁ hd₁ => ?_
    exact (seats_elements hd₁.walked.aligned es).mono fun _ _ hd₂ => hd₁.trans hd₂

end

end Draft

/-- Some steps ask for the nodes of a branch, with its universal statements in
    these seats. -/
def Branch.Seating (steps : List Request) (query : Bool) (b : Branch) (L : List Seat) : Prop :=
  (stepKinds steps).Seated 0 query b L ∧ ∀ s ∈ L, s.Drawn steps

theorem Branch.Seating.mono {steps steps' : List Request} {query : Bool} {b : Branch} {L : List Seat}
    (h : b.Seating steps query L) (hsteps : steps <+: steps') : b.Seating steps' query L :=
  ⟨h.1.mono (stepKinds_within hsteps), fun s hs => (h.2 s hs).mono hsteps⟩

namespace Draw

variable {config : Config} {query : Bool} {d d' : Draft}

theorem ends_seating (b : Branch) :
    Ends (fun _ => True) (fun _ d' => d.steps <+: d'.steps ∧ ∃ L, b.Seating d'.steps query L)
      (branch config query b d) := by
  refine ends_branch trivial fun distances? _ => ?_
  let c : Setting := ⟨config.objectTypeMemory, distances?, false⟩
  refine ends_terminal ((Draft.seats_elements (c := c) d.aligned_nextBranch b.body.members).mono
    fun _ d₁ hd₁ last hlast => ?_)
  obtain ⟨L, hL, hdrawn⟩ := hd₁.seats
  obtain ⟨S, hS, hstarts⟩ := Draft.begins_started hlast
  let request : Request := ⟨.terminal last 0 b.index query, false, none⟩
  have hend : (d₁.started c).steps <+: ((d₁.started c).snoc request).steps :=
    List.prefix_append _ _
  refine ⟨hd₁.walked.grows.trans (hS.grows.trans hend), L, ⟨d₁.tuple?, last, _, S, ?_, ?_,
    stepKinds_concat (d₁.started c).steps request⟩, fun s hs => ?_⟩
  · exact hL.mono (stepKinds_within (hS.grows.trans hend))
  · exact hstarts.mono (stepKinds_within hend)
  · exact (hdrawn s hs).mono (hS.grows.trans hend)

theorem exists_seatings {bs : List Branch} {ts : List Nat}
    (h : bs.mapM (branch config query) d = .ok ts d') : d.steps <+: d'.steps ∧
      ∃ seats, List.Forall₂ (Branch.Seating d'.steps query) bs seats := by
  induction bs generalizing d ts with
  | nil =>
    cases h
    exact ⟨List.prefix_rfl, [], .nil⟩
  | cons b bs ih =>
    rw [List.mapM_cons] at h
    obtain ⟨t, d₁, hb, h⟩ := bind_inv h
    obtain ⟨ts, d₂, hbs, h⟩ := bind_inv h
    cases h
    have hends := @ends_seating config query d b
    rw [hb] at hends
    obtain ⟨hgrows, L, hL⟩ := hends
    obtain ⟨hgrows', seats, hseats⟩ := ih hbs
    exact ⟨hgrows.trans hgrows', L :: seats, .cons (hL.mono hgrows') hseats⟩

end Draw

/-- A blueprint asks for the nodes of each branch, with its universal statements
    in seats. -/
theorem Rule.exists_seatings {config : Config} {r : Rule} {bp : Blueprint}
    (h : r.blueprint config = .ok bp) : ∃ bs seats, r.body.branches = .ok bs ∧
      List.Forall₂ (Branch.Seating bp.steps r.isQuery) bs seats := by
  obtain ⟨bs, d, hbs, hd, hsteps⟩ := exists_drawn h
  obtain ⟨-, seats, hseats⟩ := Draw.exists_seatings hd
  exact ⟨bs, seats, hbs, hsteps ▸ hseats⟩

end RuleNet
