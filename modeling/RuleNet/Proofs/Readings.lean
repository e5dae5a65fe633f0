/-
  RuleNet — for which element a request reads tuples.

  Joins test the facts of tuples, and query elements take arguments from them.
  Each request of this kind is made when an element of the rule is drawn: a
  pattern, a negation, an existence claim or a call.  It reads slots of the tuple
  at hand there, and the ones that the element means where it stands
  (`Element.BuiltAs`, `Draft.accounts_elements`).
-/
import RuleNet.Proofs.Alignment

namespace RuleNet

/-- Whether a node reads the facts of tuples. -/
def NodeKind.ReadsTuples : NodeKind → Prop
  | .join _ | .queryElement .. => True
  | _ => False

theorem NodeKind.readsTuples_map {k : NodeKind} {f : NodeId → NodeId} {g : RuleId → RuleId} :
    (k.map f g).ReadsTuples ↔ k.ReadsTuples := by
  cases k <;> rfl

/-! ## What elements mean -/

/-- A join takes in the facts of a pattern, and makes the tests of the pattern
    where it stands. -/
structure Pattern.JoinedBy (kinds : Kinds) (l : Layout) (p : Pattern) (j : Join) : Prop where
  left : Slots kinds j.left l.slots
  /-- The facts come down the object side of the pattern. -/
  right : ∃ s : Side, s.pattern = p ∧ kinds.Bears s ∧ s.nodes.getLast? = some j.right
  /-- What is declared at an offset is read from its position. -/
  resolved : List.Forall₂ l.scope.Resolves p.joinTests j.tests
  inside : ∀ t ∈ j.tests, t.target < l.slots.length

/-- A query element puts a call where it stands. -/
structure QueryCall.PutBy (kinds : Kinds) (l : Layout) (q : QueryCall) (left : NodeId)
    (arguments : List Argument) : Prop where
  left : Slots kinds left l.slots
  resolved : List.Forall₂ l.scope.ResolvesArgument q.arguments arguments
  inside : ∀ read, .bound read ∈ arguments → read.offset < l.slots.length

/-- An element that stands where a layout is, is built as a node of some kind,
    with the nodes above. -/
inductive Element.BuiltAs (kinds : Kinds) (l : Layout) : Element → NodeKind → Prop where
  | pattern {p : Pattern} {j : Join} (widens : j.kind = .join) (joined : p.JoinedBy kinds l j) :
      BuiltAs kinds l (.pattern p) (.join j)
  /-- There is a tuple where a negation or existence claim is made. -/
  | single {q : Session.Quantifier} {p : Pattern} {j : Join} (joins : j.kind = q.joinKind)
      (joined : p.JoinedBy kinds l.started j) :
      BuiltAs kinds l (.group q.connective [.pattern p]) (.join j)
  /-- Tuples are compared with those of the members; no test is made. -/
  | subnetwork {q : Session.Quantifier} {members : List Element} {j : Join} {last : NodeId}
      (many : single? members = none) (joins : j.kind = q.joinKind)
      (left : Slots kinds j.left l.started.slots) (right : kinds j.right = some (.rightInput last))
      (untested : j.tests = []) : BuiltAs kinds l (.group q.connective members) (.join j)
  | call {q : QueryCall} {left : NodeId} {arguments : List Argument}
      (put : q.PutBy kinds l.started left arguments) :
      BuiltAs kinds l (.call q) (.queryElement left q.query arguments)

section Served

variable {kinds kinds' : Kinds} {l : Layout} {p : Pattern} {j : Join} {e : Element} {k : NodeKind}
variable {f : NodeId → NodeId} {g : RuleId → RuleId} (hs : kinds.Served f g kinds')
include hs

theorem Pattern.JoinedBy.map (h : p.JoinedBy kinds l j) :
    p.JoinedBy kinds' l { j with left := f j.left, right := f j.right } where
  left := h.left.map hs
  right := by
    obtain ⟨s, hp, hbears, hlast⟩ := h.right
    exact ⟨s.map f, hp, hbears.map hs, Kinds.getLast?_map hlast⟩
  resolved := h.resolved
  inside := h.inside

/-- Renamed nodes read the same. -/
theorem Element.BuiltAs.map (h : e.BuiltAs kinds l k) : e.BuiltAs kinds' l (k.map f g) := by
  cases h with
  | pattern widens joined => exact .pattern widens (joined.map hs)
  | single joins joined => exact .single joins (joined.map hs)
  | subnetwork many joins left right untested =>
    exact .subnetwork many joins (left.map hs) (hs.kind right (by simp)) untested
  | call put => exact .call ⟨put.left.map hs, put.resolved, put.inside⟩

end Served

theorem Element.BuiltAs.mono {kinds kinds' : Kinds} {l : Layout} {e : Element} {k : NodeKind}
    (h : e.BuiltAs kinds l k) (hk : kinds.Within kinds') : e.BuiltAs kinds' l k := by
  have h := h.map hk.served
  rwa [NodeKind.map_id] at h

/-! ## Drawing through elements -/

namespace Draw

/-- Drawing some elements from a draft on comes by another draft, from which some
    of the elements inside are still to be drawn. -/
inductive Passes : Setting → Layout → List Element → Draft → Setting → Layout → List Element →
    Draft → Prop where
  | here {c : Setting} {l : Layout} {es : List Element} {d : Draft} : Passes c l es d c l es d
  | later {c c' : Setting} {l l' : Layout} {e : Element} {es es' : List Element} {d d₁ d' : Draft}
      (drawn : element c e d = .ok () d₁) (after : Passes c (l.after e) es d₁ c' l' es' d') :
      Passes c l (e :: es) d c' l' es' d'
  | and {c c' : Setting} {l l' : Layout} {members es es' : List Element} {d d' : Draft}
      (inside : Passes c l members d c' l' es' d') :
      Passes c l (.group .and members :: es) d c' l' es' d'
  | quantified {c c' : Setting} {l l' : Layout} {q : Session.Quantifier}
      {members es es' : List Element} {d d' : Draft} (nonempty : members ≠ [])
      (many : Element.single? members = none)
      (inside : Passes c l.started members (d.started c) c' l' es' d') :
      Passes c l (.group q.connective members :: es) d c' l' es' d'
  /-- A universal statement is drawn as the negation that it is. -/
  | every {c c' : Setting} {l l' : Layout} {base : Pattern} {rest : List Pattern}
      {es es' : List Element} {d d' : Draft}
      (inside : Passes { c with guardsOut := (Universal.of base rest).guardsOnly } l
        [.group .not (Universal.of base rest).outer] d c' l' es' d') :
      Passes c l (.every base rest :: es) d c' l' es' d'

variable {c c' : Setting} {l l' : Layout} {e e' : Element} {es es' : List Element} {d d' : Draft}

/-- What comes up in the first element comes up in the list. -/
theorem Passes.head (h : Passes c l [e] d c' l' (e' :: es') d') :
    ∃ es₁, Passes c l (e :: es) d c' l' (e' :: es₁) d' := by
  cases h with
  | here => exact ⟨es, .here⟩
  | later _ after => cases after
  | and inside => exact ⟨es', .and inside⟩
  | quantified nonempty many inside => exact ⟨es', .quantified nonempty many inside⟩
  | every inside => exact ⟨es', .every inside⟩

/-- Drawing an element makes a step that reads tuples. -/
structure Makes (c : Setting) (l : Layout) (e : Element) (d d' : Draft) (i : Nat) (k : NodeKind) :
    Prop where
  drawn : element c e d = .ok () d'
  grows : d.steps <+: d'.steps
  new : d.steps.length ≤ i
  /-- The step gives the tuple at hand afterwards. -/
  tuple : d'.tuple? = some i
  built : e.BuiltAs (stepKinds d'.steps) l k

/-- A step has been made for an element that drawing has come to, where `P` tells
    what drawing comes by. -/
def MadeIn (P : Setting → Layout → List Element → Draft → Prop) (steps : List Request) (i : Nat)
    (k : NodeKind) : Prop :=
  ∃ c l e es d₁ d₂, P c l (e :: es) d₁ ∧ Makes c l e d₁ d₂ i k ∧ d₂.steps <+: steps

variable {P P' : Setting → Layout → List Element → Draft → Prop} {steps steps' : List Request}

theorem MadeIn.imp {i : Nat} {k : NodeKind} (h : MadeIn P steps i k) (hsteps : steps <+: steps')
    (hP : ∀ {c l e es d}, P c l (e :: es) d → ∃ es', P' c l (e :: es') d) :
    MadeIn P' steps' i k := by
  obtain ⟨c, l, e, es, d₁, d₂, hp, hmakes, hgrows⟩ := h
  obtain ⟨es', hp⟩ := hP hp
  exact ⟨c, l, e, es', d₁, d₂, hp, hmakes, hgrows.trans hsteps⟩

end Draw

/-! ## New requests -/

/-- What the requests that came in addition to others and read tuples are like. -/
def NewReadings (P : Nat → NodeKind → Prop) (steps steps' : List Request) : Prop :=
  ∀ i q, steps.length ≤ i → steps'[i]? = some q → q.kind.ReadsTuples → P i q.kind

section NewReadings
variable {P Q : Nat → NodeKind → Prop} {steps steps₁ steps' new : List Request} {q : Request}

theorem newReadings_refl : NewReadings P steps steps := by
  intro i q hi hq
  rw [List.getElem?_eq_none hi] at hq
  cases hq

theorem NewReadings.mono (h : NewReadings P steps steps') (hP : ∀ i k, P i k → Q i k) :
    NewReadings Q steps steps' := fun i q hi hq hreads => hP i _ (h i q hi hq hreads)

theorem NewReadings.trans (h : NewReadings P steps steps₁) (hgrows : steps₁ <+: steps')
    (h' : NewReadings P steps₁ steps') : NewReadings P steps steps' := by
  intro i q hi hq hreads
  by_cases hi' : i < steps₁.length
  · rw [List.prefix_iff_getElem?.1 hgrows i hi'] at hq
    exact h i q hi (by rw [List.getElem?_eq_getElem hi', hq]) hreads
  · exact h' i q (not_lt.1 hi') hq hreads

theorem newReadings_append (h : ∀ q ∈ new, ¬ q.kind.ReadsTuples) :
    NewReadings P steps (steps ++ new) := by
  intro i q hi hq hreads
  rw [List.getElem?_append_right hi] at hq
  exact absurd hreads (h q (List.mem_of_getElem? hq))

theorem newReadings_concat (h : q.kind.ReadsTuples → P steps.length q.kind) :
    NewReadings P steps (steps ++ [q]) := by
  intro i q' hi hq hreads
  obtain hq | ⟨rfl, rfl⟩ := getElem?_concat_cases hq
  · rw [List.getElem?_eq_none hi] at hq
    cases hq
  · exact h hreads

end NewReadings

namespace Draft

variable {d d' d₁ d₂ : Draft} {c : Setting} {p : Pattern} {tests : List JoinTest} {left i : Nat}
variable {l : Layout} {es members : List Element} {e : Element} {q : Session.Quantifier}
variable {P : Nat → NodeKind → Prop}

/-- Object sides read no tuples. -/
theorem newReadings_sided : NewReadings P d.steps (d.sided c p).steps := by
  refine newReadings_append fun q hq => ?_
  simp only [Setting.side, List.mem_cons, List.mem_mapIdx] at hq
  obtain rfl | rfl | ⟨i, hi, rfl⟩ := hq <;> exact id

theorem newReadings_started : NewReadings P d.steps (d.started c).steps := by
  cases ht : d.tuple? with
  | some i =>
    rw [started_of_some ht]
    exact newReadings_refl
  | none =>
    rw [started_of_none ht, steps_joined, ht]
    exact newReadings_sided.trans (List.prefix_append _ _) (newReadings_concat False.elim)

theorem steps_prefix_started : d.steps <+: (d.started c).steps := by
  cases ht : d.tuple? with
  | some i =>
    rw [started_of_some ht]
  | none =>
    rw [started_of_none ht, steps_joined]
    exact (List.prefix_append _ _).trans (List.prefix_append _ _)

/-! ## Accounts -/

/-- Each step that has been added and reads tuples was made for an element that
    drawing has come to. -/
structure Accounts (P : Setting → Layout → List Element → Draft → Prop) (d d' : Draft) : Prop where
  grows : d.steps <+: d'.steps
  made : NewReadings (Draw.MadeIn P d'.steps) d.steps d'.steps

/-- This is so whether drawing ends well or fails. -/
def Accounted {α : Type} (P : Setting → Layout → List Element → Draft → Prop) (d : Draft) :
    EStateM.Result Fault Draft α → Prop :=
  Draw.Ends (Accounts P d) fun _ => Accounts P d

/-- What an element adds that reads tuples was made for an element inside, or
    gives the tuple at hand afterwards and is what the element itself means. -/
structure Adds (c : Setting) (l : Layout) (e : Element) (d d' : Draft) : Prop where
  grows : d.steps <+: d'.steps
  made : NewReadings (fun i k => Draw.MadeIn (Draw.Passes c l [e] d) d'.steps i k ∨
    d'.tuple? = some i ∧ e.BuiltAs (stepKinds d'.steps) l k) d.steps d'.steps

variable {R R' : Setting → Layout → List Element → Draft → Prop}

theorem accounts_refl : Accounts R d d := ⟨List.prefix_rfl, newReadings_refl⟩

/-- The initial fact is no reading. -/
theorem accounts_started : Accounts R d (d.started c) :=
  ⟨steps_prefix_started, newReadings_started⟩

theorem Accounts.imp (h : Accounts R d d')
    (hR : ∀ {c l e es d}, R c l (e :: es) d → ∃ es', R' c l (e :: es') d) : Accounts R' d d' :=
  ⟨h.grows, h.made.mono fun _ _ hmade => hmade.imp List.prefix_rfl hR⟩

theorem Accounts.trans (h : Accounts R d d₁) (h' : Accounts R d₁ d₂) : Accounts R d d₂ where
  grows := h.grows.trans h'.grows
  made := NewReadings.trans (h.made.mono fun _ _ hmade => hmade.imp h'.grows fun hp => ⟨_, hp⟩)
    h'.grows h'.made

theorem Accounted.imp {α : Type} {r : EStateM.Result Fault Draft α} (h : Accounted R d r)
    (hR : ∀ {c l e es d}, R c l (e :: es) d → ∃ es', R' c l (e :: es') d) : Accounted R' d r :=
  Draw.Ends.imp h (fun _ h => h.imp hR) fun _ _ h => h.imp hR

theorem Adds.accounts (h : d.Adds c l e d') (hdrawn : Draw.element c e d = .ok () d') :
    Accounts (Draw.Passes c l [e] d) d d' where
  grows := h.grows
  made i q hi hq hreads := by
    obtain hmade | ⟨htuple, hbuilt⟩ := h.made i q hi hq hreads
    · exact hmade
    · exact ⟨c, l, e, [], d, d', .here, ⟨hdrawn, h.grows, hi, htuple, hbuilt⟩, List.prefix_rfl⟩

theorem accounted_of_adds
    (h : Draw.Ends (Accounts (Draw.Passes c l [e] d) d) (fun _ => Adds c l e d)
      (Draw.element c e d)) : Accounted (Draw.Passes c l [e] d) d (Draw.element c e d) := by
  cases hr : Draw.element c e d with
  | ok a d' =>
    rw [hr] at h
    exact h.accounts hr
  | error f d' =>
    rw [hr] at h
    exact h

/-! ### Patterns and calls -/

open Draw

/-- A join on the object side of a pattern makes the tests of the pattern. -/
theorem joinedBy_sided {j : Join} {steps : List Request} (h : d.Aligned l) (hleft : d.tuple? = some j.left)
    (htests : d.scope.resolve p.joinTests = .ok j.tests)
    (hright : p.sideEnd d.steps.length = j.right) (hgrows : (d.sided c p).steps <+: steps) :
    p.JoinedBy (stepKinds steps) l j where
  left := (h.slots hleft).mono (stepKinds_within ((List.prefix_append _ _).trans hgrows))
  right := by
    have hbears : (stepKinds ({ d with steps } : Draft).steps).Bears _ := bears_sided hgrows
    exact ⟨_, rfl, hbears, hright ▸ getLast?_sideNodes⟩
  resolved := by
    rw [← h.scope]
    exact Scope.resolve_eq_ok htests
  inside t ht := by
    obtain ⟨written, -, hresolves⟩ := exists_of_forall₂ (Scope.resolve_eq_ok htests) t ht
    rw [← h.length, ← h.scope]
    exact hresolves.lt

theorem accounted_pattern (h : d.Aligned l) :
    Accounted (Passes c l [.pattern p] d) d (element c (.pattern p) d) := by
  refine accounted_of_adds ?_
  rw [element]
  refine Ends.bind (P := fun _ => Adds c l (.pattern p) d)
    (ends_pattern accounts_refl fun tests htests => ?_) fun _ _ h => h
  have hgrows : (d.sided c p).steps <+: (d.joined c p tests).steps := List.prefix_append _ _
  refine ⟨(List.prefix_append _ _).trans hgrows, newReadings_sided.trans hgrows ?_⟩
  rw [steps_joined] at hgrows ⊢
  refine newReadings_concat fun hreads => ?_
  cases ht : d.tuple? with
  | none =>
    rw [ht] at hreads
    cases hreads
  | some left =>
    rw [ht] at hgrows
    exact .inr ⟨tuple?_joined, .pattern rfl (joinedBy_sided h ht htests rfl hgrows)⟩

theorem accounted_call {call : QueryCall} (h : d.Aligned l) :
    Accounted (Passes c l [.call call] d) d (element c (.call call) d) := by
  refine accounted_of_adds ?_
  rw [element]
  have hstarted := (walked_started (c := c) h).aligned
  refine ends_call accounts_started fun left arguments hleft harguments => ?_
  have hgrows : (d.started c).steps <+: (d.started c).steps ++
      [⟨.queryElement left call.query arguments, c.guardsOut, none⟩] := List.prefix_append _ _
  refine ⟨steps_prefix_started.trans hgrows, newReadings_started.trans hgrows ?_⟩
  refine newReadings_concat fun _ => .inr ⟨rfl, .call ⟨?_, ?_, fun read hread => ?_⟩⟩
  · exact (hstarted.slots hleft).mono (stepKinds_within hgrows)
  · rw [← hstarted.scope]
    exact Scope.resolveArguments_eq_ok harguments
  · obtain ⟨written, -, hresolves⟩ :=
      exists_of_forall₂ (Scope.resolveArguments_eq_ok harguments) _ hread
    rw [← hstarted.length, ← hstarted.scope]
    exact hresolves.lt

/-! ### Negations and existence claims -/

section Group
variable {left : Nat} (h : (d.started c).Aligned l.started)
variable (hleft : (d.started c).tuple? = some left)
include h hleft

/-- A negation or existence claim of one pattern adds a join that makes the tests
    of the pattern. -/
theorem adds_single {tests : List JoinTest} (hp : Element.single? members = some p)
    (htests : (d.started c).scope.resolve p.joinTests = .ok tests) :
    Adds c l (.group q.connective members) d ((((d.started c).sided c p).record p).closed c q left
      (d.started c).first (p.sideEnd (d.started c).steps.length, tests, c.expirationOf p)) := by
  have hgrows : ((d.started c).sided c p).steps <+: _ := List.prefix_append _
    [c.joinRequest q.joinKind left (p.sideEnd (d.started c).steps.length) tests
      (!(d.started c).first) (c.expirationOf p)]
  have hsided : (d.started c).steps <+: ((d.started c).sided c p).steps := List.prefix_append _ _
  rw [Element.single?_eq_some_iff.1 hp]
  refine ⟨steps_prefix_started.trans (hsided.trans hgrows),
    newReadings_started.trans (hsided.trans hgrows) (newReadings_sided.trans hgrows ?_)⟩
  exact newReadings_concat fun _ =>
    .inr ⟨rfl, .single rfl (joinedBy_sided h hleft htests rfl hgrows)⟩

/-- One of many members adds an adapter and a join without tests, after what the
    members have added. -/
theorem adds_subnetwork {last : Nat} (hmany : Element.single? members = none)
    (hinside : Accounts (Passes c l [.group q.connective members] d) d d')
    (hmembers : (d.started c).steps <+: d'.steps) :
    Adds c l (.group q.connective members) d ((d'.cut c left last (d.started c).scope.length).closed
      c q left (d.started c).first (d'.steps.length, [], none)) := by
  let adapter : Request := ⟨.rightInput last, c.guardsOut, none⟩
  let request := c.joinRequest q.joinKind left d'.steps.length [] (!(d.started c).first) none
  have hadapter : d'.steps <+: d'.steps ++ [adapter] := List.prefix_append _ _
  have hclosed : d'.steps ++ [adapter] <+: d'.steps ++ [adapter] ++ [request] :=
    List.prefix_append _ _
  have hgrows := hadapter.trans hclosed
  have hright : stepKinds (d'.steps ++ [adapter] ++ [request]) d'.steps.length =
      some (.rightInput last) :=
    stepKinds_within hclosed _ _ (stepKinds_concat d'.steps adapter)
  refine ⟨hinside.grows.trans hgrows, NewReadings.trans ?_ hgrows ?_⟩
  · exact hinside.made.mono fun i k hmade => .inl (hmade.imp hgrows fun hp => ⟨_, hp⟩)
  refine NewReadings.trans (newReadings_concat False.elim) hclosed ?_
  refine newReadings_concat fun _ => .inr ⟨rfl, .subnetwork hmany rfl ?_ hright rfl⟩
  exact (h.slots hleft).mono (stepKinds_within (hmembers.trans hgrows))

end Group

theorem accounted_group (h : d.Aligned l)
    (hm : ∀ d₁ : Draft, d₁.Aligned l.started →
      Accounted (Passes c l.started members d₁) d₁ (elements c members d₁)) :
    Accounted (Passes c l [.group q.connective members] d) d (element c (.group q.connective members) d) := by
  have helement : element c (.group q.connective members) =
      quantified c q members (elements c members) := by
    cases q <;> rw [Session.Quantifier.connective, element]
  by_cases hempty : members = []
  · rw [helement, hempty]
    exact accounts_refl
  refine accounted_of_adds ?_
  rw [helement]
  have hstarted := (walked_started (c := c) h).aligned
  refine ends_quantified accounts_refl accounts_started
    (fun left p tests hleft hp htests => adds_single hstarted hleft hp htests)
    fun left hleft hmany => ?_
  -- what the members account for is accounted for
  have hinside : ∀ d₂, Accounts (Passes c l.started members (d.started c)) (d.started c) d₂ →
      Accounts (Passes c l [.group q.connective members] d) d d₂ := fun d₂ hd₂ =>
    accounts_started.trans (hd₂.imp fun hp => ⟨_, .quantified hempty hmany hp⟩)
  exact Ends.imp (hm _ hstarted) hinside fun _ d₂ hd₂ =>
    ⟨hinside d₂ hd₂, fun _ _ => adds_subnetwork hstarted hleft hmany (hinside d₂ hd₂) hd₂.grows⟩

/-! ### Elements -/

theorem accounted_nil : Accounted (Passes c l [] d) d (elements c [] d) := by
  rw [elements]
  exact accounts_refl

/-- One element after the other. -/
theorem accounted_cons (h : d.Aligned l) (he : Accounted (Passes c l [e] d) d (element c e d))
    (hes : ∀ d₁ : Draft, d₁.Aligned (l.after e) →
      Accounted (Passes c (l.after e) es d₁) d₁ (elements c es d₁)) :
    Accounted (Passes c l (e :: es) d) d (elements c (e :: es) d) := by
  have hwalks := walks_element (c := c) h e
  rw [elements]
  cases hr : element c e d with
  | error f d₁ =>
    rw [hr] at he
    rw [Session.bind_error hr]
    exact Accounts.imp he fun hp => hp.head
  | ok _ d₁ =>
    rw [hr] at he hwalks
    rw [Session.bind_ok hr]
    have hfirst : Accounts (Passes c l (e :: es) d) d d₁ := Accounts.imp he fun hp => hp.head
    have hrest : Accounted (Passes c l (e :: es) d) d₁ (elements c es d₁) :=
      (hes d₁ hwalks.aligned).imp fun hp => ⟨_, .later hr hp⟩
    exact Ends.imp hrest (fun _ => hfirst.trans) fun _ _ => hfirst.trans

theorem accounted_patterns (h : d.Aligned l) (ps : List Pattern) :
    Accounted (Passes c l (ps.map .pattern) d) d (elements c (ps.map .pattern) d) := by
  induction ps generalizing d l with
  | nil => exact accounted_nil
  | cons p ps ih => exact accounted_cons h (accounted_pattern h) fun _ h₁ => ih h₁

/-- A universal statement is drawn as the negation that it is. -/
theorem accounted_universal (h : d.Aligned l) (base : Pattern) (rest : List Pattern) :
    Accounted (Passes c l [.every base rest] d) d (element c (.every base rest) d) := by
  let c' : Setting := { c with guardsOut := (Universal.of base rest).guardsOnly }
  have hnegation : Accounted (Passes c' l [.group .not (Universal.of base rest).outer] d) d
      (element c' (.group .not (Universal.of base rest).outer) d) := by
    refine accounted_group (q := .none) h fun d₁ h₁ => ?_
    refine accounted_cons h₁ (accounted_pattern h₁) fun d₂ h₂ => ?_
    refine accounted_cons h₂ (accounted_group (q := .none) h₂ fun _ h₃ => ?_) fun _ _ =>
      accounted_nil
    exact accounted_patterns h₃ _
  rw [element, universal_eq]
  exact hnegation.imp fun hp => ⟨_, .every hp⟩

mutual

theorem accounted_element {d : Draft} {l : Layout} (h : d.Aligned l) : (e : Element) →
    Accounted (Passes c l [e] d) d (element c e d)
  | .pattern p => accounted_pattern h
  | .group .and members => by
    rw [element]
    exact (accounted_elements h members).imp fun hp => ⟨_, .and hp⟩
  | .group .or members => by
    rw [element]
    exact accounts_refl
  | .group .not members =>
    accounted_group (q := .none) h fun _ h₁ => accounted_elements h₁ members
  | .group .exists members =>
    accounted_group (q := .some) h fun _ h₁ => accounted_elements h₁ members
  | .every base rest => accounted_universal h base rest
  | .call q => accounted_call h

/-- **Whatever drawing elements asks for that reads tuples, is what an element
    among them means where it stands**, even where drawing fails. -/
theorem accounted_elements {d : Draft} {l : Layout} (h : d.Aligned l) : (es : List Element) →
    Accounted (Passes c l es d) d (elements c es d)
  | [] => accounted_nil
  | e :: es => accounted_cons h (accounted_element h e) fun _ h₁ => accounted_elements h₁ es

end

end Draft

/-! ## Branches and rules -/

namespace Draw

/-- Drawing some branches from a draft on comes by another draft, from which some
    elements of a branch are still to be drawn. -/
inductive PassesBranches (config : Config) (query : Bool) : List Branch → Draft → Setting → Layout →
    List Element → Draft → Prop where
  | inside {b : Branch} {bs : List Branch} {d d' : Draft} {distances? : Option Distances}
      {c : Setting} {l : Layout} {es : List Element} (known : Knows config b distances?)
      (passes : Passes ⟨config.objectTypeMemory, distances?, false⟩ .empty b.body.members
        d.nextBranch c l es d') : PassesBranches config query (b :: bs) d c l es d'
  | next {b : Branch} {bs : List Branch} {d d₁ d' : Draft} {terminal : Nat} {c : Setting}
      {l : Layout} {es : List Element} (drawn : branch config query b d = .ok terminal d₁)
      (after : PassesBranches config query bs d₁ c l es d') :
      PassesBranches config query (b :: bs) d c l es d'

open Draft in
theorem accounted_branch (config : Config) (query : Bool) (d : Draft) (b : Branch)
    (bs : List Branch) :
    Accounted (PassesBranches config query (b :: bs) d) d (branch config query b d) := by
  have hnext : ∀ {R}, Accounts R d d.nextBranch := ⟨List.prefix_rfl, newReadings_refl⟩
  refine ends_branch hnext fun distances? hknown => ends_terminal ?_
  have helements : Accounted (PassesBranches config query (b :: bs) d) d.nextBranch
      (elements ⟨config.objectTypeMemory, distances?, false⟩ b.body.members d.nextBranch) :=
    (accounted_elements d.aligned_nextBranch b.body.members).imp fun hp => ⟨_, .inside hknown hp⟩
  refine Ends.imp helements (fun _ => hnext.trans) fun _ d₁ hd₁ last hlast => ?_
  -- the terminal is no reading
  refine hnext.trans (hd₁.trans (accounts_started.trans ⟨List.prefix_append _ _, ?_⟩))
  exact newReadings_concat False.elim

open Draft in
theorem accounted_branches (config : Config) (query : Bool) (d : Draft) (bs : List Branch) :
    Accounted (PassesBranches config query bs d) d (bs.mapM (branch config query) d) := by
  induction bs generalizing d with
  | nil => exact accounts_refl
  | cons b bs ih =>
    have hb := accounted_branch config query d b bs
    rw [List.mapM_cons]
    cases hr : branch config query b d with
    | error f d₁ =>
      rw [hr] at hb
      rw [Session.bind_error hr]
      exact hb
    | ok terminal d₁ =>
      rw [hr] at hb
      rw [Session.bind_ok hr]
      have hrest : Accounted (PassesBranches config query (b :: bs) d) d₁
          (bs.mapM (branch config query) d₁) := (ih d₁).imp fun hp => ⟨_, .next hr hp⟩
      refine Ends.bind (Ends.imp hrest (fun _ => Accounts.trans hb) fun _ _ => Accounts.trans hb) ?_
      exact fun _ _ h => h

/-- **Whatever compiling a rule asks for that reads tuples, is what an element of
    one of its branches means where it stands**, even where the rule cannot be
    compiled. -/
theorem made_requests {config : Config} {r : Rule} {i : Nat} {q : Request}
    (hq : (r.requests config)[i]? = some q) (hreads : q.kind.ReadsTuples) :
    ∃ bs, r.body.branches = .ok bs ∧
      MadeIn (PassesBranches config r.isQuery bs .empty) (r.requests config) i q.kind := by
  refine Rule.requests_of_ends (P := fun steps => steps[i]? = some q → ∃ bs,
    r.body.branches = .ok bs ∧ MadeIn (PassesBranches config r.isQuery bs .empty) steps i q.kind)
    (ends_check nofun fun bs hbs => ?_) hq
  have hmade : ∀ d, Draft.Accounts (PassesBranches config r.isQuery bs .empty) .empty d →
      d.steps[i]? = some q → ∃ bs, r.body.branches = .ok bs ∧
        MadeIn (PassesBranches config r.isQuery bs .empty) d.steps i q.kind :=
    fun d hd hq => ⟨bs, hbs, hd.made i q (Nat.zero_le i) hq hreads⟩
  exact Ends.imp (accounted_branches config r.isQuery .empty bs) hmade fun _ => hmade

end Draw

end RuleNet
