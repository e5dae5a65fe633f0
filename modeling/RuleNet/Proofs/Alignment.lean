/-
  RuleNet — scope and tuple of a draft.

  While a rule is drawn, the scope and the slots of the tuple at hand are those
  that the rule tells, one slot for each pattern in scope (`Draft.Aligned`,
  `Draft.walks_elements`).  So the positions that tests and arguments are
  resolved to are positions in the tuple.
-/
import RuleNet.Proofs.Scoping
import RuleNet.Proofs.Sides

namespace RuleNet

/-- The slots of the tuple at hand; there are none before it is started. -/
def Kinds.TupleSlots (kinds : Kinds) (slots : List Symbol) : Option NodeId → Prop
  | none => slots = []
  | some x => Slots kinds x slots

namespace Draft

/-- A draft is what its rule tells of the place that has been reached. -/
structure Aligned (l : Layout) (d : Draft) : Prop where
  scope : d.scope = l.scope
  tuple : (stepKinds d.steps).TupleSlots l.slots d.tuple?
  length : l.scope.length = l.slots.length

/-- A draft `d'`, drawn from `d` on, is what the rule tells of the place that has
    been reached. -/
structure Walked (l : Layout) (d d' : Draft) : Prop where
  grows : d.steps <+: d'.steps
  aligned : d'.Aligned l

variable {d d' d₁ d₂ : Draft} {c : Setting} {p : Pattern} {tests : List JoinTest} {left i : Nat}
variable {l l' : Layout} {es members : List Element} {e : Element}

theorem Aligned.walked (h : d.Aligned l) : Walked l d d := ⟨List.prefix_rfl, h⟩

theorem Walked.trans (h : Walked l d d₁) (h' : Walked l' d₁ d₂) : Walked l' d d₂ :=
  ⟨h.grows.trans h'.grows, h'.aligned⟩

theorem Aligned.slots (h : d.Aligned l) (hleft : d.tuple? = some left) :
    Slots (stepKinds d.steps) left l.slots := by
  have htuple := h.tuple
  rwa [hleft] at htuple

/-- There is a tuple just if something is in scope. -/
theorem Aligned.tuple?_eq_none_iff (h : d.Aligned l) : d.tuple? = none ↔ d.scope = [] := by
  rw [h.scope, ← List.length_eq_zero_iff, h.length, List.length_eq_zero_iff]
  cases ht : d.tuple? with
  | none =>
    have htuple := h.tuple
    rw [ht] at htuple
    exact iff_of_true rfl htuple
  | some i => exact iff_of_false (Option.some_ne_none i) (h.slots ht).ne_nil

/-! ## Patterns -/

/-- The facts of the object side of a pattern are of its type. -/
theorem typed_sideEnd (h : (d.sided c p).steps <+: d'.steps) :
    Typed (stepKinds d'.steps) (p.sideEnd d.steps.length) p.type :=
  (bears_sided h).typed getLast?_sideNodes

/-- Drawing a pattern puts it into scope, and widens the tuple by its type. -/
theorem walked_joined (h : d.Aligned l) : Walked (l.after (.pattern p)) d (d.joined c p tests) := by
  have hgrows : (d.sided c p).steps <+: (d.joined c p tests).steps := List.prefix_append _ _
  have hgrows' : d.steps <+: (d.joined c p tests).steps := (List.prefix_append _ _).trans hgrows
  have htyped : Typed (stepKinds (d.joined c p tests).steps) (p.sideEnd d.steps.length) p.type :=
    typed_sideEnd hgrows
  have hlast : stepKinds (d.joined c p tests).steps (d.sided c p).steps.length =
      some (c.tupleRequest p tests (p.sideEnd d.steps.length) d.tuple?).kind :=
    stepKinds_concat _ _
  refine ⟨hgrows', ?_, ?_, ?_⟩
  · rw [scope_joined, h.scope]
    rfl
  · rw [tuple?_joined]
    cases ht : d.tuple? with
    | none =>
      have hempty := h.tuple
      rw [ht] at hempty hlast
      obtain hempty : l.slots = [] := hempty
      have hslots : (l.after (.pattern p)).slots = [p.type] := by
        rw [Layout.after, Element.slotsAfter, hempty, List.nil_append]
      rw [hslots]
      exact .leftInput hlast htyped
    | some left =>
      rw [ht] at hlast
      exact .join hlast rfl ((h.slots ht).mono (stepKinds_within hgrows')) htyped
  · simp [Layout.after, Element.scopeAfter, Element.slotsAfter, h.length]

/-- Where a tuple is needed, the initial fact starts it. -/
theorem walked_started (h : d.Aligned l) : Walked l.started d (d.started c) := by
  have hempty : l.slots = [] ↔ l.scope = [] := by
    rw [← List.length_eq_zero_iff, ← h.length, List.length_eq_zero_iff]
  obtain ⟨scope, slots⟩ := l
  cases ht : d.tuple? with
  | some i =>
    have hscope : scope ≠ [] := fun hnil => by
      rw [h.tuple?_eq_none_iff.2 (h.scope.trans hnil)] at ht
      cases ht
    rw [started_of_some ht, Layout.started, Scope.started, startedSlots,
      if_neg (by rwa [List.isEmpty_iff]), if_neg (by rw [List.isEmpty_iff]; exact hscope ∘ hempty.1)]
    exact h.walked
  | none =>
    obtain rfl : scope = [] := h.scope.symm.trans (h.tuple?_eq_none_iff.1 ht)
    obtain rfl : slots = [] := hempty.2 rfl
    rw [started_of_none ht]
    exact walked_joined h

/-! ## Negations, existence claims and calls -/

/-- A join that takes tuples from the tuple at hand and passes them on. -/
theorem walked_closed {quantifier : Session.Quantifier} {first : Bool}
    {right : Nat × List JoinTest × Option Expiration} (h : d.Aligned l) (hleft : d.tuple? = some left)
    (hgrows : d.steps <+: d'.steps) (hscope : d'.scope = d.scope) :
    Walked l d (d'.closed c quantifier left first right) := by
  let request := c.joinRequest quantifier.joinKind left right.1 right.2.1 (!first) right.2.2
  have hgrows' : d.steps <+: (d'.closed c quantifier left first right).steps :=
    hgrows.trans (List.prefix_append _ [request])
  have hlast : stepKinds (d'.closed c quantifier left first right).steps d'.steps.length =
      some request.kind :=
    stepKinds_concat d'.steps request
  refine ⟨hgrows', hscope.trans h.scope, ?_, h.length⟩
  refine .test hlast ?_ ((h.slots hleft).mono (stepKinds_within hgrows'))
  cases quantifier <;> simp [Session.Quantifier.joinKind]

/-- A call widens the tuple by its answer. -/
theorem walked_call {call : QueryCall} {arguments : List Argument} (h : d.Aligned l)
    (hleft : d.tuple? = some left) :
    Walked ⟨l.scope ++ [call.result], l.slots ++ [call.query]⟩ d
      (((d.snoc ⟨.queryElement left call.query arguments, c.guardsOut, none⟩).record
        call.result).extend d.steps.length call.result) := by
  let request : Request := ⟨.queryElement left call.query arguments, c.guardsOut, none⟩
  have hgrows : d.steps <+: d.steps ++ [request] := List.prefix_append _ _
  refine ⟨hgrows, congrArg (· ++ [call.result]) h.scope, ?_, by simp [h.length]⟩
  exact .queryElement (stepKinds_concat d.steps request)
    ((h.slots hleft).mono (stepKinds_within hgrows))

/-! ## Walks -/

/-- Where drawing from `d` on ends well, the draft is what the rule tells of the
    place that has been reached. -/
def Walks {α : Type} (l : Layout) (d : Draft) : EStateM.Result Fault Draft α → Prop :=
  Draw.Ends (fun _ => True) fun _ => Walked l d

variable {α β : Type} {m : Draw α} {k : α → Draw β}

theorem Walks.bind (h : Walks l d (m d)) (hk : ∀ a d', Walked l d d' → Walks l' d' (k a d')) :
    Walks l' d ((m >>= k) d) :=
  Draw.Ends.bind h fun a d' hd' => (hk a d' hd').mono fun _ _ => hd'.trans

theorem Aligned.walks_pure (h : d.Aligned l) (a : α) : Walks l d ((pure a : Draw α) d) := h.walked

theorem walks_pattern (h : d.Aligned l) :
    Walks (l.after (.pattern p)) d (Draw.element c (.pattern p) d) := by
  have hpattern : Walks (l.after (.pattern p)) d (Draw.pattern c p d) :=
    Draw.ends_pattern trivial fun _ _ => walked_joined h
  rw [Draw.element]
  exact hpattern.bind fun _ _ hd₁ => hd₁.aligned.walks_pure _

theorem walks_tuple (h : d.Aligned l) : Walks l.started d (Draw.tuple c d) := by
  obtain ⟨i, hi⟩ := d.exists_tuple_started c
  rw [Draw.tuple_eq hi]
  exact walked_started h

theorem walks_call {call : QueryCall} (h : d.Aligned l) :
    Walks (l.after (.call call)) d (Draw.call c call d) := by
  have hstarted : Walked l.started d (d.started c) := walked_started h
  exact Draw.ends_call trivial fun _ _ hleft _ => hstarted.trans (walked_call hstarted.aligned hleft)

/-- Negations and existence claims leave nothing in scope but the initial fact,
    where it starts the tuple. -/
theorem walks_quantified {quantifier : Session.Quantifier} (h : d.Aligned l)
    (hm : ∀ d₁ : Draft, d₁.Aligned l.started →
      Walks (l.started.afterAll members) d₁ (Draw.elements c members d₁)) :
    Walks l.started d (Draw.quantified c quantifier members (Draw.elements c members) d) := by
  have hstarted : Walked l.started d (d.started c) := walked_started h
  have ha := hstarted.aligned
  refine Draw.ends_quantified trivial trivial (fun left p tests hleft _ _ => ?_)
    fun left hleft _ => ?_
  · exact hstarted.trans (walked_closed ha hleft (List.prefix_append _ _) rfl)
  · refine (hm _ ha).mono fun _ d₂ hd₂ => ⟨trivial, fun last _ => ?_⟩
    refine hstarted.trans (walked_closed ha hleft (hd₂.grows.trans (List.prefix_append _ _)) ?_)
    -- what was in scope before is what remains
    have hprefix := Element.scope_prefix_afterAll l.started.scope members
    change d₂.scope.take _ = _
    rw [hd₂.aligned.scope, ha.scope]
    exact (List.prefix_iff_eq_take.1 hprefix).symm

theorem Aligned.walks_nil (h : d.Aligned l) : Walks l d (Draw.elements c [] d) := by
  rw [Draw.elements]
  exact h.walks_pure ()

/-- One element after the other. -/
theorem walks_cons (he : Walks (l.after e) d (Draw.element c e d))
    (hes : ∀ d₁ : Draft, d₁.Aligned (l.after e) →
      Walks ((l.after e).afterAll es) d₁ (Draw.elements c es d₁)) :
    Walks (l.afterAll (e :: es)) d (Draw.elements c (e :: es) d) := by
  rw [Draw.elements]
  exact he.bind fun _ d₁ hd₁ => hes d₁ hd₁.aligned

theorem walks_patterns (h : d.Aligned l) (ps : List Pattern) :
    Walks (l.afterAll (ps.map .pattern)) d (Draw.elements c (ps.map .pattern) d) := by
  induction ps generalizing d l with
  | nil => exact h.walks_nil
  | cons p ps ih => exact walks_cons (walks_pattern h) fun _ h₁ => ih h₁

/-- A universal statement is drawn as the negation that it is. -/
theorem walks_universal (h : d.Aligned l) (base : Pattern) (rest : List Pattern) :
    Walks l.started d (Draw.universal c base rest d) := by
  rw [Draw.universal_eq, Draw.element]
  refine walks_quantified h fun d₁ h₁ => walks_cons (walks_pattern h₁) fun d₂ h₂ => ?_
  refine walks_cons (e := .group .not _) ?_ fun _ h₃ => h₃.walks_nil
  rw [Draw.element]
  exact walks_quantified h₂ fun _ h₃ => walks_patterns h₃ _

mutual

theorem walks_element {d : Draft} {l : Layout} (h : d.Aligned l) : (e : Element) →
    Walks (l.after e) d (Draw.element c e d)
  | .pattern p => walks_pattern h
  | .group .and members => by
    rw [Draw.element]
    exact walks_elements h members
  | .group .or members => by
    rw [Draw.element]
    exact trivial
  | .group .not members => by
    rw [Draw.element]
    exact walks_quantified h fun _ h₁ => walks_elements h₁ members
  | .group .exists members => by
    rw [Draw.element]
    exact walks_quantified h fun _ h₁ => walks_elements h₁ members
  | .every base rest => by
    rw [Draw.element]
    exact walks_universal h base rest
  | .call q => by
    rw [Draw.element]
    exact walks_call h

/-- **Drawing elements leaves in scope what the elements leave in scope, and the
    tuple at hand has the slots that they tell.** -/
theorem walks_elements {d : Draft} {l : Layout} (h : d.Aligned l) : (es : List Element) →
    Walks (l.afterAll es) d (Draw.elements c es d)
  | [] => h.walks_nil
  | e :: es => walks_cons (walks_element h e) fun _ h₁ => walks_elements h₁ es

end

/-- Nothing is in scope at the beginning of a branch. -/
theorem aligned_nextBranch (d : Draft) : d.nextBranch.Aligned .empty := ⟨rfl, rfl, rfl⟩

end Draft

end RuleNet
