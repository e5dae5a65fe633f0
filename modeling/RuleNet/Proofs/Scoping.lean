/-
  RuleNet — what the tests and arguments of a rule refer to.

  Which patterns are in scope where something is written in a rule depends on
  the rule alone (`Element.Reads`): patterns and answers of calls stay in scope
  to the end of the group they stand in, and what stands inside a negation,
  existence claim or universal statement is not in scope outside.  A test refers
  to the first pattern in scope that was declared at its offset
  (`Scope.Declares`).

  The rule tells as well what the slots of the tuple at hand are of
  (`Layout.after`), one for each pattern in scope.  It is the type of the pattern,
  but the slot of an answer is of the query that was called.
-/
import RuleNet.Proofs.Drafts
import RuleNet.Proofs.Slots

namespace RuleNet

/-! ## References -/

namespace Scope

variable {scope : Scope} {offset : Offset} {i : Nat}

/-- At a position in the scope stands the first pattern declared at an offset.
    Patterns added by the compiler declare nothing. -/
structure Declares (scope : Scope) (offset : Offset) (position : Nat) : Prop where
  pattern : ∃ p, scope[position]? = some p ∧ p.offset = offset ∧ ¬ p.isSynthetic
  first : ∀ i < position, ∀ p, scope[i]? = some p → p.offset = offset → p.isSynthetic

theorem find_eq_some_iff : scope.find offset = some i ↔ scope.Declares offset i := by
  rw [find, List.findIdx?_eq_some_iff_getElem]
  constructor
  · rintro ⟨hi, hp, hfirst⟩
    rw [Bool.and_eq_true, beq_iff_eq, Bool.not_eq_true'] at hp
    refine ⟨⟨_, List.getElem?_eq_getElem hi, hp.1, by rw [hp.2]; exact Bool.false_ne_true⟩, ?_⟩
    intro j hj p hjp hoffset
    obtain ⟨hjl, rfl⟩ := List.getElem?_eq_some_iff.1 hjp
    by_contra hsynthetic
    refine hfirst j hj ?_
    rw [Bool.and_eq_true, beq_iff_eq, Bool.not_eq_true']
    exact ⟨hoffset, Bool.eq_false_iff.2 hsynthetic⟩
  · rintro ⟨⟨p, hp, hoffset, hsynthetic⟩, hfirst⟩
    obtain ⟨hi, rfl⟩ := List.getElem?_eq_some_iff.1 hp
    refine ⟨hi, ?_, fun j hj hp => ?_⟩
    · rw [Bool.and_eq_true, beq_iff_eq, Bool.not_eq_true']
      exact ⟨hoffset, Bool.eq_false_iff.2 hsynthetic⟩
    · rw [Bool.and_eq_true, beq_iff_eq, Bool.not_eq_true'] at hp
      have := hfirst j hj _ (List.getElem?_eq_getElem (hj.trans hi)) hp.1
      rw [hp.2] at this
      exact Bool.false_ne_true this

theorem Declares.lt (h : scope.Declares offset i) : i < scope.length := by
  obtain ⟨p, hp, -⟩ := h.pattern
  exact (List.getElem?_eq_some_iff.1 hp).1

/-- A test in terms of positions does what a written one says. -/
def Resolves (scope : Scope) (written t : JoinTest) : Prop :=
  ∃ i, scope.Declares written.target i ∧ t = written.retarget i

/-- An argument in terms of positions is what a written one says. -/
inductive ResolvesArgument (scope : Scope) : Argument → Argument → Prop where
  | literal (v : Value) : ResolvesArgument scope (.literal v) (.literal v)
  | bound {read : Reference} {i : Nat} (declared : scope.Declares read.offset i) :
      ResolvesArgument scope (.bound read) (.bound ⟨i, read.field⟩)

theorem position_eq_ok {reading : Reading} (h : scope.position offset reading = .ok i) :
    scope.Declares offset i := by
  rw [position] at h
  cases hfind : scope.find offset with
  | none =>
    rw [hfind] at h
    cases h
  | some j =>
    rw [hfind] at h
    cases h
    exact find_eq_some_iff.1 hfind

theorem resolve_eq_ok {ts us : List JoinTest} (h : scope.resolve ts = .ok us) :
    List.Forall₂ scope.Resolves ts us := by
  refine (Except.forall₂_of_mapM h).imp fun t u htu => ?_
  obtain ⟨i, hi, hu⟩ := Except.bind_inv htu
  cases hu
  exact ⟨i, position_eq_ok hi, rfl⟩

theorem resolveArguments_eq_ok {as bs : List Argument} (h : scope.resolveArguments as = .ok bs) :
    List.Forall₂ scope.ResolvesArgument as bs := by
  refine (Except.forall₂_of_mapM h).imp fun a b hab => ?_
  cases a with
  | literal v =>
    cases hab
    exact .literal v
  | bound read =>
    obtain ⟨i, hi, hb⟩ := Except.bind_inv hab
    cases hb
    exact .bound (position_eq_ok hi)

theorem Resolves.lt {written t : JoinTest} (h : scope.Resolves written t) :
    t.target < scope.length := by
  obtain ⟨i, hi, rfl⟩ := h
  cases written <;> exact hi.lt

theorem ResolvesArgument.lt {written : Argument} {read : Reference}
    (h : scope.ResolvesArgument written (.bound read)) : read.offset < scope.length := by
  cases h with
  | bound declared => exact declared.lt

/-! ## Scopes in rules -/

/-- The scope once there is a tuple. -/
def started (scope : Scope) : Scope := if scope.isEmpty then [.initialFact] else scope

end Scope

/-- What reads facts of the tuple at hand. -/
inductive Reader where
  /-- The tests of a pattern. -/
  | pattern (p : Pattern)
  /-- The arguments of a call. -/
  | call (q : QueryCall)

namespace Element

mutual

/-- What is in scope after an element. -/
def scopeAfter (scope : Scope) : Element → Scope
  | pattern p => scope ++ [p]
  | group .and members => scopeAfterAll scope members
  | group .or _ => scope
  | group .not _ | group .exists _ | every .. => scope.started
  | call q => scope.started ++ [q.result]

/-- What is in scope after some elements. -/
def scopeAfterAll (scope : Scope) : List Element → Scope
  | [] => scope
  | e :: es => scopeAfterAll (e.scopeAfter scope) es

end

theorem scopeAfterAll_append (scope : Scope) (es es' : List Element) :
    scopeAfterAll scope (es ++ es') = scopeAfterAll (scopeAfterAll scope es) es' := by
  induction es generalizing scope with
  | nil => rfl
  | cons e es ih => exact ih _

/-- Something is written among elements that start with a scope, and has a scope
    of its own there. -/
inductive Reads : Scope → List Element → Scope → Reader → Prop where
  | pattern {scope : Scope} {p : Pattern} {es : List Element} :
      Reads scope (.pattern p :: es) scope (.pattern p)
  | call {scope : Scope} {q : QueryCall} {es : List Element} :
      Reads scope (.call q :: es) scope.started (.call q)
  | and {scope scope' : Scope} {members es : List Element} {r : Reader}
      (inside : Reads scope members scope' r) : Reads scope (.group .and members :: es) scope' r
  | quantified {scope scope' : Scope} {q : Session.Quantifier} {members es : List Element}
      {r : Reader} (inside : Reads scope.started members scope' r) :
      Reads scope (.group q.connective members :: es) scope' r
  | every {scope scope' : Scope} {base : Pattern} {rest : List Pattern} {es : List Element}
      {r : Reader} (inside : Reads scope.started (Universal.of base rest).outer scope' r) :
      Reads scope (.every base rest :: es) scope' r
  | later {scope scope' : Scope} {e : Element} {es : List Element} {r : Reader}
      (after : Reads (e.scopeAfter scope) es scope' r) : Reads scope (e :: es) scope' r

/-- What is written in the first element is written in the list. -/
theorem Reads.head {scope scope' : Scope} {e : Element} {es : List Element} {r : Reader}
    (h : Reads scope [e] scope' r) : Reads scope (e :: es) scope' r := by
  cases h with
  | pattern => exact .pattern
  | call => exact .call
  | and inside => exact .and inside
  | quantified inside => exact .quantified inside
  | every inside => exact .every inside
  | later after => cases after

mutual

/-- The calls inside an element. -/
def calls : Element → List QueryCall
  | pattern _ | every .. => []
  | group _ members => callsList members
  | call q => [q]

/-- The calls inside some elements. -/
def callsList : List Element → List QueryCall
  | [] => []
  | e :: es => e.calls ++ callsList es

end

@[simp] theorem callsList_map_pattern (ps : List Pattern) : callsList (ps.map .pattern) = [] := by
  induction ps with
  | nil => rfl
  | cons p ps ih => simpa [callsList, calls] using ih

theorem mem_callsList {q : QueryCall} {es : List Element} :
    q ∈ callsList es ↔ ∃ e ∈ es, q ∈ e.calls := by
  induction es with
  | nil => simp [callsList]
  | cons e es ih => simp [callsList, ih]

/-- Scopes grow. -/
theorem scope_prefix_started (scope : Scope) : scope <+: scope.started := by
  unfold Scope.started
  split
  · rename_i hempty
    rw [List.isEmpty_iff.1 hempty]
    exact List.nil_prefix
  · exact List.prefix_rfl

mutual

theorem scope_prefix_after (scope : Scope) : (e : Element) → scope <+: e.scopeAfter scope
  | pattern _ => List.prefix_append _ _
  | group .and members => scope_prefix_afterAll scope members
  | group .or _ => List.prefix_rfl
  | group .not _ | group .exists _ | every .. => scope_prefix_started scope
  | call _ => (scope_prefix_started scope).trans (List.prefix_append _ _)

theorem scope_prefix_afterAll (scope : Scope) :
    (es : List Element) → scope <+: scopeAfterAll scope es
  | [] => List.prefix_rfl
  | e :: es => (scope_prefix_after scope e).trans (scope_prefix_afterAll _ es)

end

end Element

namespace Rule

variable {r : Rule} {bs : List Branch}

/-- A call stands somewhere in the body of a rule. -/
def Calls (r : Rule) (q : QueryCall) : Prop := q ∈ r.body.toElement.calls

/-- Something is written in a branch of a rule, and has a scope of its own
    there. -/
def Reads (r : Rule) (scope : Scope) (reader : Reader) : Prop :=
  ∃ bs, r.body.branches = .ok bs ∧ ∃ b ∈ bs, Element.Reads [] b.body.members scope reader

/-- The calls in the branches of a rule are those of the rule. -/
theorem calls_of_branch (h : r.body.branches = .ok bs) {b : Branch} (hb : b ∈ bs) :
    ∀ q ∈ Element.callsList b.body.members, r.Calls q := by
  intro q hq
  obtain ⟨e, he, hq⟩ := Element.mem_callsList.1 hq
  refine Body.branches_inherit (A := fun e => ∀ q ∈ e.calls, r.Calls q) (fun c members => ?_) h
    (fun q hq => hq) b hb e he q hq
  simp only [Element.calls, Element.mem_callsList]
  exact ⟨fun h e he q hq => h q ⟨e, he, hq⟩, fun h q ⟨e, he, hq⟩ => h e he q hq⟩

end Rule

/-! ## Slots in rules -/

/-- The slots once there is a tuple. -/
def startedSlots (slots : List Symbol) : List Symbol :=
  if slots.isEmpty then [Symbol.initialFact] else slots

namespace Element

mutual

/-- The slots of the tuple at hand after an element. -/
def slotsAfter (slots : List Symbol) : Element → List Symbol
  | pattern p => slots ++ [p.type]
  | group .and members => slotsAfterAll slots members
  | group .or _ => slots
  | group .not _ | group .exists _ | every .. => startedSlots slots
  | call q => startedSlots slots ++ [q.query]

/-- The slots of the tuple at hand after some elements. -/
def slotsAfterAll (slots : List Symbol) : List Element → List Symbol
  | [] => slots
  | e :: es => slotsAfterAll (e.slotsAfter slots) es

end

theorem slotsAfterAll_append (slots : List Symbol) (es es' : List Element) :
    slotsAfterAll slots (es ++ es') = slotsAfterAll (slotsAfterAll slots es) es' := by
  induction es generalizing slots with
  | nil => rfl
  | cons e es ih => exact ih _

end Element

/-- What a rule tells of the tuple at hand at some place. -/
structure Layout where
  /-- The patterns in scope. -/
  scope : Scope
  /-- What the slots are of. -/
  slots : List Symbol

namespace Layout

/-- There is no tuple at the beginning of a branch. -/
def empty : Layout := ⟨[], []⟩

/-- Once there is a tuple. -/
def started (l : Layout) : Layout := ⟨l.scope.started, startedSlots l.slots⟩

/-- After an element. -/
def after (l : Layout) (e : Element) : Layout := ⟨e.scopeAfter l.scope, e.slotsAfter l.slots⟩

/-- After some elements. -/
def afterAll (l : Layout) (es : List Element) : Layout :=
  ⟨Element.scopeAfterAll l.scope es, Element.slotsAfterAll l.slots es⟩

theorem afterAll_append (l : Layout) (es es' : List Element) :
    l.afterAll (es ++ es') = (l.afterAll es).afterAll es' := by
  rw [afterAll, Element.scopeAfterAll_append, Element.slotsAfterAll_append]
  rfl

/-- A slot is of the type of its pattern; if the pattern is the answer of a call,
    the slot is of the query. -/
def Suits (C : QueryCall → Prop) (p : Pattern) (slot : Symbol) : Prop :=
  slot = p.type ∨ ∃ q, C q ∧ p = q.result ∧ slot = q.query

/-- Each slot suits its pattern. -/
def Suited (C : QueryCall → Prop) (l : Layout) : Prop := List.Forall₂ (Suits C) l.scope l.slots

variable {C : QueryCall → Prop} {l : Layout}

theorem suited_empty : empty.Suited C := .nil

theorem Suited.started (h : l.Suited C) : l.started.Suited C := by
  obtain ⟨scope, slots⟩ := l
  have h : List.Forall₂ (Suits C) scope slots := h
  cases h with
  | nil => exact .cons (.inl rfl) .nil
  | cons hp hrest => exact .cons hp hrest

theorem Suited.snoc (h : l.Suited C) {p : Pattern} {slot : Symbol} (hp : Suits C p slot) :
    Suited C ⟨l.scope ++ [p], l.slots ++ [slot]⟩ :=
  List.rel_append h (.cons hp .nil)

mutual

theorem Suited.after {l : Layout} (h : l.Suited C) :
    (e : Element) → (∀ q ∈ e.calls, C q) → (l.after e).Suited C
  | .pattern _, _ => h.snoc (.inl rfl)
  | .group .and members, hcalls => h.afterAll members hcalls
  | .group .or _, _ => h
  | .group .not _, _ | .group .exists _, _ | .every .., _ => h.started
  | .call q, hcalls => h.started.snoc (.inr ⟨q, hcalls q List.mem_cons_self, rfl, rfl⟩)

/-- **The slots of the tuple at hand suit the patterns in scope.** -/
theorem Suited.afterAll {l : Layout} (h : l.Suited C) : (es : List Element) →
    (∀ q ∈ Element.callsList es, C q) → (l.afterAll es).Suited C
  | [], _ => h
  | e :: es, hcalls =>
    (h.after e fun q hq => hcalls q (List.mem_append_left _ hq)).afterAll es
      fun q hq => hcalls q (List.mem_append_right _ hq)

end

/-- If answers are of the type of their query, the slots are of the types of the
    patterns in scope. -/
theorem Suited.types (h : l.Suited C) (hC : ∀ q, C q → q.result.type = q.query) :
    l.scope.map (·.type) = l.slots := by
  rw [← List.forall₂_eq_eq_eq, List.forall₂_map_left_iff]
  refine h.imp fun p slot hp => ?_
  obtain rfl | ⟨q, hq, rfl, rfl⟩ := hp
  · rfl
  · exact hC q hq

end Layout

end RuleNet
