/-
  RuleNet — which rules are accepted.

  Whether a rule can be added is told by the rule and the names and numbers that
  are taken:
  no disjunction in it is empty, no negation or existence claim in its branches
  is, and whatever a test or an argument refers to has been declared and is in
  scope (`RuleBase.Admits`).  Drawing succeeds just then: from a draft whose
  scope is the one that the rule tells, each construct succeeds just if it may
  stand in that scope (`Draft.succeeds_elements`).
-/
import RuleNet.Proofs.Alignment
import RuleNet.Proofs.Editing
import RuleNet.Proofs.Meaning
import RuleNet.Proofs.Overflow

namespace RuleNet

/-! ## What may stand in a scope -/

/-- What is referred to by a reader. -/
def Reader.offsets : Reader → List Offset
  | pattern p => p.joinTests.map JoinTest.target
  | call q => q.arguments.filterMap fun
    | .literal _ => none
    | .bound read => some read.offset

namespace Scope

variable {scope : Scope} {offset : Offset}

/-- A pattern of the rule, or an answer of a call, has been declared at an offset
    and is in scope. -/
def Declared (scope : Scope) (offset : Offset) : Prop :=
  ∃ p ∈ scope, p.offset = offset ∧ ¬ p.isSynthetic

/-- All that a reader refers to is in scope. -/
def Covers (scope : Scope) (reader : Reader) : Prop :=
  ∀ offset ∈ reader.offsets, scope.Declared offset

theorem binds_iff_declared : scope.binds offset ↔ scope.Declared offset := by
  simp [binds, find, Declared]

theorem position_ok_iff (reading : Reading) :
    (∃ i, scope.position offset reading = .ok i) ↔ scope.Declared offset := by
  rw [← binds_iff_declared, binds, position]
  cases scope.find offset <;> simp

end Scope

/-- A list is gone through just if each of its elements is. -/
theorem Except.mapM_ok_iff {ε α β : Type} {f : α → Except ε β} {l : List α} :
    (∃ bs, l.mapM f = .ok bs) ↔ ∀ a ∈ l, ∃ b, f a = .ok b := by
  induction l with
  | nil => exact iff_of_true ⟨[], rfl⟩ (List.forall_mem_nil _)
  | cons a l ih =>
    rw [List.forall_mem_cons, ← ih]
    constructor
    · rintro ⟨bs, h⟩
      rw [List.mapM_cons] at h
      obtain ⟨b, hb, h⟩ := Except.bind_inv h
      obtain ⟨bs', hbs', -⟩ := Except.bind_inv h
      exact ⟨⟨b, hb⟩, bs', hbs'⟩
    · rintro ⟨⟨b, hb⟩, bs, hbs⟩
      exact ⟨b :: bs, by rw [List.mapM_cons, hb, hbs]; rfl⟩

namespace Scope

variable {scope : Scope}

theorem resolve_ok_iff {p : Pattern} :
    (∃ tests, scope.resolve p.joinTests = .ok tests) ↔ scope.Covers (.pattern p) := by
  rw [resolve, Except.mapM_ok_iff, Covers, Reader.offsets, List.forall_mem_map]
  refine forall₂_congr fun t _ => ?_
  rw [← position_ok_iff t.reading, resolveTest]
  cases scope.position t.target t.reading <;> simp [pure, Except.pure, bind, Except.bind]

theorem resolveArguments_ok_iff {q : QueryCall} :
    (∃ arguments, scope.resolveArguments q.arguments = .ok arguments) ↔ scope.Covers (.call q) := by
  rw [resolveArguments, Except.mapM_ok_iff]
  constructor
  · intro h offset hoffset
    obtain ⟨a, ha, hread⟩ := List.mem_filterMap.1 hoffset
    cases a with
    | literal v => cases hread
    | bound read =>
      cases hread
      obtain ⟨b, hb⟩ := h _ ha
      obtain ⟨i, hi, -⟩ := Except.bind_inv hb
      exact (position_ok_iff _).1 ⟨i, hi⟩
  · intro h a ha
    cases a with
    | literal v => exact ⟨_, rfl⟩
    | bound read =>
      have hdeclared := h read.offset (List.mem_filterMap.2 ⟨_, ha, rfl⟩)
      obtain ⟨i, hi⟩ := (position_ok_iff (.field read.field)).2 hdeclared
      exact ⟨.bound ⟨i, read.field⟩, by rw [resolveArgument, hi]; rfl⟩

end Scope

namespace Element

variable {scope scope' : Scope} {es members : List Element} {e : Element} {reader : Reader}

/-- No negation or existence claim in some elements is empty. -/
def Filled (es : List Element) : Prop :=
  ∀ q : Session.Quantifier, ∀ e ∈ es, ¬ Occurs (.group q.connective []) e

/-- Elements that may stand where a scope is: no negation or existence claim is
    empty, and all that is referred to is in scope. -/
structure Proper (scope : Scope) (es : List Element) : Prop where
  filled : Filled es
  covered : ∀ scope' reader, Reads scope es scope' reader → scope'.Covers reader

theorem filled_nil : Filled [] := fun _ => List.forall_mem_nil _

theorem filled_cons : Filled (e :: es) ↔ Filled [e] ∧ Filled es := by
  simp [Filled, forall_and]

theorem filled_of_no_group (h : ∀ c members, e ≠ .group c members) : Filled [e] := by
  intro q x hx hin
  rw [List.mem_singleton.1 hx] at hin
  cases hin <;> exact h _ _ rfl

theorem filled_group {c : Connective} : Filled [.group c members] ↔
    (∀ q : Session.Quantifier, c = q.connective → members ≠ []) ∧ Filled members := by
  constructor
  · intro h
    refine ⟨?_, fun q x hx hin => h q _ (List.mem_singleton_self _) (.member hx hin)⟩
    rintro q rfl rfl
    exact h q _ (List.mem_singleton_self _) .self
  · rintro ⟨hne, h⟩ q x hx hin
    rw [List.mem_singleton.1 hx, occurs_group] at hin
    obtain heq | ⟨x, hx, hin⟩ := hin
    · exact hne q (Element.group.inj heq).1.symm (Element.group.inj heq).2.symm
    · exact h q x hx hin

theorem reads_cons : Reads scope (e :: es) scope' reader ↔
    Reads scope [e] scope' reader ∨ Reads (e.scopeAfter scope) es scope' reader := by
  constructor
  · intro h
    cases h with
    | pattern => exact .inl .pattern
    | call => exact .inl .call
    | and inside => exact .inl (.and inside)
    | quantified inside => exact .inl (.quantified inside)
    | every inside => exact .inl (.every inside)
    | later after => exact .inr after
  · rintro (h | h)
    · exact h.head
    · exact .later h

/-- Conjunctions keep the scope, negations and existence claims start the
    tuple. -/
theorem reads_group {c : Connective} (h : Reads scope [.group c members] scope' reader) :
    (c = .and ∧ Reads scope members scope' reader) ∨
      ∃ q : Session.Quantifier, c = q.connective ∧ Reads scope.started members scope' reader := by
  cases h with
  | and inside => exact .inl ⟨rfl, inside⟩
  | @quantified _ _ q _ _ _ inside => exact .inr ⟨q, rfl, inside⟩
  | later after => cases after

theorem connective_ne_and (q : Session.Quantifier) : q.connective ≠ .and := by
  cases q <;> decide

theorem proper_nil : Proper scope [] := ⟨filled_nil, fun _ _ h => by cases h⟩

theorem proper_cons :
    Proper scope (e :: es) ↔ Proper scope [e] ∧ Proper (e.scopeAfter scope) es := by
  constructor
  · rintro ⟨hfilled, hcovered⟩
    obtain ⟨hfirst, hrest⟩ := filled_cons.1 hfilled
    exact ⟨⟨hfirst, fun sc rd h => hcovered sc rd (reads_cons.2 (.inl h))⟩,
      hrest, fun sc rd h => hcovered sc rd (reads_cons.2 (.inr h))⟩
  · rintro ⟨hfirst, hrest⟩
    refine ⟨filled_cons.2 ⟨hfirst.filled, hrest.filled⟩, fun sc rd h => ?_⟩
    exact (reads_cons.1 h).elim (hfirst.covered sc rd) (hrest.covered sc rd)

theorem proper_pattern {p : Pattern} : Proper scope [.pattern p] ↔ scope.Covers (.pattern p) := by
  constructor
  · exact fun h => h.covered _ _ .pattern
  · refine fun h => ⟨filled_of_no_group (by simp), fun sc rd hr => ?_⟩
    cases hr with
    | pattern => exact h
    | later after => cases after

theorem proper_call {q : QueryCall} : Proper scope [.call q] ↔ scope.started.Covers (.call q) := by
  constructor
  · exact fun h => h.covered _ _ .call
  · refine fun h => ⟨filled_of_no_group (by simp), fun sc rd hr => ?_⟩
    cases hr with
    | call => exact h
    | later after => cases after

theorem proper_and : Proper scope [.group .and members] ↔ Proper scope members := by
  constructor
  · rintro ⟨hfilled, hcovered⟩
    exact ⟨(filled_group.1 hfilled).2, fun sc rd hr => hcovered sc rd (.and hr)⟩
  · rintro ⟨hfilled, hcovered⟩
    refine ⟨filled_group.2 ⟨fun q hq => ?_, hfilled⟩, fun sc rd hr => ?_⟩
    · exact absurd hq.symm (connective_ne_and q)
    · obtain ⟨-, hr⟩ | ⟨q, hq, -⟩ := reads_group hr
      · exact hcovered sc rd hr
      · exact absurd hq.symm (connective_ne_and q)

theorem proper_quantified (q : Session.Quantifier) :
    Proper scope [.group q.connective members] ↔ members ≠ [] ∧ Proper scope.started members := by
  constructor
  · rintro ⟨hfilled, hcovered⟩
    obtain ⟨hne, hfilled⟩ := filled_group.1 hfilled
    exact ⟨hne q rfl, hfilled, fun sc rd hr => hcovered sc rd (.quantified hr)⟩
  · rintro ⟨hne, hfilled, hcovered⟩
    refine ⟨filled_group.2 ⟨fun _ _ => hne, hfilled⟩, fun sc rd hr => ?_⟩
    obtain ⟨hq, -⟩ | ⟨q, -, hr⟩ := reads_group hr
    · exact absurd hq (connective_ne_and q)
    · exact hcovered sc rd hr

theorem filled_patterns (ps : List Pattern) : Filled (ps.map .pattern) := by
  induction ps with
  | nil => exact filled_nil
  | cons p ps ih => exact filled_cons.2 ⟨filled_of_no_group (by simp), ih⟩

/-- No group of a universal statement is empty. -/
theorem filled_outer (base : Pattern) (rest : List Pattern) :
    Filled (Universal.of base rest).outer := by
  have hinner : (Universal.of base rest).inner ≠ [] := by
    cases rest <;> simp [Universal.inner, Universal.of]
  rw [Universal.outer, filled_cons, filled_group]
  exact ⟨filled_of_no_group (by simp), fun _ _ => hinner, filled_patterns _⟩

/-- A universal statement may stand where the negation that it is may stand. -/
theorem proper_every {base : Pattern} {rest : List Pattern} : Proper scope [.every base rest] ↔
    Proper scope [.group .not (Universal.of base rest).outer] := by
  constructor
  · rintro ⟨-, hcovered⟩
    refine (proper_quantified .none).2 ⟨List.cons_ne_nil _ _, filled_outer base rest, ?_⟩
    exact fun sc rd hr => hcovered sc rd (.every hr)
  · rintro ⟨-, hcovered⟩
    refine ⟨filled_of_no_group (by simp), fun sc rd hr => ?_⟩
    cases hr with
    | every inside => exact hcovered sc rd (.quantified (q := .none) inside)
    | later after => cases after

end Element

/-! ## When drawing succeeds -/

namespace Draw

variable {α β : Type} {m : Draw α} {k : α → Draw β} {d : Draft} {c : Setting}
variable {G : Draft → Prop} {P : α → Draft → Prop} {p : Pattern}

/-- Drawing ends well. -/
def Succeeds (r : EStateM.Result Fault Draft α) : Prop := ∃ a d, r = .ok a d

theorem not_succeeds_error (f : Fault) (d : Draft) :
    ¬ Succeeds (.error f d : EStateM.Result Fault Draft α) := by
  rintro ⟨a, d', h⟩
  cases h

theorem ends_any (r : EStateM.Result Fault Draft α) :
    Ends (fun _ => True) (fun _ _ => True) r := by
  cases r <;> trivial

/-- What follows succeeds if the first step does and the rest does from where
    that ends. -/
theorem succeeds_bind {B : Prop} (h : Ends G P (m d))
    (hk : ∀ a d', P a d' → (Succeeds (k a d') ↔ B)) :
    Succeeds ((m >>= k) d) ↔ Succeeds (m d) ∧ B := by
  cases hm : m d with
  | ok a d' =>
    rw [hm] at h
    rw [Session.bind_ok hm, hk a d' h]
    exact (and_iff_right ⟨a, d', rfl⟩).symm
  | error f d' =>
    rw [Session.bind_error hm]
    exact iff_of_false (not_succeeds_error f d') fun h => not_succeeds_error f d' h.1

/-- What follows succeeds if the first step does, and the rest always does. -/
theorem succeeds_then (hk : ∀ a d', Succeeds (k a d')) :
    Succeeds ((m >>= k) d) ↔ Succeeds (m d) := by
  rw [succeeds_bind (ends_any _) fun a d' _ => iff_of_true (hk a d') trivial, and_true]

theorem succeeds_pure (a : α) : Succeeds ((pure a : Draw α) d) := ⟨a, d, rfl⟩

/-- A check lets the rest run just if it gives something. -/
theorem succeeds_check {e : Except Fault α} (hk : ∀ a, Succeeds (k a d)) :
    Succeeds ((ofExcept e >>= k) d) ↔ ∃ a, e = .ok a := by
  cases e with
  | ok a => exact iff_of_true (hk a) ⟨a, rfl⟩
  | error f => exact iff_of_false (not_succeeds_error f d) (by simp)

theorem succeeds_pattern : Succeeds (pattern c p d) ↔ d.scope.Covers (.pattern p) := by
  rw [← Scope.resolve_ok_iff]
  cases h : d.scope.resolve p.joinTests with
  | ok tests =>
    rw [pattern_eq h]
    exact iff_of_true ⟨_, _, rfl⟩ ⟨tests, rfl⟩
  | error f =>
    rw [pattern_error h]
    exact iff_of_false (not_succeeds_error f d) (by simp)

theorem succeeds_single : Succeeds (single c p d) ↔ d.scope.Covers (.pattern p) := by
  rw [← Scope.resolve_ok_iff, single, Session.get_bind]
  refine succeeds_check fun tests => ?_
  rw [Session.bind_ok objectSide_eq]
  exact ⟨_, _, rfl⟩

theorem succeeds_call {q : QueryCall} :
    Succeeds (call c q d) ↔ (d.started c).scope.Covers (.call q) := by
  obtain ⟨left, hleft⟩ := d.exists_tuple_started c
  rw [call, Session.bind_ok (tuple_eq hleft), Session.get_bind, ← Scope.resolveArguments_ok_iff]
  exact succeeds_check fun arguments => ⟨_, _, rfl⟩

theorem succeeds_subnetwork {left : Nat} {members : Draw Unit}
    (h : Ends G (fun _ d' => ∃ last, d'.tuple? = some last) (members d)) :
    Succeeds (subnetwork c left members d) ↔ Succeeds (members d) := by
  rw [subnetwork, Session.get_bind]
  refine (succeeds_bind h fun _ d' hd' => ?_).trans (and_iff_left trivial)
  obtain ⟨last, hlast⟩ := hd'
  rw [Session.get_bind, hlast]
  exact iff_of_true ⟨_, _, rfl⟩ trivial

end Draw

namespace Draft

variable {d d' : Draft} {c : Setting} {members : List Element}

/-- A draft that is what the rule tells of some place. -/
def Good (d : Draft) : Prop := ∃ l, d.Aligned l

theorem Good.started (h : d.Good) : (d.started c).Good ∧ (d.started c).scope = d.scope.started := by
  obtain ⟨l, hl⟩ := h
  have hstarted := (walked_started (c := c) hl).aligned
  exact ⟨⟨_, hstarted⟩, hstarted.scope.trans (congrArg Scope.started hl.scope.symm)⟩

theorem Good.elements (h : d.Good) (es : List Element) : Draw.Ends (fun _ => True)
    (fun _ d' => d'.Good ∧ d'.scope = Element.scopeAfterAll d.scope es) (Draw.elements c es d) := by
  obtain ⟨l, hl⟩ := h
  refine (walks_elements hl es).mono fun _ d' hd' => ⟨⟨_, hd'.aligned⟩, ?_⟩
  rw [hl.scope]
  exact hd'.aligned.scope

theorem Good.element (h : d.Good) (e : Element) : Draw.Ends (fun _ => True)
    (fun _ d' => d'.Good ∧ d'.scope = e.scopeAfter d.scope) (Draw.element c e d) := by
  obtain ⟨l, hl⟩ := h
  refine (walks_element hl e).mono fun _ d' hd' => ⟨⟨_, hd'.aligned⟩, ?_⟩
  rw [hl.scope]
  exact hd'.aligned.scope

theorem Good.tuple?_eq_none_iff (h : d.Good) : d.tuple? = none ↔ d.scope = [] := by
  obtain ⟨l, hl⟩ := h
  exact hl.tuple?_eq_none_iff

open Draw Element

/-- A negation or existence claim is drawn just if it may stand there, provided
    that this is so for its members. -/
theorem Good.succeeds_group (h : d.Good) (q : Session.Quantifier)
    (hm : ∀ d₁ : Draft, d₁.Good →
      (Succeeds (Draw.elements c members d₁) ↔ Proper d₁.scope members)) :
    Succeeds (quantified c q members (Draw.elements c members) d) ↔
      Proper d.scope [.group q.connective members] := by
  rw [proper_quantified]
  obtain ⟨hgood, hscope⟩ := h.started (c := c)
  obtain ⟨left, hleft⟩ := d.exists_tuple_started c
  unfold quantified
  by_cases hempty : members.isEmpty
  · simp only [hempty, if_true]
    exact iff_of_false (not_succeeds_error _ _) fun hp => hp.1 (List.isEmpty_iff.1 hempty)
  simp only [hempty, Bool.false_eq_true, if_false]
  rw [and_iff_right (fun hnil => hempty (List.isEmpty_iff.2 hnil)),
    Session.bind_ok (tuple_eq hleft), Session.get_bind, ← hscope]
  cases hs : single? members with
  | some p =>
    rw [single?_eq_some_iff.1 hs, proper_pattern, ← succeeds_single (c := c)]
    exact succeeds_then fun right d' => ⟨_, _, rfl⟩
  | none =>
    refine (succeeds_then fun right d' => ⟨_, _, rfl⟩).trans ?_
    rw [← hm _ hgood]
    refine succeeds_subnetwork ((hgood.elements members).mono fun _ d' hd' => ?_)
    -- something has been in scope since the tuple was started
    refine Option.ne_none_iff_exists'.1 fun hnone => ?_
    have hnil := hd'.1.tuple?_eq_none_iff.1 hnone
    have hprefix := scope_prefix_afterAll (d.started c).scope members
    rw [← hd'.2, hnil, List.prefix_nil, ← hgood.tuple?_eq_none_iff, hleft] at hprefix
    cases hprefix

theorem succeeds_pattern_element (p : Pattern) :
    Succeeds (Draw.element c (.pattern p) d) ↔ Proper d.scope [.pattern p] := by
  rw [Draw.element, proper_pattern, ← succeeds_pattern (c := c)]
  exact succeeds_then fun _ _ => succeeds_pure ()

theorem succeeds_nil : Succeeds (Draw.elements c [] d) ↔ Proper d.scope [] := by
  rw [Draw.elements]
  exact iff_of_true (succeeds_pure ()) proper_nil

theorem Good.succeeds_cons (h : d.Good) {e : Element} {es : List Element}
    (he : Succeeds (Draw.element c e d) ↔ Proper d.scope [e])
    (hes : ∀ d₁ : Draft, d₁.Good → (Succeeds (Draw.elements c es d₁) ↔ Proper d₁.scope es)) :
    Succeeds (Draw.elements c (e :: es) d) ↔ Proper d.scope (e :: es) := by
  rw [Draw.elements, proper_cons, ← he]
  refine succeeds_bind (h.element e) fun _ d₁ hd₁ => ?_
  rw [hes d₁ hd₁.1, hd₁.2]

theorem Good.succeeds_patterns (h : d.Good) (ps : List Pattern) :
    Succeeds (Draw.elements c (ps.map .pattern) d) ↔ Proper d.scope (ps.map .pattern) := by
  induction ps generalizing d with
  | nil => exact succeeds_nil
  | cons p ps ih => exact h.succeeds_cons (succeeds_pattern_element p) fun _ h₁ => ih h₁

/-- A universal statement is drawn just if the negation that it is may stand
    there. -/
theorem Good.succeeds_universal (h : d.Good) (base : Pattern) (rest : List Pattern) :
    Succeeds (universal c base rest d) ↔ Proper d.scope [.every base rest] := by
  rw [universal_eq, proper_every, Draw.element]
  refine h.succeeds_group .none fun d₁ h₁ => ?_
  refine h₁.succeeds_cons (succeeds_pattern_element _) fun d₂ h₂ => ?_
  refine h₂.succeeds_cons ?_ fun _ _ => succeeds_nil
  rw [Draw.element]
  exact h₂.succeeds_group .none fun _ h₃ => h₃.succeeds_patterns _

mutual

theorem succeeds_element {d : Draft} (h : d.Good) : (e : Element) → e.hasOr = false →
    (Succeeds (Draw.element c e d) ↔ Proper d.scope [e])
  | .pattern p, _ => succeeds_pattern_element p
  | .group .and members, hor => by
    rw [Draw.element, proper_and]
    exact succeeds_elements h members hor
  | .group .or _, hor => by cases hor
  | .group .not members, hor => by
    rw [Draw.element]
    exact h.succeeds_group .none fun _ h₁ => succeeds_elements h₁ members hor
  | .group .exists members, hor => by
    rw [Draw.element]
    exact h.succeeds_group .some fun _ h₁ => succeeds_elements h₁ members hor
  | .every base rest, _ => by
    rw [Draw.element]
    exact h.succeeds_universal base rest
  | .call q, _ => by
    rw [Draw.element, proper_call, succeeds_call, h.started.2]

/-- **Elements without disjunctions are drawn just if they may stand where the
    scope is.** -/
theorem succeeds_elements {d : Draft} (h : d.Good) : (es : List Element) →
    hasOrList es = false → (Succeeds (Draw.elements c es d) ↔ Proper d.scope es)
  | [], _ => succeeds_nil
  | e :: es, hor => by
    rw [hasOrList, Bool.or_eq_false_iff] at hor
    exact h.succeeds_cons (succeeds_element h e hor.1) fun _ h₁ => succeeds_elements h₁ es hor.2

end

theorem good_nextBranch (d : Draft) : d.nextBranch.Good := ⟨_, d.aligned_nextBranch⟩

end Draft

/-! ## Branches and rules -/

namespace Draw

variable {d : Draft} {config : Config} {b : Branch} {bs : List Branch} (query : Bool)

end Draw

/-- The branches of a conjunction are conjunctions without disjunctions. -/
theorem Body.branches_and {body : Body} {bs : List Branch} (hand : body.connective = .and)
    (h : body.branches = .ok bs) :
    ∀ b ∈ bs, b.body.connective = .and ∧ Element.hasOrList b.body.members = false := by
  intro b hb
  have hfree := (splits_branches (default : Interpretation Unit) h).2.1 b hb
  have hconnective : b.body.connective = .and := by
    cases hor : body.hasOr with
    | true =>
      obtain ⟨cs, -, hbodies⟩ := branches_of_hasOr hor h
      have hin : b.body ∈ cs.map (Body.mk .and) := hbodies ▸ List.mem_map_of_mem hb
      obtain ⟨c, -, hc⟩ := List.mem_map.1 hin
      rw [← hc]
    | false =>
      rw [branches_of_not_hasOr hor] at h
      cases h
      rw [List.mem_singleton.1 hb]
      exact hand
  refine ⟨hconnective, ?_⟩
  rw [hasOr, toElement, hconnective] at hfree
  exact hfree

namespace Rule

variable {r : Rule} {config : Config}

end Rule

namespace RuleBase

variable {base : RuleBase} {r : Rule}

/-- What a rule must be like to be added. -/
structure Admits (base : RuleBase) (r : Rule) : Prop where
  /-- No registered rule has its name. -/
  free : ∀ (id : RuleId) (entry : RuleEntry), base.rule? id = some entry → entry.name ≠ r.name
  /-- The number that it gets is not taken. -/
  unnumbered : base.rule? base.nextRule = none
  /-- No disjunction in it is empty. -/
  alternatives : ¬ Element.Occurs (.group .or []) r.body.toElement
  /-- No negation or existence claim in its branches is empty. -/
  filled : ∀ bs, r.body.branches = .ok bs → ∀ b ∈ bs, ∀ q : Session.Quantifier,
    ¬ Element.Occurs (.group q.connective []) b.body.toElement
  /-- Whatever is referred to has been declared and is in scope. -/
  covered : ∀ scope reader, r.Reads scope reader → scope.Covers reader

theorem admits_iff {defs : RuleId → Option Rule} {inst : RuleId → Option Installation}
    (hs : base.Sound defs inst) (hand : r.body.connective = .and) : base.Admits r ↔
    base.ruleNamed? r.name = none ∧ base.rules[base.nextRule]? = none ∧
      ∃ bs, r.body.branches = .ok bs ∧ ∀ b ∈ bs, Element.Proper [] b.body.members := by
  constructor
  · intro h
    refine ⟨hs.ruleNamed?_eq_none_iff.2 h.free, h.unnumbered, ?_⟩
    cases hbs : r.body.branches with
    | error f => exact absurd (Body.branches_error_iff.1 ⟨f, hbs⟩) h.alternatives
    | ok bs =>
      refine ⟨bs, rfl, fun b hb => ⟨fun q e he hin => ?_, fun sc rd hr => ?_⟩⟩
      · exact h.filled bs hbs b hb q (.member he hin)
      · exact h.covered sc rd ⟨bs, hbs, b, hb, hr⟩
  · rintro ⟨hfree, hnumber, bs, hbs, hproper⟩
    refine ⟨hs.ruleNamed?_eq_none_iff.1 hfree, hnumber, fun hin => ?_,
      fun bs' hbs' b hb q hin => ?_, ?_⟩
    · obtain ⟨f, hf⟩ := Body.branches_error_iff.2 hin
      rw [hbs] at hf
      cases hf
    · rw [hbs] at hbs'
      cases hbs'
      rw [Body.toElement, (Body.branches_and hand hbs b hb).1, Element.occurs_group] at hin
      obtain heq | ⟨e, he, hin⟩ := hin
      · exact Element.connective_ne_and q (Element.group.inj heq).1
      · exact (hproper b hb).filled q e he hin
    · rintro sc rd ⟨bs', hbs', b, hb, hr⟩
      rw [hbs] at hbs'
      cases hbs'
      exact (hproper b hb).covered sc rd hr

end RuleBase

namespace RuleBase

end RuleBase

end RuleNet
