/-
  RuleNet — the numbering of patterns does not matter.

  Offsets tell the patterns of a rule apart, and no more: while a rule is drawn
  they are looked up in the scope and replaced by positions.  So a rule whose
  patterns are renumbered is drawn just as before, request by request, and where
  drawing fails it fails alike (`Draw.carried_rule`).  Adding it does the same to
  a rule base, but for the origins of nodes (`RuleBase.add_renumber`).
-/
import RuleNet.Proofs.Drafts
import RuleNet.Proofs.Editing
import RuleNet.Proofs.Origins

namespace RuleNet

/-! ## Renumbering rules -/

/-- A renumbering of patterns.  Different offsets stay different, and the
    patterns that the compiler adds keep theirs. -/
structure Renumbering where
  image : Offset → Offset
  injective : Function.Injective image
  synthetic : image Offset.synthetic = Offset.synthetic

/-- Two offsets change places. -/
def Renumbering.swap (a b : Offset) (ha : a ≠ Offset.synthetic) (hb : b ≠ Offset.synthetic) :
    Renumbering where
  image := Equiv.swap a b
  injective := (Equiv.swap a b).injective
  synthetic := Equiv.swap_apply_of_ne_of_ne ha.symm hb.symm

variable (f : Renumbering)

/-- A join test of a renumbered rule. -/
def JoinTest.renumber (t : JoinTest) : JoinTest := t.retarget (f.image t.target)

/-- A time test of a renumbered rule. -/
def TimeTest.renumber (t : TimeTest) : TimeTest := { t with target := f.image t.target }

/-- An argument of a renumbered rule. -/
def Argument.renumber : Argument → Argument
  | .literal v => .literal v
  | .bound read => .bound { read with offset := f.image read.offset }

/-- A pattern of a renumbered rule. -/
def Pattern.renumber (p : Pattern) : Pattern :=
  { p with
    offset := f.image p.offset
    ownJoinTests := p.ownJoinTests.map (·.renumber f)
    timeTests := p.timeTests.map (·.renumber f) }

/-- A call in a renumbered rule. -/
def QueryCall.renumber (q : QueryCall) : QueryCall :=
  { q with arguments := q.arguments.map (·.renumber f), result := q.result.renumber f }

namespace Element

mutual

/-- An element of a renumbered rule. -/
def renumber : Element → Element
  | pattern p => pattern (p.renumber f)
  | group c members => group c (renumberList members)
  | every base rest => every (base.renumber f) (rest.map (·.renumber f))
  | call q => call (q.renumber f)

/-- Elements of a renumbered rule. -/
def renumberList : List Element → List Element
  | [] => []
  | e :: es => e.renumber :: renumberList es

end

end Element

/-- The body of a renumbered rule. -/
def Body.renumber (b : Body) : Body := { b with members := Element.renumberList f b.members }

/-- A branch of a renumbered rule. -/
def Branch.renumber (b : Branch) : Branch := { b with body := b.body.renumber f }

/-- A rule with its patterns renumbered, and whatever refers to them. -/
def Rule.renumber (r : Rule) : Rule := { r with body := r.body.renumber f }

/-- The same fault in a renumbered rule. -/
def Fault.renumber : Fault → Fault
  | .unboundDeclaration offset reading => .unboundDeclaration (f.image offset) reading
  | .unsatisfiableTimes first second => .unsatisfiableTimes (f.image first) (f.image second)
  | fault => fault

/-- The latest patterns of a renumbered rule. -/
def Recent.renumber (r : Recent) : Recent :=
  ⟨r.latest?.map (·.renumber f), r.previous?.map (·.renumber f)⟩

/-- A draft of a renumbered rule. -/
def Draft.renumber (d : Draft) : Draft :=
  { d with scope := d.scope.map (·.renumber f), recent := d.recent.renumber f }

/-! ## Patterns and scopes -/

variable {f}

theorem Renumbering.eq_iff {o o' : Offset} : f.image o = f.image o' ↔ o = o' := f.injective.eq_iff

theorem Renumbering.eq_synthetic_iff {o : Offset} :
    f.image o = Offset.synthetic ↔ o = Offset.synthetic := by
  rw [← f.eq_iff (o := o), f.synthetic]

namespace Pattern

variable {p : Pattern}

@[simp] theorem isSynthetic_renumber : (p.renumber f).isSynthetic = p.isSynthetic := by
  rw [Bool.eq_iff_iff, isSynthetic, isSynthetic, beq_iff_eq, beq_iff_eq]
  exact Renumbering.eq_synthetic_iff

theorem joinTests_renumber : (p.renumber f).joinTests = p.joinTests.map (·.renumber f) := by
  simp only [joinTests, renumber, List.map_append, List.map_map]
  rfl

@[simp] theorem renumber_initialFact : initialFact.renumber f = initialFact := by
  simp [renumber, initialFact, f.synthetic]

theorem renumber_guarded (base : Offset) :
    (p.guarded base).renumber f = (p.renumber f).guarded (f.image base) := by
  simp [guarded, renumber, JoinTest.renumber, JoinTest.retarget, JoinTest.target]

theorem isGuard_renumber (t : JoinTest) : (t.renumber f).isGuard = t.isGuard := by
  cases t <;> rfl

@[simp] theorem isRelated_renumber : (p.renumber f).isRelated = p.isRelated := by
  simp [isRelated, renumber, List.any_map, Function.comp_def, isGuard_renumber]

end Pattern

namespace Scope

variable {scope : Scope}

theorem find_renumber (offset : Offset) :
    find (scope.map (·.renumber f)) (f.image offset) = scope.find offset := by
  simp only [find, List.findIdx?_map]
  congr 1
  funext p
  rw [Function.comp_apply, Pattern.isSynthetic_renumber]
  congr 1
  rw [Bool.eq_iff_iff, beq_iff_eq, beq_iff_eq]
  exact f.eq_iff

theorem position_renumber (offset : Offset) (reading : Reading) :
    position (scope.map (·.renumber f)) (f.image offset) reading =
      (scope.position offset reading).mapError (·.renumber f) := by
  rw [position, position, find_renumber]
  cases scope.find offset <;> rfl

theorem resolveTest_renumber (t : JoinTest) :
    resolveTest (scope.map (·.renumber f)) (t.renumber f) =
      (scope.resolveTest t).mapError (·.renumber f) := by
  have htarget : (t.renumber f).target = f.image t.target := by cases t <;> rfl
  have hreading : (t.renumber f).reading = t.reading := by cases t <;> rfl
  rw [resolveTest, resolveTest, htarget, hreading, position_renumber]
  cases scope.position t.target t.reading with
  | error _ => rfl
  | ok i => cases t <;> rfl

theorem resolveArgument_renumber (a : Argument) :
    resolveArgument (scope.map (·.renumber f)) (a.renumber f) =
      (scope.resolveArgument a).mapError (·.renumber f) := by
  cases a with
  | literal v => rfl
  | bound read =>
    simp only [Argument.renumber, resolveArgument, position_renumber]
    cases scope.position read.offset (.field read.field) <;> rfl

/-- A traversal that fails alike for each element fails alike. -/
theorem mapM_mapError {α β : Type} {g : Fault → Fault} {h : α → α} {r r' : α → Except Fault β}
    (hr : ∀ a, r' (h a) = (r a).mapError g) (l : List α) :
    (l.map h).mapM r' = (l.mapM r).mapError g := by
  induction l with
  | nil => rfl
  | cons a l ih =>
    rw [List.map_cons, List.mapM_cons, List.mapM_cons, hr, ih]
    cases r a with
    | error _ => rfl
    | ok b => cases l.mapM r <;> rfl

theorem resolve_renumber (ts : List JoinTest) :
    resolve (scope.map (·.renumber f)) (ts.map (·.renumber f)) =
      (scope.resolve ts).mapError (·.renumber f) :=
  mapM_mapError resolveTest_renumber ts

theorem resolveArguments_renumber (as : List Argument) :
    resolveArguments (scope.map (·.renumber f)) (as.map (·.renumber f)) =
      (scope.resolveArguments as).mapError (·.renumber f) :=
  mapM_mapError resolveArgument_renumber as

end Scope

@[simp] theorem Draft.tuple?_renumber (d : Draft) : (d.renumber f).tuple? = d.tuple? := rfl

theorem Recent.renumber_record (r : Recent) (p : Pattern) :
    (r.record p).renumber f = (r.renumber f).record (p.renumber f) := rfl

/-! ## Elements and branches -/

namespace Element

theorem renumberList_eq_map (es : List Element) : renumberList f es = es.map (renumber f) := by
  induction es with
  | nil => rfl
  | cons e es ih => rw [renumberList, ih, List.map_cons]

theorem single?_renumberList (es : List Element) :
    single? (renumberList f es) = (single? es).map (·.renumber f) := by
  rcases es with - | ⟨e, - | ⟨e', es⟩⟩
  · rfl
  · cases e <;> rfl
  · cases e <;> rfl

mutual

theorem hasOr_renumber : (e : Element) → (e.renumber f).hasOr = e.hasOr
  | pattern _ | every .. | call _ => rfl
  | group c members => by rw [renumber, hasOr, hasOr, hasOrList_renumberList members]

theorem hasOrList_renumberList : (es : List Element) → hasOrList (renumberList f es) = hasOrList es
  | [] => rfl
  | e :: es => by
    rw [renumberList, hasOrList, hasOrList, hasOr_renumber e, hasOrList_renumberList es]

end

/-- The branches of a renumbered element, from those of the element. -/
def renumberBranches (bs : Except Fault (List Conjunction)) : Except Fault (List Conjunction) :=
  (bs.map (·.map (renumberList f))).mapError (·.renumber f)

theorem renumberBranches_bind {bs : Except Fault (List Conjunction)}
    {k k' : List Conjunction → Except Fault (List Conjunction)}
    (hk : ∀ cs, k' (cs.map (renumberList f)) = renumberBranches (f := f) (k cs)) :
    renumberBranches (f := f) bs >>= k' = renumberBranches (f := f) (bs >>= k) := by
  cases bs with
  | error _ => rfl
  | ok cs => exact hk cs

theorem renumberBranches_flatMap (first others : List Conjunction) :
    (first.map (renumberList f)).flatMap (fun c => (others.map (renumberList f)).map (c ++ ·)) =
      (first.flatMap fun c => others.map (c ++ ·)).map (renumberList f) := by
  simp only [List.map_flatMap, List.flatMap_map, List.map_map, Function.comp_def,
    renumberList_eq_map, List.map_append]

mutual

theorem branches_renumber : (e : Element) →
    (e.renumber f).branches = renumberBranches (f := f) e.branches
  | pattern _ | every .. | call _ => rfl
  | group .and members => choices_renumberList members
  | group .or members => by
    have hempty : (renumberList f members).isEmpty = members.isEmpty := by cases members <;> rfl
    rw [renumber, branches, branches, hempty]
    split
    · rfl
    · exact alternatives_renumberList members
  | group .not members => by
    rw [renumber, branches, branches, hasOrList_renumberList]
    split
    · rw [choices_renumberList members]
      refine renumberBranches_bind fun cs => ?_
      change Except.ok [(cs.map (renumberList f)).map (group .not)] =
        Except.ok [renumberList f (cs.map (group .not))]
      rw [renumberList_eq_map, List.map_map, List.map_map]
      rfl
    · rfl
  | group .exists members => by
    rw [renumber, branches, branches, hasOrList_renumberList]
    split
    · rw [choices_renumberList members]
      refine renumberBranches_bind fun cs => ?_
      change Except.ok ((cs.map (renumberList f)).map fun c => [group .exists c]) =
        Except.ok ((cs.map fun c => [group .exists c]).map (renumberList f))
      rw [List.map_map, List.map_map]
      rfl
    · rfl

theorem choices_renumberList : (es : List Element) →
    choices (renumberList f es) = renumberBranches (f := f) (choices es)
  | [] => rfl
  | e :: es => by
    rw [renumberList, choices, choices, branches_renumber e, choices_renumberList es]
    refine renumberBranches_bind fun first => renumberBranches_bind fun others => ?_
    exact congrArg Except.ok (renumberBranches_flatMap first others)

theorem alternatives_renumberList : (es : List Element) →
    alternatives (renumberList f es) = renumberBranches (f := f) (alternatives es)
  | [] => rfl
  | e :: es => by
    rw [renumberList, alternatives, alternatives, branches_renumber e, alternatives_renumberList es]
    refine renumberBranches_bind fun first => renumberBranches_bind fun others => ?_
    exact congrArg Except.ok List.map_append.symm

end

end Element

theorem Body.branches_renumber (b : Body) :
    (b.renumber f).branches = (b.branches.map (·.map (·.renumber f))).mapError (·.renumber f) := by
  have hor : (b.renumber f).hasOr = b.hasOr := Element.hasOr_renumber (f := f) b.toElement
  have hbranches := Element.branches_renumber (f := f) b.toElement
  rw [branches, branches, hor]
  split
  · change ((Element.renumber f b.toElement).branches >>= _) = _
    rw [hbranches]
    cases b.toElement.branches with
    | error _ => rfl
    | ok cs =>
      refine congrArg Except.ok ?_
      refine List.ext_getElem? fun i => ?_
      simp only [List.getElem?_mapIdx, List.getElem?_map, Option.map_map]
      rfl
  · rfl

/-! ## Drawing -/

namespace Universal

variable {base : Pattern} {rest : List Pattern}

/-- A universal statement of a renumbered rule. -/
def renumber (u : Universal) (f : Renumbering) : Universal :=
  { u with base := u.base.renumber f, rest := u.rest.map (·.renumber f) }

theorem of_renumber :
    of (base.renumber f) (rest.map (·.renumber f)) = (of base rest).renumber f := by
  have hbare : (base.renumber f).bare = base.bare.renumber f := rfl
  have hguarded (d p : Pattern) :
      (if (p.renumber f).type == (d.renumber f).type then (p.renumber f).guarded (d.renumber f).offset
        else p.renumber f) =
      (if p.type == d.type then p.guarded d.offset else p).renumber f := by
    rw [apply_ite (Pattern.renumber f), Pattern.renumber_guarded]
    rfl
  cases rest with
  | nil =>
    simp only [of, renumber, List.map_nil, List.isEmpty_nil, if_true, hbare, List.map_cons, hguarded,
      List.all_cons, List.all_nil, Pattern.isRelated_renumber]
  | cons r rest =>
    simp only [of, renumber, List.map_cons, List.isEmpty_cons, Bool.false_eq_true, if_false,
      List.map_map, Function.comp_def, hguarded, List.all_cons, List.all_map,
      Pattern.isRelated_renumber]

theorem inner_renumber (u : Universal) :
    (u.renumber f).inner = Element.renumberList f u.inner := by
  rw [inner, inner, Element.renumberList_eq_map, renumber, List.map_map, List.map_map]
  rfl

theorem outer_renumber (u : Universal) :
    (u.renumber f).outer = Element.renumberList f u.outer := by
  rw [outer, inner_renumber]
  rfl

end Universal

namespace Draw

variable {α β : Type} {m m' : Draw α} {k k' : α → Draw β} {c : Setting}

/-- What drawing comes to for a renumbered rule. -/
def renumbered (f : Renumbering) : EStateM.Result Fault Draft α → EStateM.Result Fault Draft α
  | .ok a d => .ok a (d.renumber f)
  | .error fault d => .error (fault.renumber f) (d.renumber f)

/-- `m'` does on a renumbered draft what `m` does on the draft. -/
def Carried (f : Renumbering) (m m' : Draw α) : Prop := ∀ d, m' (d.renumber f) = renumbered f (m d)

namespace Carried

theorem pure (a : α) : Carried f (pure a : Draw α) (Pure.pure a) := fun _ => rfl

theorem throw {fault : Fault} (h : fault.renumber f = fault) :
    Carried f (throw fault : Draw α) (MonadExcept.throw fault) := fun d => by
  change EStateM.Result.error fault _ = .error (fault.renumber f) _
  rw [h]

theorem bind (h : Carried f m m') (hk : ∀ a, Carried f (k a) (k' a)) :
    Carried f (m >>= k) (m' >>= k') := by
  intro d
  have hd := h d
  cases hm : m d with
  | ok a t =>
    rw [hm] at hd
    rw [Session.bind_ok hm, Session.bind_ok hd]
    exact hk a t
  | error fault t =>
    rw [hm] at hd
    rw [Session.bind_error hm, Session.bind_error hd]
    rfl

theorem modify {u u' : Draft → Draft} (h : ∀ d, u' (d.renumber f) = (u d).renumber f) :
    Carried f (modify u : Draw PUnit) (modify u') := fun d =>
  congrArg (EStateM.Result.ok PUnit.unit) (h d)

/-- A step that depends on what it reads of the draft. -/
theorem reads {k k' : Draft → Draw α} (h : ∀ d, k' (d.renumber f) (d.renumber f) =
    renumbered f (k d d)) : Carried f (get >>= k) (get >>= k') := h

theorem check {e e' : Except Fault α} (h : e' = e.mapError (·.renumber f)) :
    Carried f (ofExcept e : Draw α) (ofExcept e') := by
  subst h
  cases e <;> exact fun _ => rfl

theorem forM {g g' : Pattern → Draw PUnit} (h : ∀ p, Carried f (g p) (g' (p.renumber f)))
    (ps : List Pattern) : Carried f (ps.forM g) ((ps.map (·.renumber f)).forM g') := by
  induction ps with
  | nil => exact .pure _
  | cons p ps ih => exact (h p).bind fun _ => ih

theorem mapM {γ : Type} {h : γ → γ} {g g' : γ → Draw α} (hg : ∀ a, Carried f (g a) (g' (h a)))
    (l : List γ) : Carried f (l.mapM g) ((l.map h).mapM g') := by
  induction l with
  | nil => exact .pure _
  | cons a l ih =>
    rw [List.map_cons, List.mapM_cons, List.mapM_cons]
    exact (hg a).bind fun b => ih.bind fun bs => .pure _

end Carried

theorem carried_request (kind : NodeKind) (e? : Option Expiration) :
    Carried f (request c kind e?) (request c kind e?) := fun _ => rfl

section Elements

/-! Offsets tell how long facts must be kept, but not where facts are timeless. -/

variable (hc : c.distances? = none)
include hc

theorem expirationOf_eq_none (p : Pattern) : c.expirationOf p = none := by
  rw [Setting.expirationOf, hc]
  split <;> rfl

theorem side_renumber (p : Pattern) : c.side (p.renumber f) = c.side p := by
  funext n
  rw [Setting.side, Setting.side, expirationOf_eq_none hc, expirationOf_eq_none hc]
  rfl

theorem sided_renumber (d : Draft) (p : Pattern) :
    (d.renumber f).sided c (p.renumber f) = (d.sided c p).renumber f := by
  rw [Draft.sided, Draft.sided, side_renumber hc]
  rfl

theorem tupleRequest_renumber (p : Pattern) (tests : List JoinTest) (object : Nat)
    (tuple? : Option Nat) :
    c.tupleRequest (p.renumber f) tests object tuple? = c.tupleRequest p tests object tuple? := by
  cases tuple? with
  | none => rfl
  | some left =>
    rw [Setting.tupleRequest, Setting.tupleRequest, expirationOf_eq_none hc,
      expirationOf_eq_none hc]

theorem joined_renumber (d : Draft) (p : Pattern) (tests : List JoinTest) :
    (d.renumber f).joined c (p.renumber f) tests = (d.joined c p tests).renumber f := by
  have hend : (p.renumber f).sideEnd = p.sideEnd := rfl
  simp only [Draft.joined, sided_renumber hc, tupleRequest_renumber hc, hend]
  simp [Draft.extend, Draft.snoc, Draft.record, Draft.renumber, Recent.renumber_record]

theorem carried_pattern (p : Pattern) : Carried f (pattern c p) (pattern c (p.renumber f)) := by
  intro d
  have hresolve : (d.renumber f).scope.resolve (p.renumber f).joinTests =
      (d.scope.resolve p.joinTests).mapError (·.renumber f) := by
    rw [Pattern.joinTests_renumber]
    exact Scope.resolve_renumber _
  cases h : d.scope.resolve p.joinTests with
  | error fault =>
    rw [h] at hresolve
    rw [pattern_error h, pattern_error hresolve]
    rfl
  | ok tests =>
    rw [h] at hresolve
    rw [pattern_eq h, pattern_eq hresolve, joined_renumber hc, sided_renumber hc]
    rfl

theorem carried_tuple : Carried f (tuple c) (tuple c) := by
  have hinitial := carried_pattern (f := f) hc .initialFact
  rw [Pattern.renumber_initialFact] at hinitial
  refine .reads fun d => ?_
  rw [Draft.tuple?_renumber]
  cases d.tuple? with
  | some i => rfl
  | none => exact hinitial d

theorem carried_single (p : Pattern) : Carried f (single c p) (single c (p.renumber f)) := by
  refine .reads fun d => Carried.bind (.check ?_) (fun tests => ?_) d
  · rw [Pattern.joinTests_renumber]
    exact Scope.resolve_renumber _
  refine .bind (fun d => ?_) fun object => .bind (.modify fun d => rfl) fun _ => ?_
  · rw [objectSide_eq, objectSide_eq, sided_renumber hc]
    rfl
  · rw [expirationOf_eq_none hc, expirationOf_eq_none hc]
    exact .pure _

omit hc in
theorem carried_subnetwork (left : Nat) {members members' : Draw Unit}
    (h : Carried f members members') :
    Carried f (subnetwork c left members) (subnetwork c left members') := by
  refine .reads fun d => Carried.bind h (fun _ => .reads fun d' => ?_) d
  have hlength : (d.renumber f).scope.length = d.scope.length := List.length_map ..
  rw [Draft.tuple?_renumber, hlength]
  cases d'.tuple? with
  | none => rfl
  | some last =>
    refine Carried.bind (carried_request _ _) (fun source => .bind (.modify fun t => ?_) fun _ =>
      .pure _) d'
    simp [Draft.renumber]

omit hc in
/-- The join at the end of a negation or existence claim. -/
theorem carried_close (q : Session.Quantifier) (left : Nat) (memory : Bool)
    (right : Nat × List JoinTest × Option Expiration) :
    Carried f (do
      let node ← join c q.joinKind left right.1 right.2.1 memory right.2.2
      modify ({ · with tuple? := some node }))
    (do
      let node ← join c q.joinKind left right.1 right.2.1 memory right.2.2
      modify ({ · with tuple? := some node })) :=
  .bind (carried_request _ _) fun _ => .modify fun _ => rfl

theorem carried_quantified (q : Session.Quantifier) (members : List Element)
    {drawMembers drawMembers' : Draw Unit} (h : Carried f drawMembers drawMembers') :
    Carried f (quantified c q members drawMembers)
      (quantified c q (Element.renumberList f members) drawMembers') := by
  have hempty : (Element.renumberList f members).isEmpty = members.isEmpty := by
    cases members <;> rfl
  rw [quantified, quantified, hempty, Element.single?_renumberList]
  by_cases hm : members.isEmpty
  · simp only [hm, if_true]
    exact .throw (by cases q <;> rfl)
  simp only [hm]
  refine (carried_tuple hc).bind fun left => .reads fun d => ?_
  have hfirst : (d.renumber f).recent.latest?.any (·.isInitialFact) =
      d.recent.latest?.any (·.isInitialFact) := by
    simp only [Draft.renumber, Recent.renumber, Option.any_map]
    rfl
  rw [hfirst]
  cases Element.single? members with
  | none => exact (carried_subnetwork left h).bind (carried_close q left _) d
  | some p => exact (carried_single hc p).bind (carried_close q left _) d

theorem carried_universal (base : Pattern) (rest : List Pattern) :
    Carried f (universal c base rest)
      (universal c (base.renumber f) (rest.map (·.renumber f))) := by
  have hc' : ({ c with guardsOut := (Universal.of base rest).guardsOnly } : Setting).distances? =
      none := hc
  rw [universal, universal, Universal.of_renumber, Universal.outer_renumber,
    Universal.inner_renumber]
  refine carried_quantified hc' .none _ ?_
  refine (carried_pattern hc' _).bind fun _ => carried_quantified hc' .none _ ?_
  exact .forM (fun p => (carried_pattern hc' p).bind fun _ => .pure _) _

theorem carried_call (q : QueryCall) : Carried f (call c q) (call c (q.renumber f)) := by
  refine (carried_tuple hc).bind fun left => .reads fun d => ?_
  refine Carried.bind (.check (Scope.resolveArguments_renumber _)) (fun arguments => ?_) d
  refine (carried_request _ _).bind fun node => .modify fun d => ?_
  simp [Draft.extend, Draft.record, Draft.renumber, Recent.renumber_record, QueryCall.renumber]

omit hc

mutual

theorem carried_element (hc : c.distances? = none) : (e : Element) →
    Carried f (element c e) (element c (e.renumber f))
  | .pattern p => (carried_pattern hc p).bind fun _ => .pure _
  | .group .and members => carried_elements hc members
  | .group .or _ => .throw rfl
  | .group .not members => carried_quantified hc .none members (carried_elements hc members)
  | .group .exists members => carried_quantified hc .some members (carried_elements hc members)
  | .every base rest => carried_universal hc base rest
  | .call q => carried_call hc q

theorem carried_elements (hc : c.distances? = none) : (es : List Element) →
    Carried f (elements c es) (elements c (Element.renumberList f es))
  | [] => .pure ()
  | e :: es => (carried_element hc e).bind fun _ => carried_elements hc es

end

end Elements

variable {config : Config} (hcloud : config.isStream = false)
include hcloud

theorem carried_branch (query : Bool) (b : Branch) :
    Carried f (branch config query b) (branch config query (b.renumber f)) := by
  refine .bind (.modify fun _ => rfl) fun _ => ?_
  simp only [hcloud, Bool.false_eq_true, if_false, pure_bind]
  refine (carried_elements rfl b.body.members).bind fun _ => (carried_tuple rfl).bind fun _ => ?_
  exact carried_request _ _

/-- **A renumbered rule is drawn as the rule is**, where facts are timeless. -/
theorem carried_rule (r : Rule) : Carried f (rule config r) (rule config (r.renumber f)) := by
  intro d
  have hbranches : (r.renumber f).body.branches =
      (r.body.branches.map (·.map (·.renumber f))).mapError (·.renumber f) :=
    Body.branches_renumber r.body
  rw [rule, rule, hbranches]
  cases r.body.branches with
  | ok bs => exact Carried.mapM (carried_branch hcloud r.isQuery) bs d
  | error fault => rfl

end Draw

/-! ## Adding renumbered rules -/

namespace RuleBase

variable {base : RuleBase} {defs : RuleId → Option Rule} {inst : RuleId → Option Installation}
variable {r : Rule}

/-- A rule that is drawn to its end, under either numbering.  It is refused if
    its number is that of another. -/
theorem add_renumber_drawn (h : base.Sound defs inst) (hfree : r.name ∉ base.names)
    {ts : List Nat} {d : Draft} (hd : Draw.rule base.config r .empty = .ok ts d)
    (hd' : Draw.rule base.config (r.renumber f) .empty = .ok ts (d.renumber f)) :
    ((∃ built, (base.add r).result = .ok built ∧ (base.add (r.renumber f)).result = .ok built) ∨
      ((base.add r).result = .error ⟨.duplicateRule r.name, none⟩ ∧
        (base.add (r.renumber f)).result = .error ⟨.duplicateRule r.name, none⟩)) ∧
      (base.add (r.renumber f)).base.unmarked = (base.add r).base.unmarked := by
  have hb : r.blueprint base.config = .ok ⟨d.steps, ts⟩ := by rw [Rule.blueprint, hd]
  have hb' : (r.renumber f).blueprint base.config = .ok ⟨d.steps, ts⟩ := by
    rw [Rule.blueprint, hd']
    rfl
  cases hnumber : base.rules[base.nextRule]? with
  | none =>
    have hname : base.ruleNamed? r.name = none :=
      h.not_mem_names_iff.1 hfree
    obtain ⟨built, I, hadd, hc⟩ := add_ok h hname hnumber hb
    obtain ⟨built', I', hadd', hc'⟩ := add_ok h (r := r.renumber f) hname hnumber hb'
    obtain ⟨rfl, hbase⟩ := hc.unmarked_eq hc' rfl rfl
    exact ⟨.inl ⟨_, hadd, hadd'⟩, hbase⟩
  | some taken =>
    have hsome : (base.rules[base.nextRule]?).isSome := by
      rw [hnumber]
      rfl
    obtain ⟨_, t, _, I, u, -, hI, hsteps, -, hu, hbase⟩ :=
      Session.compile_collided h.idle h.standing hfree hb hsome
    obtain ⟨_, t', _, I', u', -, hI', hsteps', -, hu', hbase'⟩ :=
      Session.compile_collided h.idle h.standing (r := r.renumber f) hfree hb' hsome
    have hundone : u'.base.unmarked = u.base.unmarked := by
      rw [hbase, hbase']
      exact Site.Runs.undone_eq hI.served hI'.served (hsteps.trans hsteps'.symm)
    rw [add, add, hu, hu']
    exact ⟨.inr ⟨rfl, rfl⟩, hundone⟩

/-- A rule that drawing fails of, under either numbering. -/
theorem add_renumber_failed (h : base.Sound defs inst) (hfree : r.name ∉ base.names)
    {fault : Fault} {d : Draft} (hd : Draw.rule base.config r .empty = .error fault d)
    (hd' : Draw.rule base.config (r.renumber f) .empty =
      .error (fault.renumber f) (d.renumber f)) :
    ∃ p p', (base.add r).result = .error ⟨fault, some p⟩ ∧
      (base.add (r.renumber f)).result = .error ⟨fault.renumber f, some p'⟩ ∧
      (base.add (r.renumber f)).base.unmarked = (base.add r).base.unmarked := by
  obtain ⟨t, p, w, I, ht, hruns, hsteps, hbase⟩ :=
    Session.compile_undone h.idle h.standing hfree hd
  obtain ⟨t', p', w', I', ht', hruns', hsteps', hbase'⟩ :=
    Session.compile_undone h.idle h.standing (r := r.renumber f) hfree hd'
  have hundone : t'.base.unmarked = t.base.unmarked := by
    rw [hbase, hbase']
    exact hruns.undone_eq hruns' (hsteps.trans hsteps'.symm)
  refine ⟨p, p', ?_, ?_, ?_⟩
  · rw [add, ht]
    rfl
  · rw [add, ht']
    rfl
  · rw [add, add, ht, ht']
    exact hundone

/-- **The numbering of patterns does not matter.**  Where facts are timeless, a
    rule and the same rule with its patterns renumbered are accepted with the same
    result, or refused for the same fault, whose offset is renumbered; and they
    leave the same rule base behind, but for the origins of its nodes. -/
theorem add_renumber (h : base.Reachable) (hcloud : base.config.eventMode = .cloud)
    (f : Renumbering) (r : Rule) :
    (base.add (r.renumber f)).result.mapError (·.fault) =
        (base.add r).result.mapError (·.fault.renumber f) ∧
      (base.add (r.renumber f)).base.unmarked = (base.add r).base.unmarked := by
  obtain ⟨defs, inst, hs⟩ := h.sound
  have hstream : base.config.isStream = false := by
    rw [Config.isStream, hcloud]
    rfl
  by_cases hname : r.name ∈ base.names
  · obtain ⟨t, ht, hbase⟩ := Session.compile_duplicate hs.idle (r := r) hname
    obtain ⟨t', ht', hbase'⟩ := Session.compile_duplicate hs.idle (r := r.renumber f) hname
    rw [add, add, ht, ht']
    exact ⟨rfl, congrArg unmarked (hbase'.trans hbase.symm)⟩
  have hcarried := Draw.carried_rule (f := f) hstream r .empty
  cases hd : Draw.rule base.config r .empty with
  | ok ts d =>
    rw [hd] at hcarried
    obtain ⟨⟨built, hadd, hadd'⟩ | ⟨hadd, hadd'⟩, hbase⟩ := add_renumber_drawn hs hname hd hcarried
    · rw [hadd, hadd']
      exact ⟨rfl, hbase⟩
    · rw [hadd, hadd']
      exact ⟨rfl, hbase⟩
  | error fault d =>
    rw [hd] at hcarried
    obtain ⟨p, p', hadd, hadd', hbase⟩ := add_renumber_failed hs hname hd hcarried
    rw [hadd, hadd']
    exact ⟨rfl, hbase⟩

/-- A rule whose first pattern gets an offset that no pattern had: the rule
    shares all that it can with the rule that is there, and a reference to
    nothing is one under the new offset. -/
theorem add_renumber_swapped :
    let base := ((empty {}).add (.relating "first" 0)).base
    let f := Renumbering.swap 0 7 (by decide) (by decide)
    base.Reachable ∧ base.config.eventMode = .cloud ∧
      (base.add ((Rule.relating "second" 0).renumber f)).result.mapError (·.fault) =
        (base.add (.relating "second" 0)).result.mapError (·.fault.renumber f) ∧
      (base.add ((Rule.relating "second" 0).renumber f)).base.unmarked =
        (base.add (.relating "second" 0)).base.unmarked ∧
      (base.add ((Rule.relating "unbound" 7).renumber f)).result.mapError (·.fault) =
        .error (.unboundDeclaration 0 (.field 5)) := by
  intro base f
  have hreach : base.Reachable := .step (.empty rfl) (.add (.relating "first" 0))
  have hcloud : base.config.eventMode = .cloud := by decide +kernel
  have hfault : (base.add (.relating "unbound" 7)).result.mapError (·.fault.renumber f) =
      .error (.unboundDeclaration 0 (.field 5)) := by decide +kernel
  exact ⟨hreach, hcloud, (add_renumber hreach hcloud f _).1, (add_renumber hreach hcloud f _).2,
    (add_renumber hreach hcloud f _).1.trans hfault⟩

end RuleBase

end RuleNet
