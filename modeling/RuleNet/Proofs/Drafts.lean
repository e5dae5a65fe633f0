/-
  RuleNet — what drawing does to a draft.

  Drawing a pattern adds its object side, a few requests that follow from the
  pattern and from how many there were before, and the step of its tuple
  (`Draw.pattern_eq`).  Of what is made of patterns, it is enough to know what
  holds of the draft after the parts: for each way of drawing there is one rule
  that tells what has to be shown for drawing to end in a good draft, whether it
  ends well or fails (`Draw.Ends`).
-/
import RuleNet.Proofs.Agreement
import RuleNet.Proofs.Drawing

namespace RuleNet

/-! ## Ending -/

namespace Draw

variable {α β : Type} {G : Draft → Prop} {P : α → Draft → Prop} {Q : β → Draft → Prop}
variable {m : Draw α} {k : α → Draw β} {d : Draft}

/-- Whether drawing ends as `P` says, or fails and leaves a draft as `G` says. -/
def Ends (G : Draft → Prop) (P : α → Draft → Prop) : EStateM.Result Fault Draft α → Prop
  | .ok a d => P a d
  | .error _ d => G d

theorem Ends.bind (h : Ends G P (m d)) (hk : ∀ a d', P a d' → Ends G Q (k a d')) :
    Ends G Q ((m >>= k) d) := by
  change Ends G Q (EStateM.bind m k d)
  unfold EStateM.bind
  revert h
  generalize m d = r
  intro h
  cases r with
  | ok a d' => exact hk a d' h
  | error f d' => exact h

theorem Ends.imp {G' : Draft → Prop} {P' : α → Draft → Prop}
    {r : EStateM.Result Fault Draft α} (h : Ends G P r) (hG : ∀ d, G d → G' d)
    (hP : ∀ a d, P a d → P' a d) : Ends G' P' r := by
  cases r with
  | ok a d => exact hP a d h
  | error f d => exact hG d h

theorem Ends.mono {P' : α → Draft → Prop} {r : EStateM.Result Fault Draft α} (h : Ends G P r)
    (hP : ∀ a d, P a d → P' a d) : Ends G P' r :=
  h.imp (fun _ => id) hP

theorem Ends.and {G' : Draft → Prop} {P' : α → Draft → Prop}
    {r : EStateM.Result Fault Draft α} (h : Ends G P r) (h' : Ends G' P' r) :
    Ends G (fun a d => P a d ∧ P' a d) r := by
  cases r with
  | ok a d => exact ⟨h, h'⟩
  | error f d => exact h

/-- What a check gives, or that it fails. -/
theorem ends_check {e : Except Fault α} (hG : G d) (h : ∀ a, e = .ok a → Ends G Q (k a d)) :
    Ends G Q ((ofExcept e >>= k) d) := by
  cases e with
  | ok a => exact h a rfl
  | error f => exact hG

end Draw

/-! ## Patterns -/

namespace Setting

/-- The object side of a pattern, requested after `n` other steps. -/
def side (c : Setting) (p : Pattern) (n : Nat) : List Request :=
  ⟨.entryPoint p.entry, c.guardsOut, none⟩ ::
    ⟨.objectType p.entry p.type c.memory, c.guardsOut, c.expirationOf p⟩ ::
      p.fieldTests.mapIdx fun i t => ⟨.alpha (n + 1 + i) t, c.guardsOut, c.expirationOf p⟩

/-- The request for a join. -/
def joinRequest (c : Setting) (kind : JoinKind) (left right : Nat) (tests : List JoinTest)
    (tupleMemory : Bool) (expiration? : Option Expiration) : Request where
  kind := .join { kind, left, right, tests, tupleMemory
                  crossProduct := JoinTest.noneCounts c.guardsOut tests }
  guardsOut := c.guardsOut
  expiration?

/-- The request by which the fact of a pattern becomes part of a tuple. -/
def tupleRequest (c : Setting) (p : Pattern) (tests : List JoinTest) (object : Nat) :
    (tuple? : Option Nat) → Request
  | none => ⟨.leftInput object, c.guardsOut, none⟩
  | some left => c.joinRequest .join left object tests true (c.expirationOf p)

end Setting

/-- The last step of the object side of a pattern that follows `n` other steps. -/
def Pattern.sideEnd (p : Pattern) (n : Nat) : Nat := n + 1 + p.fieldTests.length

namespace Draft

/-- The draft after the object side of a pattern. -/
def sided (d : Draft) (c : Setting) (p : Pattern) : Draft :=
  { d with steps := d.steps ++ c.side p d.steps.length }

/-- One more step. -/
def snoc (d : Draft) (q : Request) : Draft := { d with steps := d.steps ++ [q] }

/-- The draft after a pattern whose tests are `tests` in terms of positions. -/
def joined (d : Draft) (c : Setting) (p : Pattern) (tests : List JoinTest) : Draft :=
  let d' := (d.sided c p).record p
  (d'.snoc (c.tupleRequest p tests (p.sideEnd d.steps.length) d.tuple?)).extend d'.steps.length p

/-- The draft once there is a tuple. -/
def started (d : Draft) (c : Setting) : Draft :=
  if d.tuple?.isNone then d.joined c .initialFact [] else d

/-- The draft after a join that takes tuples from the tuple at hand. -/
def closed (d : Draft) (c : Setting) (q : Session.Quantifier) (left : Nat) (first : Bool)
    (right : Nat × List JoinTest × Option Expiration) : Draft :=
  { d.snoc (c.joinRequest q.joinKind left right.1 right.2.1 (!first) right.2.2) with
    tuple? := some d.steps.length }

/-- The draft after a subnetwork on the tuple of `left`, with `n` patterns in
    scope, that ends in the tuple of `last`. -/
def cut (d : Draft) (c : Setting) (left last n : Nat) : Draft :=
  { d.snoc ⟨.rightInput last, c.guardsOut, none⟩ with tuple? := some left, scope := d.scope.take n }

/-- Whether the pattern drawn last is about the initial fact. -/
def first (d : Draft) : Bool := d.recent.latest?.any (·.isInitialFact)

variable {d : Draft} {c : Setting} {p : Pattern} {tests : List JoinTest}

/-- No join is on an object side. -/
theorem not_join_of_mem_side {r : Request} {n : Nat} (hr : r ∈ c.side p n) (j : Join) :
    r.kind ≠ .join j := by
  simp only [Setting.side, List.mem_cons, List.mem_mapIdx] at hr
  obtain rfl | rfl | ⟨i, hi, rfl⟩ := hr <;> simp

@[simp] theorem steps_sided : (d.sided c p).steps = d.steps ++ c.side p d.steps.length := rfl

@[simp] theorem steps_joined : (d.joined c p tests).steps =
    (d.sided c p).steps ++ [c.tupleRequest p tests (p.sideEnd d.steps.length) d.tuple?] := rfl

@[simp] theorem scope_joined : (d.joined c p tests).scope = d.scope ++ [p] := rfl

@[simp] theorem tuple?_joined : (d.joined c p tests).tuple? = some (d.sided c p).steps.length := rfl

theorem started_of_some {i : Nat} (h : d.tuple? = some i) : d.started c = d :=
  if_neg (by rw [h]; exact Bool.false_ne_true)

theorem started_of_none (h : d.tuple? = none) : d.started c = d.joined c .initialFact [] :=
  if_pos (by rw [h]; rfl)

theorem exists_tuple_started (d : Draft) (c : Setting) : ∃ i, (d.started c).tuple? = some i := by
  cases h : d.tuple? with
  | some i => exact ⟨i, by rw [started_of_some h, h]⟩
  | none => exact ⟨_, by rw [started_of_none h]; rfl⟩

end Draft

namespace Draw

variable {c : Setting} {p : Pattern} {d : Draft} {G : Draft → Prop} {tests : List JoinTest}
variable {f : Fault} {i : Nat}

theorem request_bind {β : Type} (kind : NodeKind) (e? : Option Expiration) (k : Nat → Draw β) :
    (request c kind e? >>= k) d = k d.steps.length (d.snoc ⟨kind, c.guardsOut, e?⟩) := rfl

theorem modify_bind {β : Type} (f : Draft → Draft) (k : PUnit → Draw β) :
    (modify f >>= k) d = k ⟨⟩ (f d) := rfl

theorem alphas_eq (e? : Option Expiration) (ts : List FieldTest) (h : d.steps.length = i + 1) :
    ts.foldlM (fun source t => request c (.alpha source t) e?) i d =
      .ok (i + ts.length) { d with
        steps := d.steps ++ ts.mapIdx fun k t => ⟨.alpha (i + k) t, c.guardsOut, e?⟩ } := by
  induction ts generalizing i d with
  | nil =>
    rw [List.mapIdx_nil, List.append_nil]
    rfl
  | cons t ts ih =>
    have hlen : (d.snoc ⟨.alpha i t, c.guardsOut, e?⟩).steps.length = i + 1 + 1 := by
      simp [Draft.snoc, h]
    rw [List.foldlM_cons, request_bind, h, ih hlen, List.length_cons, List.mapIdx_cons]
    simp only [Draft.snoc, List.append_assoc, List.singleton_append, Nat.add_assoc, Nat.add_comm 1,
      Nat.add_zero]

theorem objectSide_eq : objectSide c p d = .ok (p.sideEnd d.steps.length) (d.sided c p) := by
  have hlen : ((d.snoc ⟨.entryPoint p.entry, c.guardsOut, none⟩).snoc
      ⟨.objectType p.entry p.type c.memory, c.guardsOut, c.expirationOf p⟩).steps.length =
      (d.steps.length + 1) + 1 := by simp [Draft.snoc]
  rw [objectSide, request_bind, request_bind,
    show (d.snoc ⟨.entryPoint p.entry, c.guardsOut, none⟩).steps.length = d.steps.length + 1 from
      List.length_append, alphas_eq _ _ hlen]
  simp [Draft.snoc, Draft.sided, Setting.side, Pattern.sideEnd]

theorem pattern_eq (h : d.scope.resolve p.joinTests = .ok tests) :
    pattern c p d = .ok (d.sided c p).steps.length (d.joined c p tests) := by
  rw [pattern, Session.get_bind, h]
  refine (Session.bind_ok (a := tests) (t := d) rfl).trans ?_
  rw [Session.bind_ok objectSide_eq, modify_bind, Session.get_bind]
  simp only [Draft.record, Draft.sided]
  cases ht : d.tuple? <;> simp only [Draft.joined, ht] <;> rfl

theorem pattern_error (h : d.scope.resolve p.joinTests = .error f) : pattern c p d = .error f d := by
  rw [pattern, Session.get_bind, h]
  rfl

theorem ends_pattern {Q : Nat → Draft → Prop} (hG : G d)
    (hQ : ∀ tests, d.scope.resolve p.joinTests = .ok tests →
      Q (d.sided c p).steps.length (d.joined c p tests)) : Ends G Q (pattern c p d) := by
  cases h : d.scope.resolve p.joinTests with
  | ok tests =>
    rw [pattern_eq h]
    exact hQ tests h
  | error f =>
    rw [pattern_error h]
    exact hG

theorem tuple_eq (h : (d.started c).tuple? = some i) : tuple c d = .ok i (d.started c) := by
  rw [tuple, Session.get_bind]
  cases ht : d.tuple? with
  | some j =>
    rw [Draft.started_of_some ht] at h ⊢
    rw [ht] at h
    cases h
    rfl
  | none =>
    rw [Draft.started_of_none ht] at h ⊢
    cases h
    exact pattern_eq rfl

theorem ends_single {Q : Nat × List JoinTest × Option Expiration → Draft → Prop} (hG : G d)
    (hQ : ∀ tests, d.scope.resolve p.joinTests = .ok tests →
      Q (p.sideEnd d.steps.length, tests, c.expirationOf p) ((d.sided c p).record p)) :
    Ends G Q (single c p d) := by
  rw [single, Session.get_bind]
  refine ends_check hG fun tests htests => ?_
  rw [Session.bind_ok objectSide_eq]
  exact hQ tests htests

/-! ## Elements -/

theorem ends_subnetwork {left : Nat} {members : Draw Unit}
    {Q : Nat × List JoinTest × Option Expiration → Draft → Prop}
    (h : Ends G (fun _ d' => G d' ∧ ∀ last, d'.tuple? = some last →
      Q (d'.steps.length, [], none) (d'.cut c left last d.scope.length)) (members d)) :
    Ends G Q (subnetwork c left members d) := by
  rw [subnetwork, Session.get_bind]
  refine h.bind fun _ d' hd' => ?_
  rw [Session.get_bind]
  cases ht : d'.tuple? with
  | none => exact hd'.1
  | some last => exact hd'.2 last ht

/-- A negation or existence claim, of a single pattern or of a subnetwork. -/
theorem ends_quantified {q : Session.Quantifier} {members : List Element} {drawMembers : Draw Unit}
    {Q : Unit → Draft → Prop} (hG : G d) (hG' : G (d.started c))
    (hsingle : ∀ left p tests, (d.started c).tuple? = some left → Element.single? members = some p →
      (d.started c).scope.resolve p.joinTests = .ok tests →
        Q () ((((d.started c).sided c p).record p).closed c q left (d.started c).first
          (p.sideEnd (d.started c).steps.length, tests, c.expirationOf p)))
    (hsubnetwork : ∀ left, (d.started c).tuple? = some left → Element.single? members = none →
      Ends G (fun _ d' => G d' ∧ ∀ last, d'.tuple? = some last →
        Q () ((d'.cut c left last (d.started c).scope.length).closed c q left (d.started c).first
          (d'.steps.length, [], none))) (drawMembers (d.started c))) :
    Ends G Q (quantified c q members drawMembers d) := by
  unfold quantified
  by_cases hempty : members.isEmpty
  · simp only [hempty, if_true]
    exact hG
  simp only [hempty, Bool.false_eq_true, if_false]
  obtain ⟨left, hleft⟩ := d.exists_tuple_started c
  rw [Session.bind_ok (tuple_eq hleft), Session.get_bind]
  cases hs : Element.single? members with
  | some p =>
    refine (ends_single (G := G) (Q := fun right d' =>
      Q () (d'.closed c q left (d.started c).first right)) hG' ?_).bind fun _ _ hQ => hQ
    exact fun tests htests => hsingle left p tests hleft hs htests
  | none =>
    refine (ends_subnetwork (G := G) (Q := fun right d' =>
      Q () (d'.closed c q left (d.started c).first right)) ?_).bind fun _ _ hQ => hQ
    exact hsubnetwork left hleft hs

theorem ends_call {q : QueryCall} {Q : Unit → Draft → Prop} (hG : G (d.started c))
    (hQ : ∀ left arguments, (d.started c).tuple? = some left →
      (d.started c).scope.resolveArguments q.arguments = .ok arguments →
        Q () ((((d.started c).snoc ⟨.queryElement left q.query arguments, c.guardsOut, none⟩).record
          q.result).extend (d.started c).steps.length q.result)) : Ends G Q (call c q d) := by
  obtain ⟨left, hleft⟩ := d.exists_tuple_started c
  rw [call, Session.bind_ok (tuple_eq hleft), Session.get_bind]
  exact ends_check hG fun arguments harguments => hQ left arguments hleft harguments

/-- Patterns one after the other are elements one after the other. -/
theorem forM_pattern_eq (ps : List Pattern) :
    (ps.forM fun p => do let _ ← pattern c p) = elements c (ps.map .pattern) := by
  induction ps with
  | nil =>
    rw [List.map_nil, elements]
    rfl
  | cons p ps ih =>
    rw [List.map_cons, elements, element, ← ih]
    rfl

/-- A universal statement is drawn as the negation that it is. -/
theorem universal_eq (base : Pattern) (rest : List Pattern) : universal c base rest =
    element { c with guardsOut := (Universal.of base rest).guardsOnly }
      (.group .not (Universal.of base rest).outer) := by
  rw [universal, element]
  congr 1
  rw [Universal.outer, elements, elements, elements, element, element, Universal.inner]
  rw [← forM_pattern_eq]
  simp only [bind_assoc, pure_bind, bind_pure_unit]

/-! ## Branches -/

/-- What is known of the distances between the events of a branch, where facts may
    be events. -/
def Knows (config : Config) (b : Branch) (distances? : Option Distances) : Prop :=
  if config.isStream then ∃ M, Distances.ofPatterns b.body.patterns = .ok M ∧ distances? = some M
  else distances? = none

theorem ends_branch {config : Config} {query : Bool} {b : Branch} {Q : Nat → Draft → Prop}
    (hG : G d.nextBranch)
    (h : ∀ distances? : Option Distances, Knows config b distances? →
      Ends G Q ((do
        elements ⟨config.objectTypeMemory, distances?, false⟩ b.body.members
        let source ← tuple ⟨config.objectTypeMemory, distances?, false⟩
        request ⟨config.objectTypeMemory, distances?, false⟩ (.terminal source 0 b.index query)
          none : Draw Nat) d.nextBranch)) : Ends G Q (branch config query b d) := by
  rw [branch, modify_bind]
  by_cases hstream : config.isStream
  · simp only [Knows, hstream, if_true] at h ⊢
    cases hd : Distances.ofPatterns b.body.patterns with
    | error f => exact hG
    | ok M => exact h (some M) ⟨M, hd, rfl⟩
  · simp only [Knows, hstream] at h ⊢
    exact h none rfl

/-- After the elements of a branch, its terminal is drawn below the tuple. -/
theorem ends_terminal {members : List Element} {index : Nat} {query : Bool} {Q : Nat → Draft → Prop}
    (h : Ends G (fun _ d' => ∀ last, (d'.started c).tuple? = some last →
      Q (d'.started c).steps.length
        ((d'.started c).snoc ⟨.terminal last 0 index query, c.guardsOut, none⟩))
      (elements c members d)) :
    Ends G Q ((do
      elements c members
      let source ← tuple c
      request c (.terminal source 0 index query) none : Draw Nat) d) := by
  refine h.bind fun _ d' hd' => ?_
  obtain ⟨last, hlast⟩ := d'.exists_tuple_started c
  rw [Session.bind_ok (tuple_eq hlast)]
  exact hd' last hlast

/-- What each step keeps is kept by all of them. -/
theorem ends_mapM {α β : Type} {f : α → Draw β} {l : List α} {H : Draft → Prop} (hd : H d)
    (h : ∀ a ∈ l, ∀ d', H d' → Ends G (fun _ => H) (f a d')) :
    Ends G (fun _ => H) (l.mapM f d) := by
  induction l generalizing d with
  | nil => exact hd
  | cons a l ih =>
    rw [List.mapM_cons]
    refine (h a List.mem_cons_self d hd).bind fun b d₁ hd₁ => ?_
    exact (ih hd₁ fun a ha => h a (List.mem_cons_of_mem _ ha)).bind fun bs d₂ hd₂ => hd₂

end Draw

/-- What holds of the requests however drawing ends. -/
theorem Rule.requests_of_ends {P : List Request → Prop} {r : Rule} {config : Config}
    (h : Draw.Ends (fun d => P d.steps) (fun _ d => P d.steps) (Draw.rule config r .empty)) :
    P (r.requests config) := by
  unfold requests
  cases hd : Draw.rule config r .empty with
  | ok _ d =>
    rw [hd] at h
    exact h
  | error _ d =>
    rw [hd] at h
    exact h

end RuleNet
