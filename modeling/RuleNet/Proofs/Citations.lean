/-
  RuleNet — references as they are written.

  The references of a branch are listed as they are written, depth first, each
  with the scope that it stands in and the elements down to the pattern or call
  that makes it (`Element.citations`).  To meet some of them is to go on if all
  are in scope, and to stop at the first one that is not (`Except.Meets`).  The
  place of a reference in a rule is told by the texts of the elements down to it
  (`Citation.place`).
-/
import RuleNet.Proofs.Acceptance
import RuleNet.Proofs.Distances

namespace RuleNet

/-! ## References as they are written -/

/-- A reference to an earlier pattern, as it stands in a branch. -/
structure Citation where
  /-- The offset of the pattern that is referred to. -/
  offset : Offset
  /-- What is read of it. -/
  reading : Reading
  /-- What is in scope. -/
  scope : Scope
  /-- The elements from the outermost one down to the pattern or call that
      refers. -/
  path : List Element

namespace Citation

/-- What is referred to is in scope. -/
def Bound (c : Citation) : Prop := c.scope.Declared c.offset

/-- The reference, seen from outside an element. -/
def below (e : Element) (c : Citation) : Citation := { c with path := e :: c.path }

/-- What fails if it is not in scope. -/
def fault (c : Citation) : Fault := .unboundDeclaration c.offset c.reading

/-- The place of a reference in a rule: the offset of the pattern or call that
    refers, unless the compiler added it, and the texts of the elements down to
    it. -/
def place (rule : String) (c : Citation) : Place where
  rule? := some rule
  offset? := (c.path.getLast?.bind Element.offset?).filter (· ≠ Offset.synthetic)
  frames := c.path.map Element.text

/-- The first one of some references that is out of scope. -/
structure FirstStray (cs : List Citation) (c : Citation) : Prop where
  split : ∃ before after, cs = before ++ c :: after ∧ ∀ b ∈ before, b.Bound
  stray : ¬ c.Bound

variable {c : Citation} {cs cs' : List Citation} {e : Element}

theorem FirstStray.append (h : FirstStray cs c) (cs' : List Citation) :
    FirstStray (cs ++ cs') c := by
  obtain ⟨before, after, rfl, hbefore⟩ := h.split
  exact ⟨⟨before, after ++ cs', by simp, hbefore⟩, h.stray⟩

theorem FirstStray.after (h : FirstStray cs' c) (hcs : ∀ c ∈ cs, c.Bound) :
    FirstStray (cs ++ cs') c := by
  obtain ⟨before, after, rfl, hbefore⟩ := h.split
  exact ⟨⟨cs ++ before, after, by simp, List.forall_mem_append.2 ⟨hcs, hbefore⟩⟩, h.stray⟩

theorem FirstStray.below (h : FirstStray cs c) (e : Element) :
    FirstStray (cs.map (·.below e)) (c.below e) := by
  obtain ⟨before, after, rfl, hbefore⟩ := h.split
  exact ⟨⟨before.map (·.below e), after.map (·.below e), by simp,
    List.forall_mem_map.2 fun b hb => hbefore b hb⟩, h.stray⟩

theorem not_firstStray_nil : ¬ FirstStray [] c := by
  rintro ⟨⟨before, after, h, -⟩, -⟩
  simp at h

end Citation

/-- The references that the tests of a pattern make. -/
def Pattern.citations (scope : Scope) (p : Pattern) : List Citation :=
  p.joinTests.map fun t => ⟨t.target, t.reading, scope, []⟩

/-- The references that the arguments of a call make. -/
def QueryCall.citations (scope : Scope) (q : QueryCall) : List Citation :=
  q.arguments.flatMap fun
    | .literal _ => []
    | .bound read => [⟨read.offset, .field read.field, scope, []⟩]

/-- The references that patterns make, each of which has those before it in
    scope. -/
def Pattern.citationsInTurn (scope : Scope) : List Pattern → List Citation
  | [] => []
  | p :: ps => (p.citations scope).map (·.below (.pattern p)) ++ citationsInTurn (scope ++ [p]) ps

namespace Element

mutual

/-- The references in an element, as they are written.  A universal statement
    is the negation of its base and of the negation of the rest. -/
def citations (scope : Scope) : Element → List Citation
  | pattern p => (p.citations scope).map (·.below (pattern p))
  | group .and members => (citationsAll scope members).map (·.below (group .and members))
  | group .or _ => []
  | group .not members => (citationsAll scope.started members).map (·.below (group .not members))
  | group .exists members =>
    (citationsAll scope.started members).map (·.below (group .exists members))
  | every base rest =>
    let u := Universal.of base rest
    let ofBase := (u.base.citations scope.started).map (·.below (pattern u.base))
    let ofRest := Pattern.citationsInTurn (scope.started ++ [u.base]) u.rest
    ((ofBase ++ ofRest.map (·.below (group .not u.inner))).map (·.below (group .not u.outer))).map
      (·.below (every base rest))
  | call q => (q.citations scope.started).map (·.below (call q))

/-- The references in some elements, one after the other. -/
def citationsAll (scope : Scope) : List Element → List Citation
  | [] => []
  | e :: es => e.citations scope ++ citationsAll (e.scopeAfter scope) es

end

end Element

/-- The references in a branch. -/
def Branch.citations (b : Branch) : List Citation :=
  (Element.citationsAll [] b.body.members).map (·.below b.body.toElement)

/-! ## Meeting them -/

/-- What comes of meeting some references while nothing is entered: all of them
    are in scope, or the first one that is not makes it fail. -/
def Except.Meets {α : Type} (cs : List Citation) : Except Fault α → Prop :=
  Ends (fun f => ∃ c, Citation.FirstStray cs c ∧ f = c.fault ∧ c.path = [])
    fun _ => ∀ c ∈ cs, c.Bound

/-- A list is gone through by meeting the references of one entry after the
    other. -/
theorem Except.meets_mapM {α β : Type} {f : α → Except Fault β} {cite : α → List Citation}
    (h : ∀ a, Meets (cite a) (f a)) (l : List α) : Meets (l.flatMap cite) (l.mapM f) := by
  induction l with
  | nil => exact fun c hc => by cases hc
  | cons a l ih =>
    rw [List.mapM_cons, List.flatMap_cons]
    have ha := h a
    cases hfa : f a with
    | error fault =>
      rw [hfa] at ha
      obtain ⟨c, hc, hrest⟩ := ha
      exact ⟨c, hc.append _, hrest⟩
    | ok b =>
      rw [hfa] at ha
      cases hl : l.mapM f with
      | error fault =>
        rw [hl] at ih
        obtain ⟨c, hc, hrest⟩ := ih
        exact ⟨c, hc.after ha, hrest⟩
      | ok bs =>
        rw [hl] at ih
        exact List.forall_mem_append.2 ⟨ha, ih⟩

namespace Scope

variable {α : Type} (scope : Scope)

theorem meets_position (offset : Offset) (reading : Reading) {k : Nat → α} :
    Except.Meets [⟨offset, reading, scope, []⟩] (do
      let position ← scope.position offset reading
      return k position) := by
  have hbinds : scope.binds offset ↔ scope.Declared offset := binds_iff_declared
  rw [binds] at hbinds
  unfold position
  cases hfind : scope.find offset with
  | some i =>
    rw [hfind] at hbinds
    intro c hc
    rw [List.mem_singleton.1 hc]
    exact hbinds.1 rfl
  | none =>
    rw [hfind] at hbinds
    refine ⟨_, ⟨⟨[], [], rfl, by simp⟩, fun hbound => ?_⟩, rfl, rfl⟩
    exact absurd (hbinds.2 hbound) (by simp)

/-- Resolving the tests of a pattern meets its references. -/
theorem meets_resolve (p : Pattern) :
    Except.Meets (p.citations scope) (scope.resolve p.joinTests) := by
  rw [Pattern.citations, List.map_eq_flatMap]
  exact Except.meets_mapM (fun t : JoinTest => scope.meets_position t.target t.reading) _

/-- Resolving the arguments of a call meets its references. -/
theorem meets_resolveArguments (q : QueryCall) :
    Except.Meets (q.citations scope) (scope.resolveArguments q.arguments) := by
  refine Except.meets_mapM (fun a => ?_) _
  cases a with
  | literal v => exact fun c hc => by cases hc
  | bound read => exact scope.meets_position read.offset (.field read.field)

end Scope

/-! ## Places -/

/-- What refers has an offset of its own. -/
def Citation.Held (c : Citation) : Prop :=
  ∃ before holder offset, c.path = before ++ [holder] ∧ holder.offset? = some offset

namespace Citation

variable {c : Citation}

theorem Held.below (h : c.Held) (e : Element) : (c.below e).Held := by
  obtain ⟨before, holder, offset, hpath, hoffset⟩ := h
  exact ⟨e :: before, holder, offset, by rw [Citation.below, hpath]; rfl, hoffset⟩

theorem held_below {e : Element} {offset : Offset} (he : e.offset? = some offset)
    (hpath : c.path = []) : (c.below e).Held :=
  ⟨[], e, offset, by rw [below, hpath]; rfl, he⟩

/-- From the inside, the first offset on the path is that of what refers. -/
theorem Held.innermostOffset? (h : c.Held) :
    Stack.innermostOffset? c.path.reverse = c.path.getLast?.bind Element.offset? := by
  obtain ⟨before, holder, offset, hpath, hoffset⟩ := h
  rw [hpath, List.reverse_append, Stack.innermostOffset?]
  simp [hoffset]

/-- Where a session has stopped at a reference, it tells its place. -/
theorem Held.place_eq {s : Session} {r : Rule} (h : c.Held)
    (helements : s.elements = c.path.reverse) (hrule : s.rule? = some r) :
    s.place = c.place r.name := by
  rw [Session.place, hrule, helements, h.innermostOffset?, List.reverse_reverse]
  rfl

end Citation

theorem Pattern.held_citations {p : Pattern} {scope : Scope} :
    ∀ c ∈ (p.citations scope).map (·.below (.pattern p)), c.Held :=
  List.forall_mem_map.2 fun _ hc => by
    obtain ⟨_, -, rfl⟩ := List.mem_map.1 hc
    exact Citation.held_below (e := .pattern p) rfl rfl

theorem QueryCall.held_citations {q : QueryCall} {scope : Scope} :
    ∀ c ∈ (q.citations scope).map (·.below (.call q)), c.Held :=
  List.forall_mem_map.2 fun c hc => by
    obtain ⟨a, -, hc⟩ := List.mem_flatMap.1 hc
    cases a with
    | literal v => cases hc
    | bound read =>
      rw [List.mem_singleton.1 hc]
      exact Citation.held_below (e := .call q) rfl rfl

theorem Citation.held_map_below {cs : List Citation} (h : ∀ c ∈ cs, c.Held) (e : Element) :
    ∀ c ∈ cs.map (·.below e), c.Held :=
  List.forall_mem_map.2 fun c hc => (h c hc).below e

theorem Pattern.held_citationsInTurn (ps : List Pattern) (scope : Scope) :
    ∀ c ∈ Pattern.citationsInTurn scope ps, c.Held := by
  induction ps generalizing scope with
  | nil => exact fun c hc => by cases hc
  | cons p ps ih => exact List.forall_mem_append.2 ⟨Pattern.held_citations, ih _⟩

namespace Element

mutual

theorem held_citations (scope : Scope) : (e : Element) → ∀ c ∈ e.citations scope, c.Held
  | pattern _ => Pattern.held_citations
  | group .and members => Citation.held_map_below (held_citationsAll scope members) _
  | group .or _ => fun c hc => by cases hc
  | group .not members => Citation.held_map_below (held_citationsAll scope.started members) _
  | group .exists members => Citation.held_map_below (held_citationsAll scope.started members) _
  | every base rest => by
    refine Citation.held_map_below (Citation.held_map_below ?_ _) _
    exact List.forall_mem_append.2 ⟨Pattern.held_citations,
      Citation.held_map_below (Pattern.held_citationsInTurn _ _) _⟩
  | call _ => QueryCall.held_citations

theorem held_citationsAll (scope : Scope) :
    (es : List Element) → ∀ c ∈ citationsAll scope es, c.Held
  | [] => fun c hc => by cases hc
  | e :: es => List.forall_mem_append.2 ⟨held_citations scope e, held_citationsAll _ es⟩

end

end Element

/-- Every reference of a branch is made by a pattern or call. -/
theorem Branch.held_citations (b : Branch) : ∀ c ∈ b.citations, c.Held :=
  Citation.held_map_below (Element.held_citationsAll _ _) _

end RuleNet
