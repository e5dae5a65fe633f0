/-
  RuleNet — what conditions mean, and that splitting a body keeps its meaning.

  A condition takes bindings to the bindings that it extends them to.  What
  patterns, universal statements and calls do is left open.  The members of a
  conjunction act one after the other, any one of a disjunction acts; negations
  and existence claims are tests, which pass bindings on as they are.

  Main result: splitting a body fails just if an empty disjunction stands in it,
  and the body leads where one of its branches leads (`branches_correct`).
-/
import RuleNet.Proofs.Drawing

universe u

namespace RuleNet

/-! ## Meaning -/

/-- What the conditions that are no groups do with bindings. -/
structure Interpretation (α : Type u) where
  pattern : Pattern → α → α → Prop
  every : Pattern → List Pattern → α → α → Prop
  call : QueryCall → α → α → Prop

instance {α : Type u} : Inhabited (Interpretation α) :=
  ⟨fun _ _ _ => False, fun _ _ _ _ => False, fun _ _ _ => False⟩

namespace Element

variable {α : Type u} {m : Interpretation α} {a b : α}

mutual

/-- The bindings that an element leads to from others. -/
def Leads (m : Interpretation α) : Element → α → α → Prop
  | pattern p => m.pattern p
  | group .and members => LeadAll m members
  | group .or members => LeadSome m members
  | group .not members => fun a b => a = b ∧ ¬ ∃ c, LeadAll m members a c
  | group .exists members => fun a b => a = b ∧ ∃ c, LeadAll m members a c
  | every base rest => m.every base rest
  | call q => m.call q

/-- Elements one after the other. -/
def LeadAll (m : Interpretation α) : List Element → α → α → Prop
  | [] => Eq
  | e :: es => Relation.Comp (e.Leads m) (LeadAll m es)

/-- Any one of some elements. -/
def LeadSome (m : Interpretation α) : List Element → α → α → Prop
  | [] => fun _ _ => False
  | e :: es => fun a b => e.Leads m a b ∨ LeadSome m es a b

end

theorem leadAll_singleton {e : Element} : LeadAll m [e] a b ↔ e.Leads m a b := by
  simp [LeadAll, Relation.Comp]

theorem leadAll_append {es fs : List Element} :
    LeadAll m (es ++ fs) a b ↔ Relation.Comp (LeadAll m es) (LeadAll m fs) a b := by
  induction es generalizing a with
  | nil => simp [LeadAll, Relation.Comp]
  | cons e es ih =>
    simp only [List.cons_append, LeadAll, Relation.Comp, ih]
    constructor
    · rintro ⟨c, hc, d, hd, hb⟩
      exact ⟨d, ⟨c, hc, hd⟩, hb⟩
    · rintro ⟨d, ⟨c, hc, hd⟩, hb⟩
      exact ⟨c, hc, d, hd, hb⟩

/-- A series of negations is passed if none of the negated conjunctions leads
    anywhere. -/
theorem leadAll_map_not {cs : List Conjunction} :
    LeadAll m (cs.map (group .not)) a b ↔ a = b ∧ ∀ c ∈ cs, ¬ ∃ d, LeadAll m c a d := by
  induction cs with
  | nil => simp [LeadAll]
  | cons c cs ih =>
    simp only [List.map_cons, LeadAll, Leads, Relation.Comp, List.forall_mem_cons]
    constructor
    · rintro ⟨x, ⟨rfl, hc⟩, hrest⟩
      obtain ⟨hab, hnone⟩ := ih.1 hrest
      exact ⟨hab, hc, hnone⟩
    · rintro ⟨hab, hc, hnone⟩
      exact ⟨a, ⟨rfl, hc⟩, ih.2 ⟨hab, hnone⟩⟩

/-! ## Parts and ways -/

/-- An element stands in another one, or is that one. -/
inductive Occurs (e : Element) : Element → Prop where
  | self : Occurs e e
  | member {c : Connective} {members : List Element} {x : Element} (mem : x ∈ members)
      (inside : Occurs e x) : Occurs e (group c members)

theorem occurs_group {e : Element} {c : Connective} {members : List Element} :
    Occurs e (group c members) ↔ e = group c members ∨ ∃ x ∈ members, Occurs e x := by
  constructor
  · rintro (_ | ⟨mem, inside⟩)
    · exact .inl rfl
    · exact .inr ⟨_, mem, inside⟩
  · rintro (rfl | ⟨x, mem, inside⟩)
    · exact .self
    · exact .member mem inside

mutual

theorem hasOr_iff : (e : Element) → (e.hasOr ↔ ∃ members, Occurs (group .or members) e)
  | pattern p => by
    refine iff_of_false (by simp [hasOr]) ?_
    rintro ⟨members, ⟨⟩⟩
  | group c members => by
    rw [hasOr, Bool.or_eq_true, beq_iff_eq, hasOrList_iff members]
    simp only [occurs_group, group.injEq, exists_or]
    refine or_congr ?_ Iff.rfl
    exact ⟨fun hc => ⟨members, hc.symm, rfl⟩, fun ⟨_, hc, _⟩ => hc.symm⟩
  | every base rest => by
    refine iff_of_false (by simp [hasOr]) ?_
    rintro ⟨members, ⟨⟩⟩
  | call q => by
    refine iff_of_false (by simp [hasOr]) ?_
    rintro ⟨members, ⟨⟩⟩

theorem hasOrList_iff : (es : List Element) →
    (hasOrList es ↔ ∃ members, ∃ x ∈ es, Occurs (group .or members) x)
  | [] => by simp [hasOrList]
  | e :: es => by
    rw [hasOrList, Bool.or_eq_true, hasOr_iff e, hasOrList_iff es]
    simp only [List.exists_mem_cons_iff, exists_or]

end

theorem hasOrList_append {es fs : List Element} :
    hasOrList (es ++ fs) = (hasOrList es || hasOrList fs) := by
  induction es with
  | nil => rfl
  | cons e es ih => rw [List.cons_append, hasOrList, hasOrList, ih, Bool.or_assoc]

mutual

/-- How many branches an element has. -/
def ways : Element → Nat
  | group .and members | group .exists members => waysAll members
  | group .or members => waysSome members
  | group .not _ | pattern _ | every .. | call _ => 1

/-- The product of the numbers of branches. -/
def waysAll : List Element → Nat
  | [] => 1
  | e :: es => e.ways * waysAll es

/-- The sum of the numbers of branches. -/
def waysSome : List Element → Nat
  | [] => 0
  | e :: es => e.ways + waysSome es

end

mutual

theorem ways_of_not_hasOr : (e : Element) → e.hasOr = false → e.ways = 1
  | pattern _, _ | every .., _ | call _, _ | group .not _, _ => rfl
  | group .and members, h => by
    rw [hasOr, Bool.or_eq_false_iff] at h
    exact waysAll_of_not_hasOr members h.2
  | group .exists members, h => by
    rw [hasOr, Bool.or_eq_false_iff] at h
    exact waysAll_of_not_hasOr members h.2
  | group .or members, h => by simp [hasOr] at h

theorem waysAll_of_not_hasOr : (es : List Element) → hasOrList es = false → waysAll es = 1
  | [], _ => rfl
  | e :: es, h => by
    rw [hasOrList, Bool.or_eq_false_iff] at h
    rw [waysAll, ways_of_not_hasOr e h.1, waysAll_of_not_hasOr es h.2]

end

/-! ## Splitting -/

/-- The conjunctions `cs` are free of disjunctions and lead, between them, where
    `R` leads. -/
structure Splits (m : Interpretation α) (R : α → α → Prop) (ways : Nat) (cs : List Conjunction) :
    Prop where
  leads : ∀ a b, R a b ↔ ∃ c ∈ cs, LeadAll m c a b
  orFree : ∀ c ∈ cs, hasOrList c = false
  length : cs.length = ways

namespace Splits

variable {R S : α → α → Prop} {k l : Nat} {cs ds : List Conjunction}

theorem single {e : Element} (h : e.hasOr = false) : Splits m (e.Leads m) 1 [[e]] where
  leads a b := by simp [leadAll_singleton]
  orFree := by simpa [hasOrList] using h
  length := rfl

theorem nothing : Splits m Eq 1 [[]] where
  leads a b := by simp [LeadAll]
  orFree := by simp [hasOrList]
  length := rfl

/-- A choice for each of two elements in turn. -/
theorem comp (h : Splits m R k cs) (h' : Splits m S l ds) :
    Splits m (Relation.Comp R S) (k * l) (cs.flatMap fun c => ds.map (c ++ ·)) where
  leads a b := by
    constructor
    · rintro ⟨x, hR, hS⟩
      obtain ⟨c, hc, hR⟩ := (h.leads a x).1 hR
      obtain ⟨d, hd, hS⟩ := (h'.leads x b).1 hS
      exact ⟨c ++ d, List.mem_flatMap.2 ⟨c, hc, List.mem_map.2 ⟨d, hd, rfl⟩⟩,
        leadAll_append.2 ⟨x, hR, hS⟩⟩
    · rintro ⟨e, he, hab⟩
      obtain ⟨c, hc, he⟩ := List.mem_flatMap.1 he
      obtain ⟨d, hd, rfl⟩ := List.mem_map.1 he
      obtain ⟨x, hR, hS⟩ := leadAll_append.1 hab
      exact ⟨x, (h.leads a x).2 ⟨c, hc, hR⟩, (h'.leads x b).2 ⟨d, hd, hS⟩⟩
  orFree e he := by
    obtain ⟨c, hc, he⟩ := List.mem_flatMap.1 he
    obtain ⟨d, hd, rfl⟩ := List.mem_map.1 he
    rw [hasOrList_append, h.orFree c hc, h'.orFree d hd]
    rfl
  length := by simp [List.length_flatMap, h.length, h'.length]

/-- The choices of two elements, of which one is to act. -/
theorem append (h : Splits m R k cs) (h' : Splits m S l ds) :
    Splits m (fun a b => R a b ∨ S a b) (k + l) (cs ++ ds) where
  leads a b := by simp only [h.leads, h'.leads, List.mem_append, or_and_right, exists_or]
  orFree c hc := (List.mem_append.1 hc).elim (h.orFree c) (h'.orFree c)
  length := by rw [List.length_append, h.length, h'.length]

/-- Nothing matches if each choice matches nothing. -/
theorem not (h : Splits m R k cs) :
    Splits m (fun a b => a = b ∧ ¬ ∃ c, R a c) 1 [cs.map (group .not)] where
  leads a b := by
    -- No choice leads on just if each one's negation is passed, one after the other.
    simp only [List.mem_singleton, exists_eq_left, leadAll_map_not, h.leads]
    refine and_congr_right fun _ => ⟨fun hnone c hc ⟨d, hd⟩ => hnone ⟨d, c, hc, hd⟩, ?_⟩
    rintro hall ⟨d, c, hc, hd⟩
    exact hall c hc ⟨d, hd⟩
  orFree := by
    have hfree := h.orFree
    rw [List.forall_mem_singleton]
    clear h
    induction cs with
    | nil => rfl
    | cons c cs ih =>
      rw [List.forall_mem_cons] at hfree
      rw [List.map_cons, hasOrList, ih hfree.2, hasOr, hfree.1]
      rfl
  length := rfl

/-- Something matches if some choice matches something. -/
theorem test (h : Splits m R k cs) :
    Splits m (fun a b => a = b ∧ ∃ c, R a c) k (cs.map fun c => [group .exists c]) where
  leads a b := by
    simp only [List.mem_map, exists_exists_and_eq_and, leadAll_singleton, Leads, h.leads]
    constructor
    · rintro ⟨rfl, d, c, hc, hd⟩
      exact ⟨c, hc, rfl, d, hd⟩
    · rintro ⟨c, hc, rfl, d, hd⟩
      exact ⟨rfl, d, c, hc, hd⟩
  orFree e he := by
    obtain ⟨c, hc, rfl⟩ := List.mem_map.1 he
    simp [hasOrList, hasOr, h.orFree c hc]
  length := by rw [List.length_map, h.length]

end Splits

mutual

theorem splits_branches (m : Interpretation α) : (e : Element) → {cs : List Conjunction} →
    e.branches = .ok cs → Splits m (e.Leads m) e.ways cs
  | pattern p, cs, h => by
    cases h
    exact .single rfl
  | group .and members, cs, h => by
    rw [branches] at h
    exact splits_choices m members h
  | group .or members, cs, h => by
    rw [branches] at h
    split at h
    · cases h
    · exact splits_alternatives m members h
  | group .not members, cs, h => by
    rw [branches] at h
    split at h
    · obtain ⟨below, hbelow, h⟩ := Except.bind_inv h
      cases h
      exact (splits_choices m members hbelow).not
    · rename_i hor
      cases h
      exact .single (Bool.eq_false_iff.2 hor)
  | group .exists members, cs, h => by
    rw [branches] at h
    split at h
    · obtain ⟨below, hbelow, h⟩ := Except.bind_inv h
      cases h
      exact (splits_choices m members hbelow).test
    · -- Left whole, the claim is one branch, and it has one way.
      rename_i hor
      cases h
      have hfree : (group .exists members).hasOr = false := Bool.eq_false_iff.2 hor
      rw [ways_of_not_hasOr _ hfree]
      exact .single hfree
  | every base rest, cs, h => by
    cases h
    exact .single rfl
  | call q, cs, h => by
    cases h
    exact .single rfl

theorem splits_choices (m : Interpretation α) : (es : List Element) → {cs : List Conjunction} →
    choices es = .ok cs → Splits m (LeadAll m es) (waysAll es) cs
  | [], cs, h => by
    cases h
    exact .nothing
  | e :: es, cs, h => by
    rw [choices] at h
    obtain ⟨first, hfirst, h⟩ := Except.bind_inv h
    obtain ⟨others, hothers, h⟩ := Except.bind_inv h
    cases h
    exact (splits_branches m e hfirst).comp (splits_choices m es hothers)

theorem splits_alternatives (m : Interpretation α) : (es : List Element) →
    {cs : List Conjunction} → alternatives es = .ok cs → Splits m (LeadSome m es) (waysSome es) cs
  | [], cs, h => by
    cases h
    exact ⟨by simp [LeadSome], by simp, rfl⟩
  | e :: es, cs, h => by
    rw [alternatives] at h
    obtain ⟨first, hfirst, h⟩ := Except.bind_inv h
    obtain ⟨others, hothers, h⟩ := Except.bind_inv h
    cases h
    exact (splits_branches m e hfirst).append (splits_alternatives m es hothers)

end

end Element

/-! ## Failing to split -/

theorem Except.exists_error_bind {ε β γ : Type} {x : Except ε β} {k : β → Except ε γ} :
    (∃ f, (x >>= k) = .error f) ↔ (∃ f, x = .error f) ∨ ∃ b, x = .ok b ∧ ∃ f, k b = .error f := by
  cases x with
  | error f => simp [bind, Except.bind]
  | ok b => simp [bind, Except.bind]

/-- Of two steps, one fails. -/
theorem Except.exists_error_pair {ε β γ δ : Type} {x : Except ε β} {y : Except ε γ}
    {g : β → γ → δ} : (∃ f, (do let b ← x; let c ← y; return g b c) = .error f) ↔
      (∃ f, x = .error f) ∨ ∃ f, y = .error f := by
  cases x <;> cases y <;> simp [bind, Except.bind, pure, Except.pure]

namespace Element

mutual

theorem branches_error_iff : (e : Element) →
    ((∃ f, e.branches = .error f) ↔ Occurs (group .or []) e)
  | pattern p => by
    refine iff_of_false (by simp [branches, pure, Except.pure]) ?_
    rintro ⟨⟩
  | group .and members => by
    rw [branches, choices_error_iff members, occurs_group]
    simp
  | group .or [] => iff_of_true ⟨_, rfl⟩ .self
  | group .or (e :: es) => by
    rw [branches, if_neg (by simp), alternatives_error_iff (e :: es), occurs_group]
    simp
  | group .not members
  | group .exists members => by
    rw [branches, occurs_group]
    split
    · rw [Except.exists_error_bind, choices_error_iff members]
      simp [pure, Except.pure]
    · rename_i hor
      refine iff_of_false (by simp [pure, Except.pure]) ?_
      rintro (⟨⟨⟩⟩ | hin)
      exact hor ((hasOrList_iff members).2 ⟨[], hin⟩)
  | every base rest => by
    refine iff_of_false (by simp [branches, pure, Except.pure]) ?_
    rintro ⟨⟩
  | call q => by
    refine iff_of_false (by simp [branches, pure, Except.pure]) ?_
    rintro ⟨⟩

theorem choices_error_iff : (es : List Element) →
    ((∃ f, choices es = .error f) ↔ ∃ x ∈ es, Occurs (group .or []) x)
  | [] => by simp [choices, pure, Except.pure]
  | e :: es => by
    rw [choices, Except.exists_error_pair, branches_error_iff e, choices_error_iff es]
    simp

theorem alternatives_error_iff : (es : List Element) →
    ((∃ f, alternatives es = .error f) ↔ ∃ x ∈ es, Occurs (group .or []) x)
  | [] => by simp [alternatives, pure, Except.pure]
  | e :: es => by
    rw [alternatives, Except.exists_error_pair, branches_error_iff e, alternatives_error_iff es]
    simp

end

end Element

/-! ## Bodies -/

namespace Body

variable {b : Body} {bs : List Branch}

/-- A body that has disjunctions is split as its element is. -/
theorem branches_of_hasOr (hor : b.hasOr) (h : b.branches = .ok bs) :
    ∃ cs, b.toElement.branches = .ok cs ∧ bs.map Branch.body = cs.map (Body.mk .and) := by
  rw [branches, if_pos hor] at h
  obtain ⟨cs, hcs, h⟩ := Except.bind_inv h
  cases h
  refine ⟨cs, hcs, List.ext_getElem? fun k => ?_⟩
  simp only [List.getElem?_map, List.getElem?_mapIdx, Option.map_map]
  rfl

/-- A body without disjunctions is left whole. -/
theorem branches_of_not_hasOr (hor : b.hasOr = false) : b.branches = .ok [⟨0, b⟩] := by
  rw [branches, if_neg (by simp [hor])]
  rfl

/-- Splitting a body fails just if an empty disjunction stands in it. -/
theorem branches_error_iff :
    (∃ f, b.branches = .error f) ↔ Element.Occurs (.group .or []) b.toElement := by
  rw [← Element.branches_error_iff]
  cases hor : b.hasOr with
  | true =>
    rw [branches, if_pos hor, Except.exists_error_bind]
    simp [pure, Except.pure]
  | false =>
    refine iff_of_false (by simp [branches_of_not_hasOr hor]) fun herror => ?_
    have hin := (Element.hasOr_iff b.toElement).2 ⟨[], (Element.branches_error_iff _).1 herror⟩
    exact absurd hin (Bool.eq_false_iff.1 hor)

/-- The branches of a body, as conjunctions that split it. -/
theorem splits_branches {α : Type u} (m : Interpretation α) (h : b.branches = .ok bs) :
    (∀ x y, b.toElement.Leads m x y ↔ ∃ branch ∈ bs, branch.body.toElement.Leads m x y) ∧
      (∀ branch ∈ bs, branch.body.hasOr = false) ∧ bs.length = b.toElement.ways := by
  cases hor : b.hasOr with
  | true =>
    obtain ⟨cs, hcs, hbodies⟩ := branches_of_hasOr hor h
    obtain ⟨hleads, hfree, hlength⟩ := Element.splits_branches m b.toElement hcs
    have hmem : ∀ P : Body → Prop, (∃ branch ∈ bs, P branch.body) ↔ ∃ c ∈ cs, P ⟨.and, c⟩ := by
      intro P
      have hin := congrArg (fun bodies => ∃ body ∈ bodies, P body) hbodies
      simpa only [List.mem_map, exists_exists_and_eq_and] using iff_of_eq hin
    refine ⟨fun x y => ?_, fun branch hbranch => ?_, ?_⟩
    · rw [hleads]
      exact (hmem fun body => body.toElement.Leads m x y).symm
    · have hbody : branch.body ∈ cs.map (Body.mk .and) := hbodies ▸ List.mem_map_of_mem hbranch
      obtain ⟨c, hc, hbody⟩ := List.mem_map.1 hbody
      rw [← hbody]
      exact hfree c hc
    · rw [← hlength, ← List.length_map Branch.body, hbodies, List.length_map]
  | false =>
    cases (branches_of_not_hasOr hor).symm.trans h
    refine ⟨by simp, by simpa using hor, ?_⟩
    rw [Element.ways_of_not_hasOr _ hor]
    rfl

/-- **Splitting keeps the meaning.**  It fails just if an empty disjunction
    stands in the body.  Under any interpretation the body leads where one of
    its branches leads; the branches are free of disjunctions, stand at the
    places that they name, and are as many as the body has ways. -/
theorem branches_correct (b : Body) :
    ((∃ f, b.branches = .error f) ↔ Element.Occurs (.group .or []) b.toElement) ∧
      ∀ bs, b.branches = .ok bs →
        (∀ (α : Type u) (m : Interpretation α) x y,
          b.toElement.Leads m x y ↔ ∃ branch ∈ bs, branch.body.toElement.Leads m x y) ∧
        (∀ branch ∈ bs, ∀ members,
          ¬ Element.Occurs (.group .or members) branch.body.toElement) ∧
        (∀ k (branch : Branch), bs[k]? = some branch → branch.index = k) ∧
        bs.length = b.toElement.ways := by
  refine ⟨branches_error_iff, fun bs h => ?_⟩
  -- Freedom from disjunctions and number have nothing to do with the interpretation.
  obtain ⟨-, hfree, hlength⟩ := splits_branches (default : Interpretation Unit) h
  refine ⟨fun α m => (splits_branches m h).1, fun branch hbranch members hin => ?_,
    fun k branch => branches_index h, hlength⟩
  exact Bool.eq_false_iff.1 (hfree branch hbranch) ((Element.hasOr_iff _).2 ⟨members, hin⟩)

/-- Disjunctions in a conjunction, below a negation and below an existence claim. -/
def nested : Body where
  connective := .and
  members :=
    [.pattern { offset := 0, type := 1 },
      .group .not [.pattern { offset := 1, type := 2 }, either 2],
      .group .exists [either 4],
      either 6]
where
  either (offset : Nat) : Element :=
    .group .or [.pattern { offset, type := 3 }, .pattern { offset := offset + 1, type := 4 }]

theorem branches_correct_nested :
    (∃ bs, nested.branches = .ok bs ∧ bs.length = 4 ∧
      ∀ (α : Type) (m : Interpretation α) x y,
        nested.toElement.Leads m x y ↔ ∃ branch ∈ bs, branch.body.toElement.Leads m x y) ∧
    ¬ Element.Occurs (.group .or []) nested.toElement := by
  obtain ⟨hfails, hsplits⟩ := branches_correct nested
  obtain ⟨bs, h⟩ : ∃ bs, nested.branches = .ok bs := ⟨_, rfl⟩
  obtain ⟨hleads, -, -, hlength⟩ := hsplits bs h
  refine ⟨⟨bs, h, hlength, hleads⟩, fun hempty => ?_⟩
  obtain ⟨f, hf⟩ := hfails.2 hempty
  cases h.symm.trans hf

end Body

end RuleNet
