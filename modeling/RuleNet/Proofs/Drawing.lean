/-
  RuleNet — which requests a blueprint is made of.

  Drawing adds requests to those that there are (`Draw.Asks`).  What is drawn
  of elements asks for no terminal, and if their tests are of some kind and no
  universal statement stands among them, all tests asked for are of that kind
  (`asks_element`).  A blueprint asks for one terminal a branch, after
  everything else of that branch (`Rule.blueprint_steps`).
-/
import RuleNet.Proofs.Blueprint

namespace RuleNet

theorem Except.bind_inv {ε α β : Type} {e : Except ε α} {k : α → Except ε β} {b : β}
    (h : (e >>= k) = .ok b) : ∃ a, e = .ok a ∧ k a = .ok b := by
  cases e with
  | error f => cases h
  | ok a => exact ⟨a, rfl, h⟩

/-- What comes of a list comes of its elements, one by one. -/
theorem Except.forall₂_of_mapM {ε α β : Type} {f : α → Except ε β} {l : List α} {l' : List β}
    (h : l.mapM f = .ok l') : List.Forall₂ (fun a b => f a = .ok b) l l' := by
  induction l generalizing l' with
  | nil =>
    cases h
    exact .nil
  | cons a l ih =>
    rw [List.mapM_cons] at h
    obtain ⟨b, ha, h⟩ := Except.bind_inv h
    obtain ⟨bs, hl, h⟩ := Except.bind_inv h
    cases h
    exact .cons ha (ih hl)

theorem exists_of_forall₂ {α β : Type} {R : α → β → Prop} {l : List α} {l' : List β}
    (h : List.Forall₂ R l l') : ∀ b ∈ l', ∃ a ∈ l, R a b := by
  induction h with
  | nil => simp
  | cons hab _ ih =>
    refine List.forall_mem_cons.2 ⟨⟨_, List.mem_cons_self, hab⟩, fun b hb => ?_⟩
    obtain ⟨a, ha, hab⟩ := ih b hb
    exact ⟨a, List.mem_cons_of_mem _ ha, hab⟩

/-! ## What elements are made of -/

/-- Whether the join tests of a pattern are of some kind. -/
def Pattern.Meets (T : JoinTest → Prop) (p : Pattern) : Prop := ∀ t ∈ p.joinTests, T t

namespace Element

variable {T : JoinTest → Prop} {U : Prop}

mutual

/-- Whether the join tests inside are of some kind; universal statements stand
    there only if `U` holds. -/
def Meets (T : JoinTest → Prop) (U : Prop) : Element → Prop
  | pattern p => p.Meets T
  | group _ members => MeetAll T U members
  | every .. => U
  | call _ => True

/-- Whether this holds of some elements. -/
def MeetAll (T : JoinTest → Prop) (U : Prop) : List Element → Prop
  | [] => True
  | e :: es => e.Meets T U ∧ MeetAll T U es

end

theorem single?_eq_some_iff {members : List Element} {p : Pattern} :
    single? members = some p ↔ members = [.pattern p] := by
  constructor
  · intro h
    unfold single? at h
    split at h
    · cases h
      rfl
    · cases h
  · rintro rfl
    rfl

theorem single?_map_pattern {ps : List Pattern} {p : Pattern} :
    single? (ps.map .pattern) = some p ↔ ps = [p] := by
  rw [single?_eq_some_iff]
  cases ps with
  | nil => simp
  | cons q qs => simp

theorem meetAll_iff {es : List Element} : MeetAll T U es ↔ ∀ e ∈ es, e.Meets T U := by
  induction es with
  | nil => simp [MeetAll]
  | cons e es ih => simp [MeetAll, ih]

end Element

/-! ## Asking -/

namespace Draw

variable {α β γ : Type} {Q : Request → Prop} {R : α → Prop} {S : β → Prop}

/-- Whether drawing makes only requests that satisfy `Q`, and gives a value that
    satisfies `R`. -/
def Asks (Q : Request → Prop) (R : α → Prop) (p : Draw α) : Prop :=
  ∀ (d d' : Draft) (a : α), p d = .ok a d' →
    R a ∧ ∃ new, d'.steps = d.steps ++ new ∧ ∀ q ∈ new, Q q

theorem asks_pure {a : α} (h : R a) : Asks Q R (pure a) := by
  rintro d _ _ ⟨⟩
  exact ⟨h, [], by simp, by simp⟩

theorem asks_get : Asks Q (fun _ => True) get := by
  rintro d _ _ ⟨⟩
  exact ⟨trivial, [], by simp, by simp⟩

theorem asks_throw {f : Fault} : Asks Q R (throw f) := by
  rintro d _ _ ⟨⟩

theorem asks_modify {f : Draft → Draft} (h : ∀ d, (f d).steps = d.steps) :
    Asks Q (fun _ => True) (modify f) := by
  rintro d _ _ ⟨⟩
  exact ⟨trivial, [], by rw [h, List.append_nil], by simp⟩

theorem asks_ofExcept {e : Except Fault α} (h : ∀ a, e = .ok a → R a) : Asks Q R (ofExcept e) := by
  intro d d' a he
  cases e with
  | error f => cases he
  | ok b =>
    cases he
    exact ⟨h _ rfl, [], by simp, by simp⟩

theorem asks_request {c : Setting} {kind : NodeKind} {e? : Option Expiration}
    (h : Q ⟨kind, c.guardsOut, e?⟩) : Asks Q (fun _ => True) (request c kind e?) := by
  rintro d _ _ ⟨⟩
  exact ⟨trivial, _, rfl, by simpa using h⟩

/-- This holds of drafts as of any other state. -/
theorem bind_inv {ε σ : Type} {p : EStateM ε σ α} {k : α → EStateM ε σ β} {d d₂ : σ} {b : β}
    (h : (p >>= k) d = .ok b d₂) : ∃ a d₁, p d = .ok a d₁ ∧ k a d₁ = .ok b d₂ := by
  change EStateM.bind p k d = _ at h
  rw [EStateM.bind] at h
  cases hd : p d with
  | error f d₁ =>
    rw [hd] at h
    cases h
  | ok a d₁ =>
    rw [hd] at h
    exact ⟨a, d₁, rfl, h⟩

theorem Asks.bind {p : Draw α} {k : α → Draw β} (hp : Asks Q R p) (hk : ∀ a, R a → Asks Q S (k a)) :
    Asks Q S (p >>= k) := by
  intro d d₂ b h
  obtain ⟨a, d₁, hd, h⟩ := bind_inv h
  obtain ⟨ha, new, hnew, hQ⟩ := hp _ _ _ hd
  obtain ⟨hb, new', hnew', hQ'⟩ := hk a ha _ _ _ h
  refine ⟨hb, new ++ new', by rw [hnew', hnew, List.append_assoc], fun q hq => ?_⟩
  exact (List.mem_append.1 hq).elim (hQ q) (hQ' q)

/-- One step after another, whatever the first one gives. -/
theorem Asks.seq {p : Draw α} {k : α → Draw β} (hp : Asks Q (fun _ => True) p)
    (hk : ∀ a, Asks Q S (k a)) : Asks Q S (p >>= k) :=
  hp.bind fun a _ => hk a

theorem asks_foldlM {f : Nat → γ → Draw Nat} {l : List γ}
    (h : ∀ a b, Asks Q (fun _ => True) (f a b)) (a : Nat) :
    Asks Q (fun _ => True) (l.foldlM f a) := by
  induction l generalizing a with
  | nil => exact asks_pure trivial
  | cons b l ih =>
    rw [List.foldlM_cons]
    exact (h a b).seq ih

theorem asks_forM {f : γ → Draw PUnit} {l : List γ} (h : ∀ b ∈ l, Asks Q (fun _ => True) (f b)) :
    Asks Q (fun _ => True) (l.forM f) := by
  induction l with
  | nil => exact asks_pure trivial
  | cons b l ih =>
    change Asks Q _ (f b >>= fun _ => l.forM f)
    exact (h b List.mem_cons_self).seq fun _ => ih fun b hb => h b (List.mem_cons_of_mem _ hb)

end Draw

/-- A request for a node within a branch, with tests and a way of weighing them
    that are allowed. -/
structure Request.Within (T : JoinTest → Prop) (G : Bool → Prop) (q : Request) : Prop where
  /-- It asks for no terminal. -/
  inner : ∀ s r b f, q.kind ≠ .terminal s r b f
  weighing : G q.guardsOut
  tests : ∀ j, q.kind = .join j → ∀ t ∈ j.tests, T t

/-! ## Drawing within a branch -/

namespace Draw

variable {T : JoinTest → Prop} {G : Bool → Prop} {U : Prop}
variable (hT : ∀ t o, T t → T (t.retarget o))
variable {c : Setting} (hc : G c.guardsOut)

include hT in
/-- Tests are of the same kind when they read positions. -/
theorem resolve_meets {scope : Scope} {ts us : List JoinTest} (h : scope.resolve ts = .ok us)
    (hts : ∀ t ∈ ts, T t) : ∀ u ∈ us, T u := by
  intro u hu
  obtain ⟨t, ht, hresolve⟩ := exists_of_forall₂ (Except.forall₂_of_mapM h) u hu
  rw [Scope.resolveTest] at hresolve
  obtain ⟨position, -, hresolve⟩ := Except.bind_inv hresolve
  cases hresolve
  exact hT t _ (hts t ht)

include hc

/-- A request that is no terminal and has no tests. -/
theorem asks_within {kind : NodeKind} {e? : Option Expiration}
    (hinner : ∀ s r b f, kind ≠ .terminal s r b f) (hjoin : ∀ j, kind ≠ .join j) :
    Asks (Request.Within T G) (fun _ => True) (request c kind e?) :=
  asks_request ⟨hinner, hc, fun j hj => absurd hj (hjoin j)⟩

theorem asks_join {kind : JoinKind} {left right : Nat} {tests : List JoinTest} {m : Bool}
    {e? : Option Expiration} (htests : ∀ t ∈ tests, T t) :
    Asks (Request.Within T G) (fun _ => True) (join c kind left right tests m e?) :=
  asks_request ⟨by simp, hc, fun j hj => by cases hj; exact htests⟩

theorem asks_objectSide (p : Pattern) :
    Asks (Request.Within T G) (fun _ => True) (objectSide c p) := by
  refine (asks_within hc (by simp) (by simp)).seq fun _ => ?_
  refine (asks_within hc (by simp) (by simp)).seq fun root => ?_
  exact asks_foldlM (fun _ _ => asks_within hc (by simp) (by simp)) root

include hT

theorem asks_pattern {p : Pattern} (hp : p.Meets T) :
    Asks (Request.Within T G) (fun _ => True) (pattern c p) := by
  refine asks_get.seq fun d => ?_
  refine (asks_ofExcept fun ts hts => resolve_meets hT hts hp).bind fun tests htests => ?_
  refine (asks_objectSide hc p).seq fun object => ?_
  refine (asks_modify (f := (·.record p)) fun _ => rfl).seq fun _ => asks_get.seq fun d' => ?_
  have hlast : ∀ tuple, Asks (Request.Within T G) (fun _ => True)
      (do modify (·.extend tuple p); return tuple) := fun tuple =>
    (asks_modify (f := (·.extend tuple p)) fun _ => rfl).seq fun _ => asks_pure trivial
  cases d'.tuple? with
  | none => exact (asks_within hc (by simp) (by simp)).seq hlast
  | some left => exact (asks_join hc htests).seq hlast

theorem asks_tuple : Asks (Request.Within T G) (fun _ => True) (tuple c) := by
  refine asks_get.seq fun d => ?_
  cases d.tuple? with
  | none =>
    refine asks_pattern hT hc fun t ht => ?_
    simp [Pattern.initialFact, Pattern.joinTests] at ht
  | some source => exact asks_pure (R := fun _ => True) trivial

/-- The right input of a negation or existence claim brings allowed tests. -/
theorem asks_single {p : Pattern} (hp : p.Meets T) :
    Asks (Request.Within T G) (fun right => ∀ t ∈ right.2.1, T t) (single c p) := by
  refine asks_get.seq fun d => ?_
  refine (asks_ofExcept fun ts hts => resolve_meets hT hts hp).bind fun tests htests => ?_
  refine (asks_objectSide hc p).seq fun source => ?_
  exact (asks_modify (f := (·.record p)) fun _ => rfl).seq fun _ => asks_pure htests

omit hT in
theorem asks_subnetwork {left : Nat} {members : Draw Unit}
    (hm : Asks (Request.Within T G) (fun _ => True) members) :
    Asks (Request.Within T G) (fun right => ∀ t ∈ right.2.1, T t) (subnetwork c left members) := by
  refine asks_get.seq fun d => hm.seq fun _ => asks_get.seq fun d' => ?_
  cases d'.tuple? with
  | none => exact asks_throw
  | some last =>
    refine (asks_within hc (by simp) (by simp)).seq fun source => ?_
    refine Asks.seq (asks_modify (f := fun d'' => { d'' with
      tuple? := some left, scope := d''.scope.take d.scope.length }) fun _ => rfl) fun _ => ?_
    exact asks_pure (by simp)

omit hT hc in
theorem single_meets {members : List Element} (h : Element.MeetAll T U members) (p : Pattern)
    (hp : Element.single? members = some p) : p.Meets T := by
  rw [Element.single?_eq_some_iff.1 hp] at h
  exact h.1

theorem asks_quantified {q : Session.Quantifier} {members : List Element} {drawMembers : Draw Unit}
    (hsingle : ∀ p, Element.single? members = some p → p.Meets T)
    (hm : Asks (Request.Within T G) (fun _ => True) drawMembers) :
    Asks (Request.Within T G) (fun _ => True) (quantified c q members drawMembers) := by
  unfold quantified
  by_cases hempty : members.isEmpty
  · simp only [hempty, if_true]
    rintro d _ _ ⟨⟩
  simp only [hempty]
  refine (asks_tuple hT hc).seq fun left => asks_get.seq fun d => ?_
  -- whatever the right input is, it is joined to the tuple at hand
  have hclose : ∀ right : Nat × List JoinTest × Option Expiration, (∀ t ∈ right.2.1, T t) →
      Asks (Request.Within T G) (fun _ => True) (do
        let node ← join c q.joinKind left right.1 right.2.1
          (!d.recent.latest?.any (·.isInitialFact)) right.2.2
        modify ({ · with tuple? := some node })) := fun right htests =>
    (asks_join hc htests).seq fun node => asks_modify fun _ => rfl
  cases hs : Element.single? members with
  | some p => exact (asks_single hT hc (hsingle p hs)).bind hclose
  | none => exact (asks_subnetwork hc hm).bind hclose

theorem asks_call (q : QueryCall) : Asks (Request.Within T G) (fun _ => True) (call c q) := by
  refine (asks_tuple hT hc).seq fun left => asks_get.seq fun d => ?_
  refine (asks_ofExcept (R := fun _ => True) fun _ _ => trivial).seq fun arguments => ?_
  refine (asks_within hc (by simp) (by simp)).seq fun node => ?_
  exact asks_modify fun _ => rfl

omit hT hc in
/-- A universal statement may ask for anything. -/
theorem asks_universal (hT : ∀ t, T t) (hG : ∀ g, G g) (base : Pattern) (rest : List Pattern) :
    Asks (Request.Within T G) (fun _ => True) (universal c base rest) := by
  have hp : ∀ p : Pattern, p.Meets T := fun p t _ => hT t
  have hpattern : ∀ (c : Setting) (p : Pattern),
      Asks (Request.Within T G) (fun _ => True) (pattern c p) := fun c p =>
    asks_pattern (fun t _ _ => hT _) (hG c.guardsOut) (hp p)
  rw [universal]
  refine asks_quantified (fun t _ _ => hT _) (hG _) (fun p _ => hp p) ?_
  refine (hpattern _ _).seq fun _ => ?_
  refine asks_quantified (fun t _ _ => hT _) (hG _) (fun p _ => hp p) ?_
  exact asks_forM fun p _ => (hpattern _ p).seq fun _ => asks_pure trivial

omit hT hc

mutual

theorem asks_element (hT : ∀ t o, T t → T (t.retarget o)) (hU : U → (∀ t, T t) ∧ ∀ g, G g)
    (hc : G c.guardsOut) :
    (e : Element) → e.Meets T U → Asks (Request.Within T G) (fun _ => True) (element c e)
  | .pattern p, he => by
    rw [element]
    exact (asks_pattern hT hc he).seq fun _ => asks_pure trivial
  | .group .and members, he => by
    rw [element]
    exact asks_elements hT hU hc members he
  | .group .or _, _ => by
    rw [element]
    exact asks_throw
  | .group .not members, he => by
    rw [element]
    exact asks_quantified hT hc (single_meets he) (asks_elements hT hU hc members he)
  | .group .exists members, he => by
    rw [element]
    exact asks_quantified hT hc (single_meets he) (asks_elements hT hU hc members he)
  | .every base rest, he => by
    rw [element]
    exact asks_universal (hU he).1 (hU he).2 base rest
  | .call q, _ => by
    rw [element]
    exact asks_call hT hc q

/-- **What is drawn of elements asks for allowed nodes within the branch.** -/
theorem asks_elements (hT : ∀ t o, T t → T (t.retarget o)) (hU : U → (∀ t, T t) ∧ ∀ g, G g)
    (hc : G c.guardsOut) :
    (es : List Element) → Element.MeetAll T U es →
      Asks (Request.Within T G) (fun _ => True) (elements c es)
  | [], _ => by
    rw [elements]
    exact asks_pure trivial
  | e :: es, he => by
    rw [elements]
    exact (asks_element hT hU hc e he.1).seq fun _ => asks_elements hT hU hc es he.2

end

end Draw

/-! ## Branches -/

namespace Element

variable {A : Element → Prop}

mutual

theorem branches_inherit (hA : ∀ c members, A (.group c members) ↔ ∀ e ∈ members, A e) :
    (e : Element) → A e → ∀ {cs : List Conjunction}, e.branches = .ok cs → ∀ c ∈ cs, ∀ m ∈ c, A m
  | .pattern p, he, cs, h => by
    cases h
    simpa using he
  | .group .and members, he, cs, h => by
    rw [branches] at h
    exact choices_inherit hA members ((hA _ _).1 he) h
  | .group .or members, he, cs, h => by
    rw [branches] at h
    split at h
    · cases h
    · exact alternatives_inherit hA members ((hA _ _).1 he) h
  | .group .not members, he, cs, h
  | .group .exists members, he, cs, h => by
    rw [branches] at h
    split at h
    · obtain ⟨below, hb, h⟩ := Except.bind_inv h
      cases h
      have hbelow := choices_inherit hA members ((hA _ _).1 he) hb
      simpa [hA] using hbelow
    · cases h
      simpa using he
  | .every base rest, he, cs, h => by
    cases h
    simpa using he
  | .call q, he, cs, h => by
    cases h
    simpa using he

theorem choices_inherit (hA : ∀ c members, A (.group c members) ↔ ∀ e ∈ members, A e) :
    (es : List Element) → (∀ e ∈ es, A e) → ∀ {cs : List Conjunction}, choices es = .ok cs →
      ∀ c ∈ cs, ∀ m ∈ c, A m
  | [], _, cs, h => by
    cases h
    simp
  | e :: es, he, cs, h => by
    rw [choices] at h
    obtain ⟨first, hfirst, h⟩ := Except.bind_inv h
    obtain ⟨others, hothers, h⟩ := Except.bind_inv h
    cases h
    obtain ⟨he, hes⟩ := List.forall_mem_cons.1 he
    intro c hc
    obtain ⟨c₁, hc₁, hc⟩ := List.mem_flatMap.1 hc
    obtain ⟨c₂, hc₂, rfl⟩ := List.mem_map.1 hc
    exact List.forall_mem_append.2
      ⟨branches_inherit hA e he hfirst c₁ hc₁, choices_inherit hA es hes hothers c₂ hc₂⟩

theorem alternatives_inherit (hA : ∀ c members, A (.group c members) ↔ ∀ e ∈ members, A e) :
    (es : List Element) → (∀ e ∈ es, A e) → ∀ {cs : List Conjunction}, alternatives es = .ok cs →
      ∀ c ∈ cs, ∀ m ∈ c, A m
  | [], _, cs, h => by
    cases h
    simp
  | e :: es, he, cs, h => by
    rw [alternatives] at h
    obtain ⟨first, hfirst, h⟩ := Except.bind_inv h
    obtain ⟨others, hothers, h⟩ := Except.bind_inv h
    cases h
    obtain ⟨he, hes⟩ := List.forall_mem_cons.1 he
    intro c hc
    rcases List.mem_append.1 hc with hc | hc
    · exact branches_inherit hA e he hfirst c hc
    · exact alternatives_inherit hA es hes hothers c hc

end

end Element

namespace Body

variable {b : Body} {bs : List Branch} {T : JoinTest → Prop} {U : Prop}

/-- What holds of groups just if it holds of their members, holds of what the
    branches are made of if it holds of the body. -/
theorem branches_inherit {A : Element → Prop}
    (hA : ∀ c members, A (.group c members) ↔ ∀ e ∈ members, A e) (h : b.branches = .ok bs)
    (hb : A b.toElement) : ∀ branch ∈ bs, ∀ e ∈ branch.body.members, A e := by
  rw [branches] at h
  split at h
  · obtain ⟨cs, hc, h⟩ := Except.bind_inv h
    cases h
    intro branch hbranch
    obtain ⟨i, hi, rfl⟩ := List.mem_mapIdx.1 hbranch
    exact Element.branches_inherit hA _ hb hc _ (List.getElem_mem hi)
  · cases h
    intro branch hbranch
    rw [List.mem_singleton.1 hbranch]
    exact (hA _ _).1 hb

/-- The branches are made of what the body is made of. -/
theorem branches_meet (h : b.branches = .ok bs) (hb : b.toElement.Meets T U) :
    ∀ branch ∈ bs, Element.MeetAll T U branch.body.members := by
  intro branch hbranch
  refine Element.meetAll_iff.2 ?_
  exact branches_inherit (fun c members => Element.meetAll_iff) h hb branch hbranch

/-- A branch knows its place. -/
theorem branches_index (h : b.branches = .ok bs) {k : Nat} {branch : Branch}
    (hk : bs[k]? = some branch) : branch.index = k := by
  rw [branches] at h
  split at h
  · obtain ⟨cs, hc, h⟩ := Except.bind_inv h
    cases h
    rw [List.getElem?_mapIdx] at hk
    obtain ⟨c, -, rfl⟩ := Option.map_eq_some_iff.1 hk
    rfl
  · cases h
    cases k with
    | zero =>
      cases hk
      rfl
    | succ k => simp at hk

end Body

/-! ## Whole rules -/

namespace Draw

variable {T : JoinTest → Prop} {G : Bool → Prop} {U : Prop} {config : Config} {query : Bool}
variable {d d' : Draft} {bs : List Branch} {ts : List Nat}

/-- What drawing some branches has asked for: each has a terminal, whose step is
    in `ts`, and everything else stands within a branch. -/
structure Branched (T : JoinTest → Prop) (G : Bool → Prop) (query : Bool) (bs : List Branch)
    (d : Draft) (ts : List Nat) (d' : Draft) : Prop where
  grows : d.steps <+: d'.steps
  length : ts.length = bs.length
  /-- Each branch ends in its terminal. -/
  terminal : ∀ {k i : Nat} {b : Branch}, bs[k]? = some b → ts[k]? = some i →
    ∃ s, d'.steps[i]? = some ⟨.terminal s 0 b.index query, false, none⟩
  /-- Everything else stands within a branch. -/
  within : ∀ {i : Nat} {q : Request}, d.steps.length ≤ i → d'.steps[i]? = some q →
    q.Within T G ∨ ∃ (k : Nat) (b : Branch) (s : Nat), bs[k]? = some b ∧ ts[k]? = some i ∧
      q = ⟨.terminal s 0 b.index query, false, none⟩

/-- Working out the distances of a branch draws nothing. -/
theorem branch_inv {b : Branch} {t : Nat} (h : branch config query b d = .ok t d') :
    ∃ distances?, (do
      elements ⟨config.objectTypeMemory, distances?, false⟩ b.body.members
      let source ← tuple ⟨config.objectTypeMemory, distances?, false⟩
      request ⟨config.objectTypeMemory, distances?, false⟩ (.terminal source 0 b.index query) none :
        Draw Nat) d.nextBranch = .ok t d' := by
  rw [branch] at h
  obtain ⟨_, d₁, h₁, h⟩ := bind_inv h
  cases h₁
  by_cases hstream : config.isStream
  · simp only [hstream, if_true] at h
    obtain ⟨distances?, d₂, h₂, h⟩ := bind_inv h
    cases hd : Distances.ofPatterns b.body.patterns with
    | error f =>
      rw [hd] at h₂
      cases h₂
    | ok distances =>
      rw [hd] at h₂
      cases h₂
      exact ⟨_, h⟩
  · simp only [hstream] at h
    exact ⟨none, h⟩

variable (hT : ∀ t o, T t → T (t.retarget o)) (hU : U → (∀ t, T t) ∧ ∀ g, G g) (hG : G false)
include hT hU hG

theorem branch_steps {b : Branch} {t : Nat} (hb : Element.MeetAll T U b.body.members)
    (h : branch config query b d = .ok t d') : ∃ new s,
      (∀ q ∈ new, q.Within T G) ∧ t = d.steps.length + new.length ∧
      d'.steps = d.steps ++ new ++ [⟨.terminal s 0 b.index query, false, none⟩] := by
  obtain ⟨distances?, h⟩ := branch_inv h
  obtain ⟨_, d₁, h₁, h⟩ := bind_inv h
  obtain ⟨s, d₂, h₂, h⟩ := bind_inv h
  obtain ⟨-, new, hnew, hwithin⟩ := asks_elements hT hU hG _ hb _ _ _ h₁
  obtain ⟨-, new', hnew', hwithin'⟩ := asks_tuple hT hG _ _ _ h₂
  cases h
  refine ⟨new ++ new', s, fun q hq => ?_, ?_, ?_⟩
  · exact (List.mem_append.1 hq).elim (hwithin q) (hwithin' q)
  · simp [hnew', hnew, Draft.nextBranch]
  · simp [hnew', hnew, Draft.nextBranch]

theorem branches_steps (hbs : ∀ b ∈ bs, Element.MeetAll T U b.body.members)
    (h : bs.mapM (branch config query) d = .ok ts d') : Branched T G query bs d ts d' := by
  induction bs generalizing d ts with
  | nil =>
    cases h
    refine ⟨List.prefix_rfl, rfl, by simp, fun hi hq => ?_⟩
    rw [List.getElem?_eq_none hi] at hq
    cases hq
  | cons b bs ih =>
    rw [List.mapM_cons] at h
    obtain ⟨t, d₁, hb, h⟩ := bind_inv h
    obtain ⟨ts, d₂, hrest, h⟩ := bind_inv h
    cases h
    obtain ⟨new, s, hwithin, rfl, hd₁⟩ := branch_steps hT hU hG (hbs b List.mem_cons_self) hb
    have hr := ih (fun b hb => hbs b (List.mem_cons_of_mem _ hb)) hrest
    have hlen : d₁.steps.length = d.steps.length + new.length + 1 := by simp [hd₁, Nat.add_assoc]
    have hlast : d₁.steps[d.steps.length + new.length]? =
        some ⟨.terminal s 0 b.index query, false, none⟩ := by
      rw [hd₁, ← List.length_append, List.getElem?_concat_length]
    have hkeeps : ∀ {i : Nat}, i < d₁.steps.length → d'.steps[i]? = d₁.steps[i]? := by
      intro i hi
      obtain ⟨rest, hrest⟩ := hr.grows
      rw [← hrest, List.getElem?_append_left hi]
    exact {
      grows := by
        refine List.IsPrefix.trans ?_ hr.grows
        rw [hd₁, List.append_assoc]
        exact List.prefix_append _ _
      length := by simp [hr.length]
      terminal := by
        intro k i b' hb' hi
        cases k with
        | zero =>
          cases hb'
          cases hi
          exact ⟨s, by rw [hkeeps (by omega), hlast]⟩
        | succ k => exact hr.terminal hb' hi
      within := by
        intro i q hi hq
        rcases Nat.lt_trichotomy i (d.steps.length + new.length) with hlt | rfl | hgt
        · rw [hkeeps (by omega), hd₁, List.append_assoc, List.getElem?_append_right hi,
            List.getElem?_append_left (by omega)] at hq
          exact .inl (hwithin q (List.mem_of_getElem? hq))
        · rw [hkeeps (by omega), hlast] at hq
          cases hq
          exact .inr ⟨0, b, s, rfl, rfl, rfl⟩
        · obtain hq | ⟨k, b', s', hb', hts, hq⟩ := hr.within (by omega) hq
          · exact .inl hq
          · exact .inr ⟨k + 1, b', s', hb', hts, hq⟩ }

end Draw

/-- A blueprint is drawn branch by branch. -/
theorem Rule.exists_drawn {config : Config} {r : Rule} {b : Blueprint}
    (h : r.blueprint config = .ok b) : ∃ bs d, r.body.branches = .ok bs ∧
      bs.mapM (Draw.branch config r.isQuery) .empty = .ok b.terminals d ∧ b.steps = d.steps := by
  rw [blueprint] at h
  cases hd : Draw.rule config r .empty with
  | error f d =>
    rw [hd] at h
    cases h
  | ok ts d =>
    rw [hd] at h
    cases h
    obtain ⟨bs, d₁, hbs, hd⟩ := Draw.bind_inv hd
    cases hbranches : r.body.branches with
    | error f =>
      rw [hbranches] at hbs
      cases hbs
    | ok bs' =>
      rw [hbranches] at hbs
      cases hbs
      exact ⟨bs, d, rfl, hd, rfl⟩

/-- **A blueprint asks for the terminals of the branches, and for what stands
    within them.** -/
theorem Rule.blueprint_steps {T : JoinTest → Prop} {G : Bool → Prop} {U : Prop} {config : Config}
    {r : Rule} {b : Blueprint} (hT : ∀ t o, T t → T (t.retarget o))
    (hU : U → (∀ t, T t) ∧ ∀ g, G g) (hG : G false) (hr : r.body.toElement.Meets T U)
    (h : r.blueprint config = .ok b) :
    (∀ {k i : Nat}, b.terminals[k]? = some i →
      ∃ s, b.steps[i]? = some ⟨.terminal s 0 k r.isQuery, false, none⟩) ∧
    ∀ {i : Nat} {q : Request}, b.steps[i]? = some q → q.Within T G ∨
      ∃ k s, b.terminals[k]? = some i ∧ q = ⟨.terminal s 0 k r.isQuery, false, none⟩ := by
  obtain ⟨bs, d, hbranches, hd, hsteps⟩ := exists_drawn h
  have hdrawn := Draw.branches_steps hT hU hG (Body.branches_meet hbranches hr) hd
  rw [hsteps]
  refine ⟨fun {k i} hi => ?_, fun {i q} hq => ?_⟩
  · have hk : k < bs.length := by
      rw [← hdrawn.length]
      exact (List.getElem?_eq_some_iff.1 hi).1
    have hb := List.getElem?_eq_getElem hk
    obtain ⟨s, hs⟩ := hdrawn.terminal hb hi
    rw [Body.branches_index hbranches hb] at hs
    exact ⟨s, hs⟩
  · obtain hq | ⟨k, b, s, hb, hi, rfl⟩ := hdrawn.within (Nat.zero_le _) hq
    · exact .inl hq
    · rw [Body.branches_index hbranches hb]
      exact .inr ⟨k, s, hi, rfl⟩

end RuleNet
