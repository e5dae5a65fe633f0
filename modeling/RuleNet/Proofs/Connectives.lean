/-
  RuleNet — the connective of a body.

  Compiling a definition looks at its name, at its kind and at the branches of
  its body, and at nothing else (`RuleBase.add_congr`).  If a disjunction stands
  in the body, the body and the conjunction of just that group have the same
  branches (`Body.branches_enclosed`), whatever the connective of the group; so
  the two definitions come to the same (`RuleBase.add_enclosed`).

  A body without a disjunction is its own branch, of which only the members are
  attached.  Its connective is lost then, and the two definitions differ
  (`RuleBase.not_add_enclosed_lone`).
-/
import RuleNet.Proofs.History
import RuleNet.Proofs.Sessions

namespace RuleNet

namespace Session

variable {s : Session} {r r' : Rule}

/-- The guise in which a rule at hand is `r`, but for its name. -/
def Guise.of (r : Rule) : Guise := ⟨#[], fun q => { r with name := q.name }, fun _ => rfl⟩

/-- A rule with the same name and of the same kind begins alike. -/
theorem begun_congr (hname : r'.name = r.name) (hkind : r'.kind = r.kind) (s : Session) :
    s.begun r' = (s.begun r).under (.of r') := by
  have hquery : r'.isQuery = r.isQuery := by rw [Rule.isQuery, Rule.isQuery, hkind]
  have hself : ({ r' with name := r.name } : Rule) = r' := by rw [← hname]
  have hbegun : s.begun r' = { s.begun r with rule? := some r', query := r'.isQuery } := rfl
  rw [hbegun, hquery]
  change _ = { s.begun r with
    reports := #[] ++ (s.begun r).reports, rule? := some { r' with name := r.name } }
  rw [hself, Array.empty_append]
  rfl

/-- What is done for a rule that has been begun depends on its branches. -/
theorem compileBegun_congr (hname : r'.name = r.name) (hkind : r'.kind = r.kind)
    (hbranches : r'.body.branches = r.body.branches) : compileBegun r' = compileBegun r := by
  have hquery : r'.isQuery = r.isQuery := by rw [Rule.isQuery, Rule.isQuery, hkind]
  have hattach : attachRule r' = attachRule r := by
    rw [attachRule, attachRule, hbranches, hname]
  funext begun
  rw [compileBegun, compileBegun, hattach, hname, hquery]

end Session

/-- **A definition counts only by its name, its kind and the branches of its
    body.** -/
theorem RuleBase.add_congr (base : RuleBase) {r r' : Rule} (hname : r'.name = r.name)
    (hkind : r'.kind = r.kind) (hbranches : r'.body.branches = r.body.branches) :
    base.add r' = base.add r := by
  have hbare := (Session.settled_start base).toBare
  rw [add, add, Session.compile_eq, Session.compile_eq]
  by_cases hmem : r.name ∈ base.names
  · have htaken : r.name ∈ (Session.start base).base.names := hmem
    rw [Session.bind_error (Session.placeless_error (hbare.beginRule_error htaken)),
      Session.bind_error (Session.placeless_error (hbare.beginRule_error (hname ▸ htaken))), hname]
  · have hfree : r.name ∉ (Session.start base).base.names := hmem
    rw [Session.bind_ok (Session.placeless_ok (hbare.beginRule_ok hfree)),
      Session.bind_ok (Session.placeless_ok (hbare.beginRule_ok (hname ▸ hfree))),
      Session.begun_congr hname hkind, Session.compileBegun_congr hname hkind hbranches]
    exact (Session.steady_compileBegun r _ (.of r') _).of_eq

/-! ## Bodies in a conjunction of their own -/

namespace Body

variable {b : Body}

/-- The conjunction of just the body, whatever its connective. -/
def enclosed (b : Body) : Body := ⟨.and, [b.toElement]⟩

theorem hasOr_enclosed (b : Body) : b.enclosed.hasOr = b.hasOr := by
  simp [enclosed, hasOr, toElement, Element.hasOr, Element.hasOrList]

theorem choices_singleton (e : Element) : Element.choices [e] = e.branches := by
  rw [Element.choices, Element.choices]
  cases he : e.branches with
  | error f => rfl
  | ok first => simp [pure, Except.pure, bind, Except.bind]

/-- **A body with a disjunction has the branches of the conjunction of just that
    body.** -/
theorem branches_enclosed (h : b.hasOr) : b.enclosed.branches = b.branches := by
  rw [branches, branches, hasOr_enclosed, if_pos h, if_pos h]
  change (do
    let conjunctions ← Element.branches (.group .and [b.toElement])
    return conjunctions.mapIdx fun index conjunction => (⟨index, ⟨.and, conjunction⟩⟩ : Branch)) = _
  rw [Element.branches, choices_singleton]

end Body

/-- **The connective of a body is honoured where a disjunction stands in the
    body.**  Such a definition comes to the same as the one whose body is a
    conjunction of just that group: the same value or failure, the same rule
    base and the same reports, on any rule base. -/
theorem RuleBase.add_enclosed (base : RuleBase) (r : Rule) (h : r.body.hasOr) :
    base.add { r with body := r.body.enclosed } = base.add r :=
  base.add_congr rfl rfl (Body.branches_enclosed h)

/-- A rule whose body is a negation. -/
def Rule.denying (members : List Element) : Rule where
  name := "absent"
  body := ⟨.not, members⟩

theorem RuleBase.add_enclosed_denying :
    let r := Rule.denying [.group .or [.pattern { offset := 0, type := 2 },
      .pattern { offset := 1, type := 3 }]]
    r.body.hasOr ∧ ((empty {}).add r).result.isOk ∧
      (empty {}).add { r with body := r.body.enclosed } = (empty {}).add r := by
  refine ⟨by decide, by decide +kernel, ?_⟩
  exact add_enclosed _ _ (by decide)

/-- The negation of a single pattern is compiled as if it were the pattern: no
    node of the network is a negation, while there is one for the conjunction of
    just that group. -/
theorem RuleBase.not_add_enclosed_lone :
    let r := Rule.denying [.pattern { offset := 0, type := 2 }]
    (empty {}).Reachable ∧ ((empty {}).add r).result.isOk ∧
      ((empty {}).add { r with body := r.body.enclosed }).result.isOk ∧
      ((empty {}).add r).base.network ≠
        ((empty {}).add { r with body := r.body.enclosed }).base.network := by
  refine ⟨.empty rfl, by decide +kernel, by decide +kernel, fun h => ?_⟩
  have hsize := congrArg Network.size h
  revert hsize
  decide +kernel

end RuleNet
