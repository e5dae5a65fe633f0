/-
  RuleNet — one session for many rules.

  A session may compile one rule after the other, and go on after failures.
  Three facts make this the same as a session for each rule.  No step asks what
  has been reported before, or about the rule at hand anything but its name, nor
  changes how nodes are made (`Steady`).  However a compilation ends, both
  stacks are empty afterwards (`StaysBare`).  And a rule begins by forgetting
  everything else that the session holds (`Settled.begun_eq`).
-/
import RuleNet.Editing
import RuleNet.Proofs.Compiling
import RuleNet.Proofs.Drawing

namespace RuleNet

namespace Session

variable {ε α β : Type}

/-! ## Steady steps -/

/-- What steps never ask about a session: which cross products were reported
    before it began, and what the rule at hand is, but for its name. -/
structure Guise where
  earlier : Array CrossProduct
  recast : Rule → Rule
  named : ∀ r, (recast r).name = r.name

/-- The guise of a session before which some cross products were reported. -/
def Guise.reporting (earlier : Array CrossProduct) : Guise := ⟨earlier, id, fun _ => rfl⟩

/-- The session, had these cross products been reported before it began and were
    the rule at hand recast. -/
def under (v : Guise) (s : Session) : Session :=
  { s with reports := v.earlier ++ s.reports, rule? := s.rule?.map v.recast }

/-- How nodes are made in the session, and how its rule base is configured. -/
def settings (s : Session) : NodeMaker × Config := (s.maker, s.base.config)

/-- What a step comes to from `s`, and what it comes to from `s` in another guise:
    the same but for the guise, and the settings of `s` stay. -/
inductive Twins (v : Guise) (s : Session) :
    EStateM.Result ε Session α → EStateM.Result ε Session α → Prop
  | ok {a : α} {t : Session} (stay : t.settings = s.settings) :
      Twins v s (.ok a t) (.ok a (t.under v))
  | error {e : ε} {t : Session} (stay : t.settings = s.settings) :
      Twins v s (.error e t) (.error e (t.under v))

/-- What the step comes to matters, not the session from which it was reached. -/
theorem Twins.reached {v : Guise} {s t : Session}
    {r r' : EStateM.Result ε Session α} (h : Twins v t r r')
    (stay : t.settings = s.settings) : Twins v s r r' := by
  cases h with
  | ok stay' => exact .ok (stay'.trans stay)
  | error stay' => exact .error (stay'.trans stay)

/-- A step that keeps the settings and for which the guise of the session makes
    no difference. -/
def Steady (step : EStateM ε Session α) : Prop :=
  ∀ v s, Twins v s (step s) (step (s.under v))

namespace Steady

theorem pure (a : α) : Steady (pure a : EStateM ε Session α) := fun _ _ => .ok rfl

theorem throw (e : ε) : Steady (throw e : EStateM ε Session α) := fun _ _ => .error rfl

theorem bind {step : EStateM ε Session α} {k : α → EStateM ε Session β} (h : Steady step)
    (hk : ∀ a, Steady (k a)) : Steady (step >>= k) := by
  intro v s
  have hstep := h v s
  generalize hr : step s = r, hr' : step (s.under v) = r' at hstep
  cases hstep with
  | @ok a t stay =>
    rw [bind_ok hr, bind_ok hr']
    exact (hk a v t).reached stay
  | error stay =>
    rw [bind_error hr, bind_error hr']
    exact .error stay

theorem modify {u : Session → Session}
    (hu : ∀ v s, u (s.under v) = (u s).under v)
    (stay : ∀ s, (u s).settings = s.settings) :
    Steady (modify u : EStateM ε Session PUnit) := by
  intro v s
  change Twins v s (.ok PUnit.unit (u s)) (.ok PUnit.unit (u (s.under v)))
  rw [hu]
  exact .ok (stay s)

/-- A step that depends on what it reads of the session. -/
theorem reads {k : Session → EStateM ε Session α}
    (hk : ∀ v s, k (s.under v) = k s) (h : ∀ s, Steady (k s)) :
    Steady (get >>= k) := by
  intro v s
  rw [get_bind, get_bind, hk]
  exact h s v s

theorem map (f : α → β) {step : EStateM ε Session α} (h : Steady step) : Steady (f <$> step) := by
  rw [map_eq_pure_bind]
  exact h.bind fun a => .pure (f a)

theorem forM {f : α → EStateM ε Session PUnit} (h : ∀ a, Steady (f a)) (l : List α) :
    Steady (l.forM f) := by
  induction l with
  | nil => exact .pure _
  | cons a l ih => exact (h a).bind fun _ => ih

theorem foldlM {f : β → α → EStateM ε Session β} (h : ∀ b a, Steady (f b a)) (l : List α)
    (b : β) : Steady (l.foldlM f b) := by
  induction l generalizing b with
  | nil => exact .pure _
  | cons a l ih => exact (h b a).bind ih

theorem mapM {f : α → EStateM ε Session β} (h : ∀ a, Steady (f a)) (l : List α) :
    Steady (l.mapM f) := by
  induction l with
  | nil => exact .pure _
  | cons a l ih =>
    rw [List.mapM_cons]
    exact (h a).bind fun b => ih.bind fun bs => .pure _

theorem orFail (x : Except Fault α) : Steady (orFail x) := by
  cases x with
  | ok a => exact .pure a
  | error fault => exact .throw fault

end Steady

/-! ## Nodes -/

theorem steady_issueId : Steady issueId := fun _ _ => .ok rfl

theorem steady_releaseId (id : NodeId) : Steady (releaseId id) := by
  intro v s
  have hids : (s.under v).base.ids = s.base.ids := rfl
  simp only [releaseId, change, get_bind, RuleBase.releaseId, hids]
  cases s.base.ids.release id with
  | error fault => exact .error rfl
  | ok ids => exact .ok rfl

theorem steady_requireRule : Steady requireRule := by
  refine .reads (fun _ _ => rfl) fun s => ?_
  cases s.ruleId? with
  | none => exact .throw _
  | some rule => exact .pure rule

theorem steady_claim (id : NodeId) (expiration? : Option Expiration) :
    Steady (claim id expiration?) := by
  refine steady_requireRule.bind fun rule v s => ?_
  have hnetwork : (s.under v).base.network = s.base.network := rfl
  have hpartition : (s.under v).partition? = s.partition? := rfl
  simp only [change, get_bind, hnetwork, hpartition]
  cases s.base.network.update id _ with
  | error fault => exact .error rfl
  | ok network => exact .ok rfl

theorem steady_createNode (kind : NodeKind) (expiration? : Option Expiration) :
    Steady (createNode kind expiration?) := by
  refine steady_requireRule.bind fun _ => steady_issueId.bind fun id v s => ?_
  have hinsert : (s.under v).base.network.insert
      { id, kind, origin? := (s.under v).origin? } =
      s.base.network.insert { id, kind, origin? := s.origin? } := rfl
  rw [get_bind, get_bind, hinsert]
  cases s.base.network.insert { id, kind, origin? := s.origin? } with
  | error fault => exact ((steady_releaseId id).bind fun _ => .throw fault) v s
  | ok network =>
    -- the session that is set has the reports of the one at hand, whatever they are
    have hclaim := (steady_claim id expiration?).bind fun _ => .pure id
    exact (hclaim v _).reached rfl

theorem steady_shareNode (id : NodeId) (expiration? : Option Expiration) :
    Steady (shareNode id expiration?) := by
  refine steady_requireRule.bind fun rule v s => ?_
  have hrequire : (s.under v).base.network.require id = s.base.network.require id := rfl
  rw [get_bind, get_bind, hrequire]
  have hclaim := (steady_claim id expiration?).bind fun _ => .pure id
  cases s.base.network.require id with
  | error fault => exact .error rfl
  | ok n =>
    simp only [orFail, pure_bind]
    split
    · exact hclaim v s
    · let a : Attached := ⟨id, false, n.partition?, n.retention.total⟩
      exact (hclaim v (s.attach a)).reached rfl

/-! ## Frames and flags -/

theorem steady_insideElement (e : Element) {step : Compile α} (h : Steady step) :
    Steady (insideElement e step) := by
  refine .bind (.modify (fun _ _ => rfl) fun _ => rfl) fun _ => h.bind fun a =>
    .bind (fun v s => ?_) fun _ => .pure a
  have helements : (s.under v).elements = s.elements := rfl
  rw [take, get_bind, get_bind, popElement, popElement, helements]
  cases Stack.pop .elements s.elements with
  | error fault => exact .error rfl
  | ok top => exact .ok rfl

theorem steady_insideOrigin (o : Origin) {step : Compile α} (h : Steady step) :
    Steady (insideOrigin o step) := by
  refine .bind (.modify (fun _ _ => rfl) fun _ => rfl) fun _ => h.bind fun a =>
    .bind (fun v s => ?_) fun _ => .pure a
  have htrail : (s.under v).trail = s.trail := rfl
  rw [take, get_bind, get_bind, popOrigin, popOrigin, htrail]
  cases Stack.pop .trail s.trail with
  | error fault => exact .error rfl
  | ok top => exact .ok rfl

theorem steady_inside (e : Element) (o : Origin) {step : Compile α} (h : Steady step) :
    Steady (inside e o step) :=
  steady_insideElement e (steady_insideOrigin o h)

/-- A step with a flag that is switched on the way in and back on the way out. -/
theorem Steady.switched {step : Compile α} (h : Steady step) {enter : Session → Session}
    {leave : Session → Session → Session}
    (henter : ∀ v s, enter (s.under v) = (enter s).under v)
    (hleave : ∀ v s t,
      leave (s.under v) (t.under v) = (leave s t).under v)
    (stay : ∀ s t, t.settings = (enter s).settings → (leave s t).settings = s.settings) :
    Steady fun s => match step (enter s) with
      | .ok a t => .ok a (leave s t)
      | .error fault t => .error fault (leave s t) := by
  intro v s
  have hstep := h v (enter s)
  rw [← henter] at hstep
  dsimp only
  generalize step (enter s) = r, step (enter (s.under v)) = r' at hstep ⊢
  cases hstep with
  | ok h =>
    dsimp only
    rw [hleave]
    exact .ok (stay s _ h)
  | error h =>
    dsimp only
    rw [hleave]
    exact .error (stay s _ h)

theorem steady_withTupleMemory (on : Bool) {step : Compile α} (h : Steady step) :
    Steady (withTupleMemory on step) :=
  h.switched (fun _ _ => rfl) (fun _ _ _ => rfl) fun _ _ stay => stay

theorem steady_withGuardsOut (on : Bool) {step : Compile α} (h : Steady step) :
    Steady (withGuardsOut on step) :=
  h.switched (fun _ _ => rfl) (fun _ _ _ => rfl) fun _ _ stay => stay

/-! ## Single nodes -/

theorem steady_attachRoot (key : RootKey) (kind : NodeKind) (expiration? : Option Expiration) :
    Steady (attachRoot key kind expiration?) := by
  refine .reads (fun _ _ => rfl) fun s => ?_
  cases s.base.network.roots[key]? with
  | none => exact steady_createNode _ _
  | some id => exact steady_shareNode id _

theorem steady_attachNode (sharing : Bool) (wanted : NodeKind) (expiration? : Option Expiration) :
    Steady (attachNode sharing wanted expiration?) := by
  refine .reads (fun _ _ => rfl) fun s => ?_
  cases if sharing then s.base.network.findServing s.guardsOut wanted else none with
  | none => exact steady_createNode _ _
  | some id => exact steady_shareNode id _

theorem steady_attachAlpha (source : NodeId) (t : FieldTest) (expiration? : Option Expiration) :
    Steady (attachAlpha source t expiration?) :=
  .reads (fun _ _ => rfl) fun _ => steady_attachNode _ _ _

theorem steady_attachBeta (wanted : NodeKind) (expiration? : Option Expiration) :
    Steady (attachBeta wanted expiration?) :=
  .reads (fun _ _ => rfl) fun _ => steady_attachNode _ _ _

theorem steady_attachJoin (kind : JoinKind) (left right : NodeId) (tests : List JoinTest)
    (expiration? : Option Expiration) : Steady (attachJoin kind left right tests expiration?) :=
  .bind (.modify (fun _ _ => rfl) fun _ => rfl) fun _ =>
    .reads (fun _ _ => rfl) fun _ => steady_attachBeta _ _

/-! ## Patterns -/

theorem steady_attachObjectSide (p : Pattern) : Steady (attachObjectSide p) := by
  refine .reads (fun _ _ => rfl) fun s => ?_
  refine .bind (.modify (fun _ _ => rfl) fun _ => rfl) fun _ => ?_
  refine (steady_attachRoot _ _ _).bind fun _ => ?_
  refine .reads (fun _ _ => rfl) fun s' => ?_
  refine (steady_attachRoot _ _ _).bind fun root => ?_
  refine .bind (.modify (fun _ _ => rfl) fun _ => rfl) fun _ => ?_
  have htests := Steady.foldlM (fun source t =>
    steady_insideOrigin (.fieldTest t) (steady_attachAlpha source t (s.expirationOf p)))
  refine (htests p.fieldTests root).bind fun last => ?_
  exact .bind (.modify (fun _ _ => rfl) fun _ => rfl) fun _ => .pure last

/-- A rule at hand goes by its name. -/
theorem name_under (v : Guise) (s : Session) :
    (s.under v).rule?.map (·.name) = s.rule?.map (·.name) := by
  change (s.rule?.map v.recast).map (·.name) = _
  rw [Option.map_map]
  exact congrArg (Option.map · s.rule?) (funext v.named)

theorem place_under (v : Guise) (s : Session) : (s.under v).place = s.place := by
  rw [place, place, name_under]
  rfl

/-- A report is added to whatever has been reported before. -/
theorem reportCrossProduct_under (v : Guise) (s : Session) :
    (s.under v).reportCrossProduct = s.reportCrossProduct.under v := by
  have hrecent : (s.under v).recent = s.recent := rfl
  rw [reportCrossProduct, reportCrossProduct, hrecent, name_under]
  split
  · dsimp only [under]
    rw [Array.push_append]
    rfl
  · rfl

theorem settings_reportCrossProduct (s : Session) : s.reportCrossProduct.settings = s.settings := by
  unfold reportCrossProduct
  split <;> rfl

theorem steady_joinPattern (p : Pattern) (object : NodeId) (tests : List JoinTest) :
    Steady (joinPattern p object tests) := by
  refine .reads (fun _ _ => rfl) fun s => ?_
  cases s.tupleSource? with
  | none => exact steady_attachBeta _ _
  | some left =>
    refine .bind (.modify (fun v s => ?_) fun s => ?_) fun _ =>
      .reads (fun _ _ => rfl) fun _ => steady_attachJoin _ _ _ _ _
    · rw [reportCrossProduct_under]
      exact (apply_ite (under v) ..).symm
    · split
      · exact s.settings_reportCrossProduct
      · rfl

theorem steady_attachPattern (p : Pattern) : Steady (attachPattern p) := by
  refine steady_inside _ _ <| .reads (fun _ _ => rfl) fun s =>
    (Steady.orFail _).bind fun tests => ?_
  refine (steady_attachObjectSide p).bind fun object => ?_
  refine .bind (.modify (fun _ _ => rfl) fun _ => rfl) fun _ => ?_
  refine (steady_joinPattern p object tests).bind fun tuple => ?_
  exact .modify (fun _ _ => rfl) fun _ => rfl

theorem steady_attachInitialFact : Steady attachInitialFact := by
  refine .reads (fun _ _ => rfl) fun s => ?_
  split
  · exact (Steady.throw _).bind fun _ => steady_attachPattern _
  · exact steady_attachPattern _

theorem steady_ensureTuple : Steady ensureTuple := by
  refine .reads (fun _ _ => rfl) fun s => ?_
  split
  · exact steady_attachInitialFact
  · exact .pure _

theorem steady_requireTuple (breach : Breach) : Steady (requireTuple breach) := by
  refine .reads (fun _ _ => rfl) fun s => ?_
  cases s.tupleSource? with
  | none => exact .throw _
  | some source => exact .pure source

/-! ## Negations and existence claims -/

theorem steady_attachSingle (p : Pattern) : Steady (attachSingle p) := by
  refine steady_inside _ _ <| .reads (fun _ _ => rfl) fun s =>
    (Steady.orFail _).bind fun tests => ?_
  refine (steady_attachObjectSide p).bind fun object => ?_
  refine .bind (.modify (fun _ _ => rfl) fun _ => rfl) fun _ => ?_
  exact .reads (fun _ _ => rfl) fun _ => .pure _

theorem steady_attachSubnetwork (left : NodeId) {members : Compile Unit} (h : Steady members) :
    Steady (attachSubnetwork left members) := by
  refine .reads (fun _ _ => rfl) fun s => h.bind fun _ => ?_
  refine (steady_requireTuple _).bind fun last => (steady_attachBeta _ _).bind fun source => ?_
  exact .bind (.modify (fun _ _ => rfl) fun _ => rfl) fun _ => .pure _

theorem steady_attachQuantified (q : Quantifier) (members : List Element)
    {attachMembers : Compile Unit} (h : Steady attachMembers) :
    Steady (attachQuantified q members attachMembers) := by
  have hjoin (left : NodeId) (single : Bool) (right : RightInput) : Steady (do
      let memory := (← get).tupleMemory
      let node ← withTupleMemory (memory && !single)
        (attachJoin q.joinKind left right.source right.tests right.expiration?)
      modify ({ · with tupleSource? := some node }) : Compile Unit) :=
    .reads (fun _ _ => rfl) fun _ =>
      (steady_withTupleMemory _ (steady_attachJoin _ _ _ _ _)).bind fun _ =>
        .modify (fun _ _ => rfl) fun _ => rfl
  unfold attachQuantified
  by_cases hempty : members.isEmpty
  · simp only [hempty, if_true]
    exact .throw _
  · simp only [hempty]
    refine steady_inside _ _ <| steady_ensureTuple.bind fun _ =>
      (steady_requireTuple _).bind fun left => .reads (fun _ _ => rfl) fun s => ?_
    cases Element.single? members with
    | none => exact (steady_attachSubnetwork left h).bind (hjoin left _)
    | some p => exact (steady_attachSingle p).bind (hjoin left _)

/-! ## Universal statements, query calls and terminals -/

theorem steady_attachUniversal (base : Pattern) (rest : List Pattern) :
    Steady (attachUniversal base rest) := by
  refine steady_inside _ _ <| steady_withGuardsOut _ <| steady_attachQuantified _ _ ?_
  refine (steady_attachPattern _).bind fun _ => steady_attachQuantified _ _ ?_
  exact .forM steady_attachPattern _

theorem steady_attachCall (q : QueryCall) : Steady (attachCall q) := by
  refine steady_inside _ _ <| steady_ensureTuple.bind fun _ => ?_
  refine (steady_requireTuple _).bind fun left => .reads (fun _ _ => rfl) fun s => ?_
  refine (Steady.orFail _).bind fun arguments => (steady_attachBeta _ _).bind fun node => ?_
  exact .modify (fun _ _ => rfl) fun _ => rfl

theorem steady_attachTerminal : Steady attachTerminal :=
  (steady_requireTuple _).bind fun _ => steady_requireRule.bind fun _ =>
    .reads (fun _ _ => rfl) fun _ => steady_createNode _ _

/-! ## Elements -/

mutual

theorem steady_attachElement : (e : Element) → Steady (attachElement e)
  | .pattern p => steady_attachPattern p
  | .group .and members => steady_insideElement _ (steady_attachElements members)
  | .group .or _ => .throw _
  | .group .not members => steady_attachQuantified .none members (steady_attachElements members)
  | .group .exists members => steady_attachQuantified .some members (steady_attachElements members)
  | .every base rest => steady_attachUniversal base rest
  | .call q => steady_attachCall q

theorem steady_attachElements : (es : List Element) → Steady (attachElements es)
  | [] => .pure _
  | e :: es => (steady_attachElement e).bind fun _ => steady_attachElements es

end

/-! ## Rules -/

theorem steady_branchDistances (b : Branch) : Steady (branchDistances b) := by
  refine .reads (fun _ _ => rfl) fun s => ?_
  split
  · exact (Steady.orFail _).map some
  · exact .pure _

theorem steady_attachBranch (name : String) (b : Branch) : Steady (attachBranch name b) := by
  refine .bind (.modify (fun _ _ => rfl) fun _ => rfl) fun _ => ?_
  refine .reads (fun _ _ => rfl) fun _ => (Steady.orFail _).bind fun _ => ?_
  refine (steady_branchDistances b).bind fun distances? => ?_
  refine .bind (.modify (fun _ _ => rfl) fun _ => rfl) fun _ => ?_
  refine .bind (steady_insideOrigin _ ?_) fun terminal => ?_
  · exact (steady_insideElement _ (steady_attachElements _)).bind fun _ =>
      steady_ensureTuple.bind fun _ => steady_attachTerminal
  · exact .reads (fun _ _ => rfl) fun _ => (Steady.orFail _).bind fun _ => .pure terminal

theorem steady_attachRule (rule : Rule) : Steady (attachRule rule) :=
  (Steady.orFail _).bind fun _ => .mapM (steady_attachBranch rule.name) _

theorem steady_finish : Steady (take finish) := by
  intro v s
  have hbalanced : (s.under v).checkBalanced = s.checkBalanced := rfl
  rw [take, get_bind, get_bind, finish, finish, hbalanced]
  cases s.checkBalanced with
  | error fault => exact .error rfl
  | ok => exact .ok rfl

theorem undo_config (base : RuleBase) (rule : RuleId) (a : Attached) :
    (base.undo rule a).config = base.config := by
  unfold RuleBase.undo
  split
  · cases base.network.remove a.id with
    | error fault => rfl
    | ok r =>
      dsimp only [RuleBase.releaseId]
      cases base.ids.release a.id <;> rfl
  · rfl

theorem rollback_config (base : RuleBase) (rule : RuleId) (attached : List Attached) :
    (base.rollback rule attached).config = base.config := by
  unfold RuleBase.rollback
  induction attached with
  | nil => rfl
  | cons a attached ih => rw [List.foldr_cons, undo_config, ih]

theorem steady_registerRule (entry : RuleEntry) (attached : List Attached) :
    Steady (registerRule entry attached) := by
  intro v s
  have hregister : (s.under v).base.registerRule entry = s.base.registerRule entry := rfl
  rw [registerRule, get_bind, get_bind, hregister]
  cases h : s.base.registerRule entry with
  | ok base =>
    refine .ok (Prod.ext rfl (?_ : base.config = s.base.config))
    rw [RuleBase.registerRule] at h
    split at h
    · cases h
    · cases h
      rfl
  | error fault => exact .error (Prod.ext rfl (rollback_config ..))

theorem steady_announce (rule : RuleId) (nodes : List NodeId) : Steady (announce rule nodes) :=
  .modify (fun _ _ => rfl) fun _ => rfl

theorem steady_placeless {step : Compile α} (h : Steady step) : Steady (placeless step) := by
  intro v s
  have hstep := h v s
  rw [placeless, EStateM.adaptExcept, EStateM.adaptExcept]
  generalize step s = r, step (s.under v) = r' at hstep ⊢
  cases hstep with
  | ok stay => exact .ok stay
  | error stay => exact .error stay

theorem steady_orUndone (rule : RuleId) {step : Compile α} (h : Steady step) :
    Steady (orUndone rule step) := by
  intro v s
  have hstep := h v s
  rw [orUndone, orUndone]
  generalize step s = r, step (s.under v) = r' at hstep ⊢
  cases hstep with
  | ok stay => exact .ok stay
  | @error fault t stay =>
    dsimp only
    rw [place_under]
    exact .error (Eq.trans (b := t.settings) (Prod.ext rfl (rollback_config t.base ..)) stay)

/-- What is done for a rule that has been begun. -/
def compileBegun (rule : Rule) (begun : RuleId × PartitionId) : Building Built := do
  let terminals ← orUndone begun.1 (attachRule rule)
  let attached ← placeless (take finish)
  let nodes := attached.map (·.id)
  placeless (registerRule ⟨begun.1, rule.name, rule.isQuery, begun.2, nodes⟩ attached)
  placeless (announce begun.1 nodes)
  return {
    rule := begun.1, partition := begun.2, terminals
    created := (attached.filter (·.created)).map (·.id)
    shared := (attached.filter (!·.created)).map (·.id) }

theorem compile_eq (rule : Rule) :
    compile rule = placeless (beginRule rule) >>= compileBegun rule := rfl

theorem steady_compileBegun (rule : Rule) (begun : RuleId × PartitionId) :
    Steady (compileBegun rule begun) :=
  (steady_orUndone _ (steady_attachRule rule)).bind fun _ =>
    (steady_placeless steady_finish).bind fun _ =>
      (steady_placeless (steady_registerRule _ _)).bind fun _ =>
        (steady_placeless (steady_announce _ _)).bind fun _ => .pure _

/-! ## Between rules -/

/-- The session that a step leaves, whether or not it fails. -/
def afterwards : EStateM.Result ε Session α → Session
  | .ok _ t => t
  | .error _ t => t

/-- A session that can compile a rule as if it were new. -/
structure Settled (s : Session) : Prop extends s.Bare where
  maker : s.maker = s.base.config.maker

theorem settled_start (base : RuleBase) : (start base).Settled := ⟨⟨rfl, rfl⟩, rfl⟩

/-- A step after which, if it ends well, both stacks are empty. -/
def Empties (step : Compile α) : Prop := ∀ ⦃s a t⦄, step s = .ok a t → t.Bare

theorem Empties.after {k : α → Compile β} (step : Compile α) (h : ∀ a, Empties (k a)) :
    Empties (step >>= k) := by
  intro s b t hok
  obtain ⟨a, s', -, hok⟩ := Draw.bind_inv hok
  exact h a hok

theorem bare_of_checkBalanced {s : Session} (h : s.checkBalanced = .ok ()) : s.Bare := by
  rw [checkBalanced] at h
  cases helements : s.elements with
  | cons e es =>
    rw [helements] at h
    cases h
  | nil =>
    rw [helements] at h
    cases htrail : s.trail with
    | cons o os =>
      rw [htrail] at h
      cases h
    | nil => exact ⟨helements, htrail⟩

theorem empties_checkBalanced (a : α) : Empties (do orFail (← get).checkBalanced; return a) := by
  intro s b t hok
  rw [get_bind] at hok
  cases hb : s.checkBalanced with
  | error fault =>
    rw [hb] at hok
    cases hok
  | ok =>
    rw [hb] at hok
    cases hok
    exact bare_of_checkBalanced hb

theorem empties_attachBranch (name : String) (b : Branch) : Empties (attachBranch name b) :=
  .after _ fun _ => .after _ fun _ => .after _ fun _ => .after _ fun _ => .after _ fun _ =>
    .after _ fun terminal => empties_checkBalanced terminal

theorem bare_of_mapM {f : α → Compile β} (hf : ∀ a, Empties (f a)) {s t : Session} (hs : s.Bare)
    {as : List α} {bs : List β} (h : as.mapM f s = .ok bs t) : t.Bare := by
  induction as generalizing s bs t with
  | nil =>
    cases h
    exact hs
  | cons a as ih =>
    rw [List.mapM_cons] at h
    obtain ⟨b, s', ha, h⟩ := Draw.bind_inv h
    obtain ⟨bs', t', has, h⟩ := Draw.bind_inv h
    cases h
    exact ih (hf a ha) has

theorem bare_attachRule {rule : Rule} {s t : Session} (hs : s.Bare) {terminals : List NodeId}
    (h : attachRule rule s = .ok terminals t) : t.Bare := by
  rw [attachRule] at h
  cases hb : rule.body.branches with
  | error fault =>
    rw [hb] at h
    cases h
  | ok branches =>
    rw [hb] at h
    exact bare_of_mapM (empties_attachBranch rule.name) hs h

/-- A step that leaves both stacks empty if it finds them empty, whether or not
    it fails. -/
def StaysBare (step : EStateM ε Session α) : Prop := ∀ ⦃s⦄, s.Bare → (afterwards (step s)).Bare

theorem StaysBare.bind {step : EStateM ε Session α} {k : α → EStateM ε Session β}
    (h : StaysBare step) (hk : ∀ a, StaysBare (k a)) : StaysBare (step >>= k) := by
  intro s hs
  have ht := h hs
  cases hstep : step s with
  | ok a t =>
    rw [hstep] at ht
    rw [bind_ok hstep]
    exact hk a ht
  | error fault t =>
    rw [hstep] at ht
    rw [bind_error hstep]
    exact ht

theorem StaysBare.placeless {step : Compile α} (h : StaysBare step) :
    StaysBare (placeless step) := by
  intro s hs
  have ht := h hs
  rw [Session.placeless, EStateM.adaptExcept]
  cases hstep : step s <;> rwa [hstep] at ht

theorem staysBare_orUndone (id : RuleId) (rule : Rule) :
    StaysBare (orUndone id (attachRule rule)) := by
  intro s hs
  rw [orUndone]
  cases hattach : attachRule rule s with
  | ok terminals t => exact bare_attachRule hs hattach
  | error fault t => exact ⟨rfl, rfl⟩

theorem staysBare_finish : StaysBare (take finish) := by
  intro s hs
  have hfinish : finish s = .ok (s.attached, { s with attached := [] }) := by
    rw [finish, checkBalanced_eq hs.elements hs.trail]
    rfl
  rw [take_ok hfinish]
  exact ⟨hs.elements, hs.trail⟩

theorem staysBare_registerRule (entry : RuleEntry) (attached : List Attached) :
    StaysBare (registerRule entry attached) := by
  intro s hs
  rw [registerRule, get_bind]
  cases s.base.registerRule entry <;> exact ⟨hs.elements, hs.trail⟩

theorem staysBare_compileBegun (rule : Rule) (begun : RuleId × PartitionId) :
    StaysBare (compileBegun rule begun) :=
  (staysBare_orUndone begun.1 rule).bind fun _ => staysBare_finish.placeless.bind fun _ =>
    (staysBare_registerRule _ _).placeless.bind fun _ =>
      StaysBare.bind (StaysBare.placeless fun _ hs => ⟨hs.elements, hs.trail⟩) fun _ _ hs => hs

end Session

/-! ## One session and many -/

/-- An outcome in a session in which cross products had been reported before. -/
def Outcome.following {α : Type} (earlier : List CrossProduct) (o : Outcome α) : Outcome α :=
  { o with reports := earlier ++ o.reports }

namespace RuleBase

/-- What comes of rules that are added by a call each, also after failures. -/
def addEach (base : RuleBase) : List Rule → List (Outcome Session.Built)
  | [] => []
  | r :: rs => base.add r :: (base.add r).base.addEach rs

/-- What comes of rules that are added by a call each, up to the first failure. -/
def addInTurn (base : RuleBase) : List Rule → Outcome (List Session.Built)
  | [] => ⟨.ok [], base, []⟩
  | r :: rs =>
    let first := base.add r
    match first.result with
    | .error failure => ⟨.error failure, first.base, first.reports⟩
    | .ok built =>
      let others := first.base.addInTurn rs
      ⟨others.result.map (built :: ·), others.base, first.reports ++ others.reports⟩

end RuleBase

/-- Outcomes in one session: each also has the reports of those before it. -/
def Outcome.accumulate {α : Type} : List CrossProduct → List (Outcome α) → List (Outcome α)
  | _, [] => []
  | earlier, o :: os => o.following earlier :: accumulate (earlier ++ o.reports) os

namespace Session

variable {ε α β : Type}

/-- What comes of rules that are compiled in one session, also after failures. -/
def compileEach (s : Session) : List Rule → List (Outcome Built)
  | [] => []
  | r :: rs => .of (compile r s) :: (afterwards (compile r s)).compileEach rs

theorem Twins.settings {v : Guise} {s : Session} {r r' : EStateM.Result ε Session α}
    (h : Twins v s r r') :
    (afterwards r).settings = s.settings := by
  cases h <;> assumption

theorem Twins.of_eq {v : Guise} {s : Session} {r r' : EStateM.Result Failure Session α}
    (h : Twins v s r r') : Outcome.of r' = (Outcome.of r).following v.earlier.toList := by
  cases h with
  | ok => exact congrArg (Outcome.mk _ _) Array.toList_append
  | error => exact congrArg (Outcome.mk _ _) Array.toList_append

theorem settings_begun (s : Session) (r : Rule) : (s.begun r).settings = s.settings := by
  obtain ⟨p, hbegun⟩ := s.base.begun_eq
  have hconfig : s.base.begun.2.config = s.base.config := by rw [hbegun]
  exact Prod.ext rfl hconfig

namespace Settled
variable {s : Session} {r : Rule} (hs : s.Settled)
include hs

/-- A session in which a rule has been begun holds nothing that was there
    before, reports apart. -/
theorem begun_eq (r : Rule) :
    s.begun r = ((start s.base).begun r).under (.reporting s.reports) := by
  have hbegun : s.begun r =
      { (start s.base).begun r with maker := s.maker, reports := s.reports } := rfl
  rw [hbegun, hs.maker, under]
  congr

/-- A session stays settled, whatever comes of a rule. -/
theorem after_compile (r : Rule) : (afterwards (compile r s)).Settled := by
  rw [compile_eq]
  by_cases hname : r.name ∈ s.base.names
  · rw [bind_error (placeless_error (hs.beginRule_error hname))]
    exact ⟨⟨rfl, rfl⟩, hs.maker⟩
  · rw [bind_ok (placeless_ok (hs.beginRule_ok hname))]
    -- what holds in any guise holds in none
    have hsteady := steady_compileBegun r (s.base.nextRule, s.base.begun.1) (.reporting #[])
      (s.begun r)
    have hsettings := hsteady.settings.trans (s.settings_begun r)
    refine ⟨staysBare_compileBegun r _ ⟨rfl, rfl⟩, ?_⟩
    exact (congrArg Prod.fst hsettings).trans (hs.maker.trans (congrArg (·.2.maker) hsettings).symm)

/-- **A rule comes to the same in a settled session as in a new one**, after
    what has been reported before. -/
theorem of_compile (r : Rule) :
    Outcome.of (compile r s) = (s.base.add r).following s.reports.toList := by
  rw [RuleBase.add, compile_eq]
  by_cases hname : r.name ∈ s.base.names
  · rw [bind_error (placeless_error (hs.beginRule_error hname)),
      bind_error (placeless_error ((settled_start s.base).beginRule_error hname))]
    exact congrArg (Outcome.mk _ _) (List.append_nil _).symm
  · rw [bind_ok (placeless_ok (hs.beginRule_ok hname)),
      bind_ok (placeless_ok ((settled_start s.base).beginRule_ok hname)), hs.begun_eq]
    exact (steady_compileBegun r _ (.reporting s.reports) _).of_eq

end Settled

theorem base_afterwards (result : EStateM.Result Failure Session α) :
    (afterwards result).base = (Outcome.of result).base := by
  cases result <;> rfl

theorem reports_afterwards (result : EStateM.Result Failure Session α) :
    (afterwards result).reports.toList = (Outcome.of result).reports := by
  cases result <;> rfl

theorem Settled.compileEach_eq {s : Session} (hs : s.Settled) (rules : List Rule) :
    s.compileEach rules = Outcome.accumulate s.reports.toList (s.base.addEach rules) := by
  induction rules generalizing s with
  | nil => rfl
  | cons r rs ih =>
    rw [compileEach, ih (hs.after_compile r), base_afterwards, reports_afterwards, hs.of_compile r]
    rfl

/-- A value put in front of those of a step. -/
theorem of_cons (b : α) (step : Building (List α)) (s : Session) :
    Outcome.of ((do let bs ← step; return b :: bs) s) =
      { Outcome.of (step s) with result := (Outcome.of (step s)).result.map (b :: ·) } := by
  cases h : step s with
  | ok bs t => exact congrArg Outcome.of (bind_ok h)
  | error failure t => exact congrArg Outcome.of (bind_error h)

theorem Settled.of_mapM_compile {s : Session} (hs : s.Settled) (rules : List Rule) :
    Outcome.of (rules.mapM compile s) = (s.base.addInTurn rules).following s.reports.toList := by
  induction rules generalizing s with
  | nil => exact congrArg (Outcome.mk _ _) (List.append_nil _).symm
  | cons r rs ih =>
    have hfirst := hs.of_compile r
    have hrest := ih (hs.after_compile r)
    rw [List.mapM_cons, RuleBase.addInTurn]
    have hresult := congrArg Outcome.result hfirst
    have hbase := congrArg Outcome.base hfirst
    have hreports := congrArg Outcome.reports hfirst
    cases hr : compile r s with
    | error failure t =>
      rw [hr] at hresult hbase hreports
      rw [bind_error hr]
      have hresult : (s.base.add r).result = .error failure := hresult.symm
      simp only [hresult]
      exact congr (congrArg _ hbase) hreports
    | ok built t =>
      rw [hr] at hresult hbase hreports hrest
      have hresult : (s.base.add r).result = .ok built := hresult.symm
      have hbase : t.base = (s.base.add r).base := hbase
      have hreports : t.reports.toList = s.reports.toList ++ (s.base.add r).reports := hreports
      rw [afterwards, hbase, hreports] at hrest
      rw [bind_ok hr, of_cons, hrest]
      simp only [hresult, Outcome.following, List.append_assoc]

/-- **A session that has compiled rules before, and failed to, is as good as a new
    one.**  Rules that are compiled in one session, also after failures, come to
    what they come to when each is added by a call of its own: the same values,
    failures and places, the same rule base and notices, and the same reports.
    So adding rules together is adding them in turn up to the first failure. -/
theorem session_reusable (base : RuleBase) (rules : List Rule) :
    (start base).compileEach rules = Outcome.accumulate [] (base.addEach rules) ∧
      base.addAll rules = base.addInTurn rules :=
  ⟨(settled_start base).compileEach_eq rules, (settled_start base).of_mapM_compile rules⟩

end Session

end RuleNet
