/-
  RuleNet — the rule bases that commands lead to.

  Rules are added and removed, and working memories are attached and detached;
  a command that fails leaves behind what it leaves behind.  A library is a
  rule base together with the definitions that its rules were compiled from.
  Every library that commands lead to is sound (`Reachable.sound`).  As long as
  they have brought no more definitions than there are numbers for rules, nodes
  keep facts for just as long as the registered rules ask (`ReachableBy.heeds`).
-/
import RuleNet.Proofs.Soundness

namespace RuleNet

/-! ## Commands -/

/-- What is done to a rule base. -/
inductive Command where
  | add (rule : Rule)
  /-- Rules are added in one session. -/
  | addAll (rules : List Rule)
  | remove (rule : RuleId)
  /-- The rule with a name is removed. -/
  | removeNamed (name : String)
  | attach (memory : MemoryId)
  | detach (memory : MemoryId)

/-- The rule base that an edit leaves behind, whether or not it fails. -/
def RuleBase.Edit.leaves {α : Type} (edit : Edit α) (base : RuleBase) : RuleBase :=
  match edit base with
  | .ok _ base' => base'
  | .error _ base' => base'

namespace Command

/-- The rule base after a command, whether or not it failed. -/
def run (base : RuleBase) : Command → RuleBase
  | add rule => (base.add rule).base
  | addAll rules => (base.addAll rules).base
  | remove rule => (RuleBase.removeRule rule).leaves base
  | removeNamed name => (RuleBase.removeNamed name).leaves base
  | attach memory => base.attachMemory memory
  | detach memory => base.detachMemory memory

/-- The definitions that a command brings. -/
def brings : Command → List Rule
  | add rule => [rule]
  | addAll rules => rules
  | remove _ | removeNamed _ | attach _ | detach _ => []

end Command

/-- The rule bases that commands lead to, from one without rules. -/
inductive RuleBase.Reachable : RuleBase → Prop where
  | empty {config : Config} (plain : config.maker = .plain) : Reachable (.empty config)
  | step {base : RuleBase} (before : Reachable base) (c : Command) : Reachable (c.run base)

theorem RuleBase.reachable_foldl {config : Config} (plain : config.maker = .plain)
    (cs : List Command) : (cs.foldl Command.run (.empty config)).Reachable := by
  induction cs using List.reverseRecOn with
  | nil => exact .empty plain
  | append_singleton cs c ih =>
    rw [List.foldl_append]
    exact ih.step c

/-- The rule bases that commands lead to which bring `n` definitions. -/
inductive RuleBase.ReachableBy : Nat → RuleBase → Prop where
  | empty {config : Config} (plain : config.maker = .plain) : ReachableBy 0 (.empty config)
  | step {n : Nat} {base : RuleBase} (before : ReachableBy n base) (c : Command) :
      ReachableBy (n + c.brings.length) (c.run base)

theorem RuleBase.ReachableBy.reachable {n : Nat} {base : RuleBase} (h : base.ReachableBy n) :
    base.Reachable := by
  induction h with
  | empty plain => exact .empty plain
  | step _ c ih => exact ih.step c

/-! ## Libraries -/

/-- A rule base, and the definitions that its rules were compiled from. -/
structure Library where
  base : RuleBase
  /-- The definition of each registered rule. -/
  definitions : RuleId → Option Rule

namespace Library

/-- The library without rules. -/
def empty (config : Config) : Library := ⟨.empty config, fun _ => none⟩

/-- The library after a command.  A rule that is new has been compiled from the
    definition that came with the command under the rule's name. -/
def after (l : Library) (c : Command) : Library where
  base := c.run l.base
  definitions id := ((c.run l.base).rule? id).bind fun entry =>
    (l.definitions id).or (c.brings.find? (·.name == entry.name))

/-- The libraries that commands lead to, from one without rules. -/
inductive Reachable : Library → Prop where
  | empty {config : Config} (plain : config.maker = .plain) : Reachable (.empty config)
  | step {l : Library} (before : Reachable l) (c : Command) : Reachable (l.after c)

/-- The libraries that commands lead to which bring `n` definitions. -/
inductive ReachableBy : Nat → Library → Prop where
  | empty {config : Config} (plain : config.maker = .plain) : ReachableBy 0 (.empty config)
  | step {n : Nat} {l : Library} (before : ReachableBy n l) (c : Command) :
      ReachableBy (n + c.brings.length) (l.after c)

theorem reachableBy_foldl {config : Config} (plain : config.maker = .plain) (cs : List Command) :
    ReachableBy (cs.flatMap Command.brings).length (cs.foldl Library.after (.empty config)) := by
  induction cs using List.reverseRecOn with
  | nil => exact .empty plain
  | append_singleton cs c ih =>
    rw [List.foldl_append, List.flatMap_append, List.length_append, List.flatMap_singleton]
    exact ih.step c

theorem ReachableBy.reachable {n : Nat} {l : Library} (h : l.ReachableBy n) : l.Reachable := by
  induction h with
  | empty plain => exact .empty plain
  | step _ c ih => exact ih.step c

theorem Reachable.exists_count {l : Library} (h : l.Reachable) : ∃ n, l.ReachableBy n := by
  induction h with
  | empty plain => exact ⟨_, .empty plain⟩
  | step _ c ih =>
    obtain ⟨n, hn⟩ := ih
    exact ⟨_, hn.step c⟩

end Library

theorem RuleBase.Reachable.exists_library {base : RuleBase} (h : base.Reachable) :
    ∃ l : Library, l.Reachable ∧ l.base = base := by
  induction h with
  | empty plain => exact ⟨_, .empty plain, rfl⟩
  | step _ c ih =>
    obtain ⟨l, hl, rfl⟩ := ih
    exact ⟨_, hl.step c, rfl⟩

theorem Library.Reachable.base {l : Library} (h : l.Reachable) : l.base.Reachable := by
  induction h with
  | empty plain => exact .empty plain
  | step _ c ih => exact ih.step c

/-! ## Adding rules in a session -/

namespace Session

variable {s t : Session} {defs : RuleId → Option Rule} {inst : RuleId → Option Installation}

/-- **Compiling a rule fails and changes nothing but numbers and marks, or it
    succeeds and the rule is built as its blueprint says.** -/
theorem compile_cases (hs : s.Idle) (h : s.base.Sound defs inst) (r : Rule) :
    (∃ failure t, compile r s = .error failure t ∧ s.base.Kept t.base) ∨
      ∃ built t, compile r s = .ok built t ∧ t.Idle ∧
        ∃ b I, r.blueprint s.base.config = .ok b ∧ s.base.Compiled r b built I t.base := by
  by_cases hname : r.name ∈ s.base.names
  · obtain ⟨t, ht, hbase⟩ := compile_duplicate hs hname
    exact .inl ⟨_, t, ht, by rw [hbase]; exact h.kept_refl⟩
  cases hb : r.blueprint s.base.config with
  | error f =>
    obtain ⟨t, p, ht, hrestored⟩ := compile_error hs h.standing hname hb
    exact .inl ⟨_, t, ht, hrestored.kept⟩
  | ok b =>
    cases hnumber : s.base.rules[s.base.nextRule]? with
    | some entry =>
      obtain ⟨_, _, _, _, t, -, hJ, -, -, ht, hbase⟩ :=
        compile_collided hs h.standing hname hb (by rw [hnumber]; rfl)
      exact .inl ⟨_, t, ht, hbase ▸ (Served.rollback hJ.served h.standing).kept⟩
    | none =>
      obtain ⟨t, built, I, ht, hidle, hc⟩ := compile_ok hs h.standing hname hb hnumber
      exact .inr ⟨built, t, ht, hidle, b, I, rfl, hc⟩

/-- A sound rule base after the rules `rs` have been added in turn, up to the
    first failure. -/
structure Added (defs : RuleId → Option Rule) (inst : RuleId → Option Installation)
    (base base' : RuleBase) (rs : List Rule) (defs' : RuleId → Option Rule)
    (inst' : RuleId → Option Installation) : Prop where
  sound : base'.Sound defs' inst'
  /-- What was registered is. -/
  keeps : ∀ {id : RuleId} {entry : RuleEntry}, base.rules[id]? = some entry →
    base'.rules[id]? = some entry
  /-- New rules were compiled from the definition of their name. -/
  defs : ∀ {id : RuleId} {entry : RuleEntry}, base'.rules[id]? = some entry →
    defs' id = (defs id).or (rs.find? (·.name == entry.name))
  /-- If there are numbers for all, nodes go on keeping facts for as long as
      asked. -/
  heeds : ∀ n, base.Within n → n + rs.length ≤ 2 ^ 32 → base.network.Heeds inst →
    base'.network.Heeds inst'

/-- If nothing is added. -/
theorem added_nil (h : s.base.Sound defs inst) : Added defs inst s.base s.base [] defs inst where
  sound := h
  keeps he := he
  defs he := by
    obtain ⟨-, r, I, hr, -⟩ := h.registered he
    rw [hr]
    rfl
  heeds _ _ _ hh := hh

/-- If the first rule is refused. -/
theorem added_kept {base' : RuleBase} (h : s.base.Sound defs inst) (hk : s.base.Kept base')
    (r : Rule) (rs : List Rule) : Added defs inst s.base base' (r :: rs) defs inst where
  sound := h.kept hk
  keeps he := by
    rw [hk.rest]
    exact he
  defs he := by
    rw [hk.rest] at he
    obtain ⟨-, r, I, hr, -⟩ := h.registered he
    rw [hr]
    rfl
  heeds n hw hn hh := by
    rw [hk.network_eq h (hw.unnumbered (by rw [List.length_cons] at hn; omega))]
    exact hh

/-- One more rule has been added before. -/
theorem Added.cons {base₁ base₂ : RuleBase} {r : Rule} {rs : List Rule} {b : Blueprint}
    {built : Built} {I : Installation} {defs' : RuleId → Option Rule}
    {inst' : RuleId → Option Installation}
    (hadded : Added (Function.update defs s.base.nextRule (some r))
      (Function.update inst s.base.nextRule (some I)) base₁ base₂ rs defs' inst')
    (h : s.base.Sound defs inst) (hc : s.base.Compiled r b built I base₁) :
    Added defs inst s.base base₂ (r :: rs) defs' inst' := by
  obtain ⟨entry₁, hname, hrules⟩ : ∃ entry₁ : RuleEntry, entry₁.name = r.name ∧
      base₁.rules = s.base.rules.insert s.base.nextRule entry₁ := by
    obtain ⟨w, -, -, -, hbase₁⟩ := hc.served
    exact ⟨_, rfl, by rw [hbase₁]⟩
  have hnew : base₂.rules[s.base.nextRule]? = some entry₁ := by
    refine hadded.keeps ?_
    rw [hrules, Std.ExtTreeMap.getElem?_insert_self]
  refine ⟨hadded.sound, fun {id entry} he => hadded.keeps ?_, fun {id entry} he => ?_,
    fun n hw hn hh => hadded.heeds (n + 1) (hw.compiled hc) ?_ (hc.heeds h hh)⟩
  · have hne : s.base.nextRule ≠ id := by
      rintro rfl
      rw [hc.unnumbered] at he
      cases he
    rw [hrules, Std.ExtTreeMap.getElem?_insert, if_neg (mt Std.compare_eq_iff_eq.1 hne), he]
  · rw [hadded.defs he, List.find?_cons]
    by_cases hid : id = s.base.nextRule
    · subst hid
      obtain rfl : entry₁ = entry := Option.some.inj (hnew.symm.trans he)
      rw [Function.update_self, (h.unregistered hc.unnumbered).1, hname, beq_self_eq_true]
      rfl
    · -- the names of the two rules differ
      have hne : (r.name == entry.name) = false := by
        refine beq_eq_false_iff_ne.2 fun hsame => hid ?_
        exact hadded.sound.names he hnew (by rw [hname, hsame])
      rw [Function.update_of_ne hid, hne]
  · rw [List.length_cons] at hn
    omega

/-- A rule that is refused ends the session. -/
theorem outcome_cons_error {r : Rule} {rs : List Rule} {failure : Failure}
    (h : compile r s = .error failure t) : (Outcome.of ((r :: rs).mapM compile s)).base = t.base := by
  rw [List.mapM_cons, bind_error h]
  rfl

/-- After a rule has been added, the others are. -/
theorem outcome_cons_ok {r : Rule} {rs : List Rule} {built : Built} (h : compile r s = .ok built t) :
    (Outcome.of ((r :: rs).mapM compile s)).base = (Outcome.of (rs.mapM compile t)).base := by
  rw [List.mapM_cons, bind_ok h]
  cases hrest : rs.mapM compile t with
  | ok builts u => rw [bind_ok hrest]; rfl
  | error failure u => rw [bind_error hrest]

theorem added_all (hs : s.Idle) (h : s.base.Sound defs inst) (rs : List Rule) :
    ∃ defs' inst', Added defs inst s.base (Outcome.of (rs.mapM compile s)).base rs defs' inst' := by
  induction rs generalizing s defs inst with
  | nil => exact ⟨defs, inst, added_nil h⟩
  | cons r rs ih =>
    obtain ⟨failure, t, ht, hk⟩ | ⟨built, t, ht, hidle, b, I, hb, hc⟩ := compile_cases hs h r
    · rw [outcome_cons_error ht]
      exact ⟨defs, inst, added_kept h hk r rs⟩
    · have ht' := h.compiled hb hc
      obtain ⟨defs', inst', hadded⟩ := ih hidle ht'
      refine ⟨defs', inst', ?_⟩
      rw [outcome_cons_ok ht]
      exact hadded.cons h hc

/-- What failures keep, and rules that are compiled from what is added, adding
    rules keeps. -/
theorem outcome_induction_of_mem {P : RuleBase → Prop} {rs : List Rule}
    (kept : ∀ {base base' : RuleBase}, P base → base.Kept base' → P base')
    (compiled : ∀ {base base' : RuleBase} {defs : RuleId → Option Rule}
      {inst : RuleId → Option Installation} {r : Rule} {b : Blueprint} {built : Built}
      {I : Installation}, r ∈ rs → r.blueprint base.config = .ok b → base.Sound defs inst →
        P base → base.Compiled r b built I base' → P base')
    (hs : s.Idle) (h : s.base.Sound defs inst) (hp : P s.base) :
    P (Outcome.of (rs.mapM compile s)).base := by
  induction rs generalizing s defs inst with
  | nil => exact hp
  | cons r rs ih =>
    obtain ⟨failure, t, ht, hk⟩ | ⟨built, t, ht, hidle, b, I, hb, hc⟩ := compile_cases hs h r
    · rw [outcome_cons_error ht]
      exact kept hp hk
    · rw [outcome_cons_ok ht]
      exact ih (fun hr => compiled (List.mem_cons_of_mem _ hr)) hidle (h.compiled hb hc)
        (compiled List.mem_cons_self hb h hp hc)

/-- What goes on counting the rules that are begun. -/
theorem outcome_counted {P : Nat → RuleBase → Prop} {n : Nat}
    (more : ∀ {n : Nat} {base : RuleBase}, P n base → P (n + 1) base)
    (kept : ∀ {n : Nat} {base base' : RuleBase} {defs : RuleId → Option Rule}
      {inst : RuleId → Option Installation}, base.Sound defs inst → P n base →
        base.Kept base' → P (n + 1) base')
    (compiled : ∀ {n : Nat} {base base' : RuleBase} {defs : RuleId → Option Rule}
      {inst : RuleId → Option Installation} {r : Rule} {b : Blueprint} {built : Built}
      {I : Installation}, base.Sound defs inst → P n base → base.Compiled r b built I base' →
        P (n + 1) base')
    (hs : s.Idle) (h : s.base.Sound defs inst) (hp : P n s.base) (rs : List Rule) :
    P (n + rs.length) (Outcome.of (rs.mapM compile s)).base := by
  induction rs generalizing s defs inst n with
  | nil => exact hp
  | cons r rs ih =>
    have hlength : n + (r :: rs).length = n + 1 + rs.length := by
      rw [List.length_cons]
      omega
    rw [hlength]
    obtain ⟨failure, t, ht, hk⟩ | ⟨built, t, ht, hidle, b, I, hb, hc⟩ := compile_cases hs h r
    · rw [outcome_cons_error ht]
      -- the others are not begun
      exact Nat.le_induction (kept h hp hk) (fun _ _ hp => more hp) _ (Nat.le_add_right _ _)
    · rw [outcome_cons_ok ht]
      exact ih hidle (h.compiled hb hc) (compiled h hp hc)

end Session

/-! ## Every command -/

namespace RuleBase

variable {base : RuleBase} {defs : RuleId → Option Rule} {inst : RuleId → Option Installation}

theorem Sound.idle (h : base.Sound defs inst) : (Session.start base).Idle :=
  Session.idle_start h.maker

/-- Adding one rule is adding a list of one. -/
theorem addAll_singleton (base : RuleBase) (r : Rule) :
    (base.addAll [r]).base = (base.add r).base := by
  rw [addAll, List.mapM_cons, add]
  cases hrest : Session.compile r (Session.start base) with
  | ok built t => rw [Session.bind_ok hrest]; rfl
  | error failure t => rw [Session.bind_error hrest]; rfl

/-- A rule with a blueprint, a name and a number of its own is added. -/
theorem add_ok {r : Rule} {b : Blueprint} (h : base.Sound defs inst)
    (hname : base.ruleNamed? r.name = none) (hnumber : base.rules[base.nextRule]? = none)
    (hb : r.blueprint base.config = .ok b) :
    ∃ built I, (base.add r).result = .ok built ∧
      base.Compiled r b built I (base.add r).base := by
  obtain ⟨t, built, I, ht, -, hc⟩ :=
    Session.compile_ok h.idle h.standing (h.not_mem_names_iff.2 hname) hb hnumber
  refine ⟨built, I, ?_, ?_⟩
  · rw [add, ht]
    rfl
  · rw [add, ht]
    exact hc

/-- A rule that is refused changes nothing but numbers and marks. -/
theorem Sound.add_kept (h : base.Sound defs inst) {r : Rule} {failure : Failure}
    (hfail : (base.add r).result = .error failure) : base.Kept (base.add r).base := by
  obtain ⟨failure, t, ht, hk⟩ | ⟨built, t, ht, -⟩ := Session.compile_cases h.idle h r
  · rw [add, ht]
    exact hk
  · rw [add, ht] at hfail
    cases hfail

/-- A registered rule can be removed, and the rule base is sound without it. -/
theorem Sound.remove (h : base.Sound defs inst) {entry : RuleEntry}
    (he : base.rules[entry.id]? = some entry) : ∃ removal base',
      removeRule entry.id base = .ok removal base' ∧ base.Removed entry removal base' ∧
      base'.Sound (Function.update defs entry.id none) (Function.update inst entry.id none) := by
  obtain ⟨-, r, I, -, hI, hreg⟩ := h.registered he
  obtain ⟨removal, base', hremove, hr⟩ := removeRule_ok h.houses h.numbered hI he hreg.nodes
  have hconfig : base'.config = base.config := by rw [hr.rest]
  have hrules : ∀ id : RuleId, base'.rules[id]? = if id = entry.id then none else base.rules[id]? := by
    intro id
    rw [hr.rest]
    simp only [Std.ExtTreeMap.getElem?_erase, Std.compare_eq_iff_eq, eq_comm (a := entry.id)]
  refine ⟨removal, base', hremove, hr, h.update hconfig (hr.houses h.houses hI hreg.nodes)
    hr.numbered hrules ?_ nofun fun _ => ⟨rfl, rfl⟩⟩
  rw [hr.rest]
  exact h.indexed_erase he

/-- Where no rule has a number, there is nothing to remove. -/
theorem run_remove_of_none {id : RuleId} (he : base.rules[id]? = none) :
    (Command.remove id).run base = base := by
  rw [Command.run, Edit.leaves, removeRule_error he]

/-- Removing by name is removing by number. -/
theorem run_removeNamed (base : RuleBase) (name : String) : (Command.removeNamed name).run base =
    match base.ruleNamed? name with
    | some entry => (Command.remove entry.id).run base
    | none => base := by
  rw [Command.run, Edit.leaves, removeNamed_eq]
  cases base.ruleNamed? name <;> rfl

/-- What a command does: the rules that it brings are added in one session, or it
    brings none, and a rule is removed or a working memory comes or goes. -/
theorem Sound.run_cases {P : RuleBase → Prop} (h : base.Sound defs inst) (c : Command)
    (added : P (base.addAll c.brings).base)
    (removed : ∀ {base' : RuleBase} {entry : RuleEntry} {removal : Removal}, c.brings = [] →
      base.rules[entry.id]? = some entry → base.Removed entry removal base' →
        base'.Sound (Function.update defs entry.id none) (Function.update inst entry.id none) →
          P base')
    (attach : ∀ memory, c = .attach memory → P (base.attachMemory memory))
    (detach : ∀ memory, c = .detach memory → P (base.detachMemory memory)) : P (c.run base) := by
  have hremove (hc : c.brings = []) (id : RuleId) : P ((Command.remove id).run base) := by
    cases he : base.rules[id]? with
    | none =>
      rw [run_remove_of_none he]
      rwa [hc] at added
    | some entry =>
      obtain ⟨rfl, -⟩ := h.registered he
      obtain ⟨removal, base', hok, hr, h'⟩ := h.remove he
      rw [Command.run, Edit.leaves, hok]
      exact removed hc he hr h'
  cases c with
  | add rule =>
    rw [Command.run, ← addAll_singleton]
    exact added
  | addAll rules => exact added
  | remove id => exact hremove rfl id
  | removeNamed name =>
    rw [run_removeNamed]
    cases base.ruleNamed? name with
    | none => exact added
    | some entry => exact hremove rfl entry.id
  | attach memory => exact attach memory rfl
  | detach memory => exact detach memory rfl

/-- What failures, removals and the coming and going of working memories keep,
    and rules that are compiled from what a command brings, the command keeps. -/
theorem Sound.run_induction_of_brings {P : RuleBase → Prop} (h : base.Sound defs inst)
    (hp : P base) (c : Command)
    (kept : ∀ {base base' : RuleBase}, P base → base.Kept base' → P base')
    (compiled : ∀ {base base' : RuleBase} {defs : RuleId → Option Rule}
      {inst : RuleId → Option Installation} {r : Rule} {b : Blueprint} {built : Session.Built}
      {I : Installation}, r ∈ c.brings → r.blueprint base.config = .ok b → base.Sound defs inst →
        P base → base.Compiled r b built I base' → P base')
    (removed : ∀ {base' : RuleBase} {entry : RuleEntry} {removal : Removal},
      base.Sound defs inst → base.rules[entry.id]? = some entry → P base →
        base.Removed entry removal base' → P base')
    (attach : ∀ memory, c = .attach memory → P (base.attachMemory memory))
    (detach : ∀ memory, c = .detach memory → P (base.detachMemory memory)) : P (c.run base) :=
  h.run_cases c (Session.outcome_induction_of_mem kept compiled h.idle h hp)
    (fun _ he hr _ => removed h he hp hr) attach detach

/-- What failures, compiled rules, removals and the coming and going of working
    memories keep, a command keeps. -/
theorem Sound.run_induction {P : RuleBase → Prop} (h : base.Sound defs inst) (hp : P base)
    (c : Command)
    (kept : ∀ {base base' : RuleBase}, P base → base.Kept base' → P base')
    (compiled : ∀ {base base' : RuleBase} {defs : RuleId → Option Rule}
      {inst : RuleId → Option Installation} {r : Rule} {b : Blueprint} {built : Session.Built}
      {I : Installation}, base.Sound defs inst → P base → base.Compiled r b built I base' → P base')
    (removed : ∀ {base' : RuleBase} {entry : RuleEntry} {removal : Removal},
      base.Sound defs inst → base.rules[entry.id]? = some entry → P base →
        base.Removed entry removal base' → P base')
    (attach : ∀ memory, c = .attach memory → P (base.attachMemory memory))
    (detach : ∀ memory, c = .detach memory → P (base.detachMemory memory)) : P (c.run base) :=
  h.run_induction_of_brings hp c kept (fun _ _ => compiled) removed attach detach

end RuleBase

namespace Library

variable {l : Library} {inst : RuleId → Option Installation}

/-- A library whose rule base is sound. -/
def Sound (l : Library) (inst : RuleId → Option Installation) : Prop :=
  l.base.Sound l.definitions inst

/-- What has to be known of a command for a library to be sound after it. -/
theorem sound_after {c : Command} (defs' : RuleId → Option Rule)
    {inst' : RuleId → Option Installation} (h' : (c.run l.base).Sound defs' inst')
    (hdefs : ∀ {id : RuleId} {entry : RuleEntry}, (c.run l.base).rules[id]? = some entry →
      defs' id = (l.definitions id).or (c.brings.find? (·.name == entry.name))) :
    (l.after c).Sound inst' := by
  have hsame : (l.after c).definitions = defs' := by
    funext id
    change ((c.run l.base).rules[id]?).bind _ = defs' id
    cases he : (c.run l.base).rules[id]? with
    | none => exact (h'.unregistered he).1.symm
    | some entry => exact (hdefs he).symm
  rw [Sound, hsame]
  exact h'

theorem Sound.known (h : l.Sound inst) {id : RuleId} {entry : RuleEntry}
    (he : l.base.rules[id]? = some entry) (r? : Option Rule) :
    l.definitions id = (l.definitions id).or r? := by
  obtain ⟨-, r, I, hr, -⟩ := h.registered he
  rw [hr]
  rfl

/-- After a command, the library is sound.  If there are numbers for all that
    the command brings, nodes go on keeping facts for as long as asked. -/
structure SoundAfter (l : Library) (inst : RuleId → Option Installation) (c : Command)
    (inst' : RuleId → Option Installation) : Prop where
  sound : (l.after c).Sound inst'
  heeds : ∀ n, l.base.Within n → n + c.brings.length ≤ 2 ^ 32 → l.base.network.Heeds inst →
    (l.after c).base.network.Heeds inst'

theorem Sound.addAll (h : l.Sound inst) (rs : List Rule) :
    ∃ inst', l.SoundAfter inst (.addAll rs) inst' := by
  obtain ⟨defs', inst', hadded⟩ := Session.added_all h.idle h rs
  exact ⟨inst', sound_after defs' hadded.sound hadded.defs, hadded.heeds⟩

theorem Sound.add (h : l.Sound inst) (r : Rule) : ∃ inst', l.SoundAfter inst (.add r) inst' := by
  obtain ⟨inst', hafter⟩ := h.addAll [r]
  have hsame : l.after (.add r) = l.after (.addAll [r]) := by
    simp only [after, Command.run, Command.brings, l.base.addAll_singleton r]
  refine ⟨inst', ?_, ?_⟩
  · rw [hsame]
    exact hafter.sound
  · rw [hsame]
    exact hafter.heeds

/-- A command that changes nothing. -/
theorem Sound.idle_command (h : l.Sound inst) {c : Command} (hbase : c.run l.base = l.base) :
    l.SoundAfter inst c inst := by
  refine ⟨sound_after l.definitions ?_ ?_, fun _ _ _ hh => ?_⟩
  · rw [hbase]
    exact h
  · rw [hbase]
    exact fun he => h.known he _
  · rw [after, hbase]
    exact hh

theorem Sound.remove (h : l.Sound inst) (id : RuleId) :
    ∃ inst', l.SoundAfter inst (.remove id) inst' := by
  cases he : l.base.rules[id]? with
  | none => exact ⟨inst, h.idle_command (RuleBase.run_remove_of_none he)⟩
  | some entry =>
    obtain ⟨hid, r, I, -, hI, hreg⟩ := h.registered he
    subst hid
    obtain ⟨removal, base', hremove, hr, h'⟩ := RuleBase.Sound.remove h he
    have hbase : (Command.remove entry.id).run l.base = base' := by
      rw [Command.run, RuleBase.Edit.leaves, hremove]
    refine ⟨_, sound_after _ (by rw [hbase]; exact h') ?_, fun _ _ _ hh => ?_⟩
    · rw [hbase]
      intro id e he'
      rw [hr.rest, Std.ExtTreeMap.getElem?_erase] at he'
      split at he'
      · cases he'
      · rename_i hne
        rw [Function.update_of_ne fun heq => hne (Std.compare_eq_iff_eq.2 heq.symm)]
        exact h.known he' _
    · rw [after, hbase]
      exact hr.heeds h.houses hI hreg.nodes hh

theorem Sound.removeNamed (h : l.Sound inst) (name : String) :
    ∃ inst', l.SoundAfter inst (.removeNamed name) inst' := by
  have hbase := l.base.run_removeNamed name
  cases hfind : l.base.ruleNamed? name with
  | none =>
    rw [hfind] at hbase
    exact ⟨inst, h.idle_command hbase⟩
  | some entry =>
    rw [hfind] at hbase
    have hafter : l.after (.removeNamed name) = l.after (.remove entry.id) := by
      simp only [after, hbase]
      rfl
    obtain ⟨inst', hremove⟩ := h.remove entry.id
    refine ⟨inst', ?_, ?_⟩
    · rw [hafter]
      exact hremove.sound
    · rw [hafter]
      exact hremove.heeds

/-- Attaching or detaching a working memory. -/
theorem Sound.tell (h : l.Sound inst) {c : Command} {memories : List MemoryId}
    (hbase : c.run l.base = { l.base with memories }) :
    ∃ inst', l.SoundAfter inst c inst' := by
  have h' := RuleBase.Sound.memories h memories l.base.journal
  refine ⟨inst, sound_after l.definitions ?_ ?_, fun _ _ _ hh => ?_⟩
  · rw [hbase]
    exact h'
  · rw [hbase]
    exact fun he => h.known he _
  · rw [after, hbase]
    exact hh

/-- **Commands keep a library sound.** -/
theorem Sound.after (h : l.Sound inst) (c : Command) : ∃ inst', l.SoundAfter inst c inst' := by
  cases c with
  | add r => exact h.add r
  | addAll rs => exact h.addAll rs
  | remove id => exact h.remove id
  | removeNamed name => exact h.removeNamed name
  | attach memory => exact h.tell rfl
  | detach memory => exact h.tell rfl

/-- **In every library that commands lead to, the network houses just the
    registered rules, each built as its blueprint says.** -/
theorem Reachable.sound (h : l.Reachable) : ∃ inst, l.Sound inst := by
  induction h with
  | empty plain => exact ⟨_, RuleBase.sound_empty _ plain⟩
  | step _ c ih =>
    obtain ⟨inst, ih⟩ := ih
    obtain ⟨inst', hafter⟩ := ih.after c
    exact ⟨inst', hafter.sound⟩

end Library

theorem RuleBase.Reachable.sound {base : RuleBase} (h : base.Reachable) :
    ∃ defs inst, base.Sound defs inst := by
  obtain ⟨l, hl, rfl⟩ := h.exists_library
  obtain ⟨inst, hsound⟩ := hl.sound
  exact ⟨_, _, hsound⟩

/-! ## Counting definitions -/

/-- What holds of a rule base without rules, and is kept by failures, compiled
    rules, removals and the coming and going of working memories, while the rules
    that are begun are counted. -/
theorem RuleBase.ReachableBy.induction {P : Nat → RuleBase → Prop} {n : Nat} {base : RuleBase}
    (h : base.ReachableBy n)
    (empty : ∀ config : Config, P 0 (.empty config))
    (more : ∀ {n : Nat} {base : RuleBase}, P n base → P (n + 1) base)
    (kept : ∀ {n : Nat} {base base' : RuleBase} {defs : RuleId → Option Rule}
      {inst : RuleId → Option Installation}, base.Sound defs inst → P n base →
        base.Kept base' → P (n + 1) base')
    (compiled : ∀ {n : Nat} {base base' : RuleBase} {defs : RuleId → Option Rule}
      {inst : RuleId → Option Installation} {r : Rule} {b : Blueprint} {built : Session.Built}
      {I : Installation}, base.Sound defs inst → P n base → base.Compiled r b built I base' →
        P (n + 1) base')
    (removed : ∀ {n : Nat} {base base' : RuleBase} {defs : RuleId → Option Rule}
      {inst : RuleId → Option Installation} {entry : RuleEntry} {removal : Removal},
      base.Sound defs inst → base.rules[entry.id]? = some entry → P n base →
        base.Removed entry removal base' → P n base')
    (memories : ∀ {n : Nat} {base : RuleBase} (memories : List MemoryId), P n base →
      P n { base with memories }) : P n base := by
  induction h with
  | empty plain => exact empty _
  | @step n base before c ih =>
    obtain ⟨defs, inst, hs⟩ := before.reachable.sound
    refine hs.run_cases c (Session.outcome_counted more kept compiled hs.idle hs ih c.brings)
      (fun hc he hr _ => ?_) (fun memory hc => ?_) fun memory hc => ?_
    · rw [hc]
      exact removed hs he ih hr
    · rw [hc]
      exact memories _ ih
    · rw [hc]
      exact memories _ ih

theorem RuleBase.ReachableBy.within {n : Nat} {base : RuleBase} (h : base.ReachableBy n) :
    base.Within n := by
  refine h.induction (P := fun n base => base.Within n) Within.empty
    (fun hw => hw.mono (Nat.le_succ _)) (fun _ hw hk => hw.kept hk) (fun _ hw hc => hw.compiled hc)
    (fun _ _ hw hr => hw.fewer ?_ fun id entry he => ?_) fun _ hw => hw
  · rw [hr.rest]
  · rw [hr.rest, Std.ExtTreeMap.getElem?_erase] at he
    split at he
    · cases he
    · exact ⟨entry, he⟩

namespace Library.ReachableBy

variable {l : Library} {n : Nat}

theorem base (h : l.ReachableBy n) : l.base.ReachableBy n := by
  induction h with
  | empty plain => exact .empty plain
  | step _ c ih => exact ih.step c

/-- **As long as there are numbers for all definitions, nodes keep facts for just
    as long as the registered rules ask.** -/
theorem heeds (h : l.ReachableBy n) (hn : n ≤ 2 ^ 32) :
    ∃ inst, l.Sound inst ∧ l.base.network.Heeds inst := by
  induction h with
  | empty plain => exact ⟨_, RuleBase.sound_empty _ plain, Network.heeds_empty⟩
  | @step n l before c ih =>
    obtain ⟨inst, hs, hh⟩ := ih (by omega)
    obtain ⟨inst', hafter⟩ := hs.after c
    exact ⟨inst', hafter.sound, hafter.heeds n before.base.within hn hh⟩

/-- The library is sound whatever number of definitions there were. -/
theorem sound (h : l.ReachableBy n) :
    ∃ inst, l.Sound inst ∧ (n ≤ 2 ^ 32 → l.base.network.Heeds inst) := by
  by_cases hn : n ≤ 2 ^ 32
  · obtain ⟨inst, hs, hh⟩ := h.heeds hn
    exact ⟨inst, hs, fun _ => hh⟩
  · obtain ⟨inst, hs⟩ := h.reachable.sound
    exact ⟨inst, hs, fun hn' => absurd hn' hn⟩

end Library.ReachableBy

end RuleNet
