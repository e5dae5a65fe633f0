/-
  RuleNet — rule bases whose network houses just their rules.

  A rule base is sound if its network houses just the registered rules, each built
  as its blueprint says, and the names are those of the rules (`Sound`).  It stays
  sound when a rule is refused (`Sound.kept`) or compiled (`Sound.compiled`), and
  when what is registered under one number comes or goes (`Sound.update`).

  The numbers of rules are counted with 32 bits.  While there are numbers left, the
  next one is free (`Within.unnumbered`); after that a rule may be refused for its
  number, and leaves marks on the nodes of the rule that has it (`Kept`).
-/
import RuleNet.Proofs.Compiling
import RuleNet.Proofs.Removal
import RuleNet.Proofs.Slots

namespace RuleNet

/-! ## Sound rule bases -/

namespace RuleBase

/-- The rule registered as `entry` was compiled from `r` and is built as `I`
    tells. -/
structure Registers (base : RuleBase) (entry : RuleEntry) (r : Rule) (I : Installation) : Prop where
  name : entry.name = r.name
  query : entry.query = r.isQuery
  /-- The entry lists each node of the rule once. -/
  nodes : entry.nodes = I.nodes.eraseDups
  blueprint : ∃ b, r.blueprint base.config = .ok b ∧ I.steps = b.steps

/-- The network houses just the registered rules. -/
structure Sound (base : RuleBase) (defs : RuleId → Option Rule)
    (inst : RuleId → Option Installation) : Prop where
  maker : base.config.maker = .plain
  houses : base.network.Houses base.config inst
  numbered : base.Numbered
  /-- Registered rules are built. -/
  registered : ∀ {id : RuleId} {entry : RuleEntry}, base.rules[id]? = some entry →
    entry.id = id ∧ ∃ r I, defs id = some r ∧ inst id = some I ∧ base.Registers entry r I
  /-- No other rules are. -/
  unregistered : ∀ {id : RuleId}, base.rules[id]? = none → defs id = none ∧ inst id = none
  /-- The names are those of the registered rules. -/
  indexed : ∀ (name : String) (id : RuleId),
    base.names[name]? = some id ↔ ∃ entry, base.rules[id]? = some entry ∧ entry.name = name

variable {base base' : RuleBase} {defs : RuleId → Option Rule}
variable {inst : RuleId → Option Installation} {name : String} {id : RuleId} {entry : RuleEntry}

theorem Registers.mono {r : Rule} {I : Installation} (h : base.Registers entry r I)
    (hconfig : base'.config = base.config) : base'.Registers entry r I where
  name := h.name
  query := h.query
  nodes := h.nodes
  blueprint := by
    rw [hconfig]
    exact h.blueprint

theorem numbered_empty (config : Config) : (empty config).Numbered where
  valid := IdPool.valid_initial
  live x := iff_of_false IdPool.not_isLive_initial (by simp [empty, Network.empty])

theorem sound_empty (config : Config) (h : config.maker = .plain) :
    (empty config).Sound (fun _ => none) fun _ => none where
  maker := h
  houses := Network.houses_empty config
  numbered := numbered_empty config
  registered h := by simp [empty] at h
  unregistered _ := ⟨rfl, rfl⟩
  indexed _ _ := by simp [empty]

/-! ## Definitions and installations -/

theorem Sound.entry_of_definition (h : base.Sound defs inst) {id : RuleId} {r : Rule}
    (hr : defs id = some r) : ∃ entry I, base.rules[id]? = some entry ∧ inst id = some I ∧
      base.Registers entry r I := by
  cases he : base.rules[id]? with
  | none =>
    rw [(h.unregistered he).1] at hr
    cases hr
  | some entry =>
    obtain ⟨-, r', I, hr', hI, hreg⟩ := h.registered he
    obtain rfl : r' = r := Option.some.inj (hr'.symm.trans hr)
    exact ⟨entry, I, rfl, hI, hreg⟩

theorem Sound.definition_of_installation (h : base.Sound defs inst) {id : RuleId}
    {I : Installation} (hI : inst id = some I) : ∃ r, defs id = some r := by
  cases he : base.rules[id]? with
  | none =>
    rw [(h.unregistered he).2] at hI
    cases hI
  | some entry =>
    obtain ⟨-, r, -, hr, -⟩ := h.registered he
    exact ⟨r, hr⟩

/-! ## Looking up rules by name -/

theorem mem_entries : entry ∈ base.entries ↔ ∃ id : RuleId, base.rules[id]? = some entry := by
  simp only [entries, List.mem_map, Prod.exists, Std.ExtTreeMap.mem_toList_iff_getElem?_eq_some,
    exists_eq_right]

@[simp] theorem rules_empty (config : Config) (id : RuleId) : (empty config).rules[id]? = none := by
  simp [empty]

@[simp] theorem ruleNamed?_empty (config : Config) (name : String) :
    (empty config).ruleNamed? name = none := by
  simp [ruleNamed?, empty]

theorem Sound.ruleNamed?_eq_some_iff (h : base.Sound defs inst) :
    base.ruleNamed? name = some entry ↔
      ∃ id : RuleId, base.rules[id]? = some entry ∧ entry.name = name := by
  rw [ruleNamed?, Option.bind_eq_some_iff]
  refine exists_congr fun id => ?_
  rw [h.indexed, rule?]
  constructor
  · rintro ⟨⟨e, he, hname⟩, he'⟩
    exact ⟨he', Option.some.inj (he.symm.trans he') ▸ hname⟩
  · rintro ⟨he, hname⟩
    exact ⟨⟨entry, he, hname⟩, he⟩

theorem Sound.ruleNamed?_eq_none_iff (h : base.Sound defs inst) : base.ruleNamed? name = none ↔
    ∀ (id : RuleId) (entry : RuleEntry), base.rules[id]? = some entry → entry.name ≠ name := by
  simp only [Option.eq_none_iff_forall_ne_some, ne_eq, h.ruleNamed?_eq_some_iff, not_exists, not_and]
  exact ⟨fun hnot id e he => hnot e id he, fun hnot e id he => hnot id e he⟩

/-- A name is free if no registered rule has it. -/
theorem Sound.not_mem_names_iff (h : base.Sound defs inst) :
    name ∉ base.names ↔ base.ruleNamed? name = none := by
  rw [h.ruleNamed?_eq_none_iff, Std.ExtTreeMap.mem_iff_isSome_getElem?, Bool.not_eq_true,
    Option.isSome_eq_false_iff, Option.isNone_iff_eq_none, Option.eq_none_iff_forall_ne_some]
  simp only [ne_eq, h.indexed, not_exists, not_and]

/-- No two rules have one name. -/
theorem Sound.names (h : base.Sound defs inst) {id id' : RuleId} {entry entry' : RuleEntry}
    (he : base.rules[id]? = some entry) (he' : base.rules[id']? = some entry')
    (hname : entry.name = entry'.name) : id = id' := by
  have hid := (h.indexed entry'.name id).2 ⟨entry, he, hname⟩
  have hid' := (h.indexed entry'.name id').2 ⟨entry', he', rfl⟩
  exact Option.some.inj (hid.symm.trans hid')

/-! ## What failures change -/

/-- A rule base that is as it was, but for the numbers that rules, partitions
    and nodes have got meanwhile, and for marks of a rule whose number was
    taken. -/
structure Kept (base base' : RuleBase) : Prop where
  /-- Only the network and numbers have changed. -/
  rest : base' = { base with
    network := base'.network
    ids := base'.ids
    nextRule := base'.nextRule
    nextPartition := base'.nextPartition }
  wired : base'.network.Wired
  marked : base.network.Marked base.nextRule base.begun.1 base'.network
  /-- The next numbers of a rule and of a partition have been taken, or not. -/
  counters : (base'.nextRule = base.nextRule ∧ base'.nextPartition = base.nextPartition) ∨
    (base'.nextRule = base.begun.2.nextRule ∧ base'.nextPartition = base.begun.2.nextPartition)
  valid : base'.ids.Valid
  live : ∀ x, base'.ids.isLive x ↔ base.ids.isLive x
  upcoming : ∀ k, base'.ids.upcoming k = base.ids.upcoming k

theorem Sound.kept_refl (h : base.Sound defs inst) : base.Kept base :=
  ⟨rfl, h.houses.wired, .refl _ _ _, .inl ⟨rfl, rfl⟩, h.numbered.valid, fun _ => .rfl, fun _ => rfl⟩

theorem Restored.kept (h : base.begun.2.Restored base' base.nextRule base.begun.1) :
    base.Kept base' := by
  have hcounters : base'.nextRule = base.begun.2.nextRule ∧
      base'.nextPartition = base.begun.2.nextPartition := by
    rw [h.rest]
    exact ⟨rfl, rfl⟩
  obtain ⟨p, hbegun⟩ := base.begun_eq
  have hnetwork : base.begun.2.network = base.network := by rw [hbegun]
  have hids : base.begun.2.ids = base.ids := by rw [hbegun]
  refine ⟨?_, h.wired, hnetwork ▸ h.marked, .inr hcounters, h.valid, hids ▸ h.live, hids ▸ h.upcoming⟩
  rw [hbegun] at h
  rw [h.rest]

/-- Nodes do what they did. -/
theorem Kept.kinds_eq (hk : base.Kept base') : base'.network.kinds = base.network.kinds :=
  funext fun x => Node.Marked.map_kind (hk.marked.nodes x)

/-- The rule whose number is next has left marks only if it is registered. -/
theorem Kept.network_eq (hk : base.Kept base') (h : base.Sound defs inst)
    (hfree : base.rules[base.nextRule]? = none) : base'.network = base.network := by
  refine hk.marked.eq_of_unused fun x n hn hr => ?_
  obtain ⟨I, hI, -⟩ := (h.houses.owners hn _).1 hr
  rw [(h.unregistered hfree).2] at hI
  cases hI

theorem Sound.kept (h : base.Sound defs inst) (hk : base.Kept base') : base'.Sound defs inst := by
  have hn : base'.Numbered := by
    refine ⟨hk.valid, fun x => (hk.live x).trans ((h.numbered.live x).trans ?_)⟩
    have hx := congrArg Option.isSome (congrFun hk.kinds_eq x)
    rw [Network.kinds, Network.kinds, Option.isSome_map, Option.isSome_map] at hx
    rw [← Option.isSome_iff_exists, ← Option.isSome_iff_exists, hx]
  have hhouses := hk.marked.houses hk.wired h.houses
  rw [hk.rest] at hn ⊢
  refine ⟨h.maker, hhouses, hn, fun he => ?_, h.unregistered, h.indexed⟩
  obtain ⟨hid, r, I, hr, hI, hreg⟩ := h.registered he
  exact ⟨hid, r, I, hr, hI, hreg.mono rfl⟩

/-- Working memories come and go. -/
theorem Sound.memories (h : base.Sound defs inst) (memories : List MemoryId)
    (journal : List Notice) : { base with memories, journal }.Sound defs inst := by
  refine ⟨h.maker, h.houses, ⟨h.numbered.valid, h.numbered.live⟩, fun he => ?_, h.unregistered,
    h.indexed⟩
  obtain ⟨hid, r, I, hr, hI, hreg⟩ := h.registered he
  exact ⟨hid, r, I, hr, hI, hreg.mono rfl⟩

/-! ## Adding a rule -/

/-- The next rule can be attached to a sound rule base, even if its number is
    taken. -/
theorem Sound.standing (h : base.Sound defs inst) :
    Site.Standing ⟨base.begun.2, []⟩ base.nextRule .empty :=
  Session.site_standing (s := Session.start base) h.houses h.numbered

/-- The next rule can be built on a sound rule base if its number is free. -/
theorem Sound.site (h : base.Sound defs inst) (hfree : base.rules[base.nextRule]? = none) :
    Site.Sound ⟨base.begun.2, []⟩ inst base.nextRule .empty :=
  Session.site_sound (s := Session.start base) h.houses h.numbered (h.unregistered hfree).2

/-- The names of a rule base with one more rule. -/
theorem Sound.indexed_insert {e : RuleEntry} (h : base.Sound defs inst)
    (hname : e.name ∉ base.names) (hfree : base.rules[e.id]? = none) (name : String) (id : RuleId) :
    (base.names.insert e.name e.id)[name]? = some id ↔
      ∃ entry, (base.rules.insert e.id e)[id]? = some entry ∧ entry.name = name := by
  simp only [Std.ExtTreeMap.getElem?_insert, Std.compare_eq_iff_eq]
  by_cases hsame : e.name = name
  · subst hsame
    rw [if_pos rfl]
    constructor
    · rintro ⟨⟩
      exact ⟨e, if_pos rfl, rfl⟩
    · rintro ⟨entry, hentry, hname'⟩
      split at hentry
      · subst id
        rfl
      · have := (h.indexed e.name id).2 ⟨entry, hentry, hname'⟩
        exact absurd (Std.ExtTreeMap.mem_iff_isSome_getElem?.2 (by rw [this]; rfl)) hname
  · rw [if_neg hsame, h.indexed]
    refine exists_congr fun entry => and_congr_left ?_
    rintro rfl
    split
    · subst id
      rw [hfree]
      exact iff_of_false nofun fun he => hsame (congrArg _ (Option.some.inj he))
    · rfl

/-- The names of a rule base with one rule less. -/
theorem Sound.indexed_erase {e : RuleEntry} (h : base.Sound defs inst)
    (he : base.rules[e.id]? = some e) (name : String) (id : RuleId) :
    (base.names.erase e.name)[name]? = some id ↔
      ∃ entry, (base.rules.erase e.id)[id]? = some entry ∧ entry.name = name := by
  simp only [Std.ExtTreeMap.getElem?_erase, Std.compare_eq_iff_eq]
  by_cases hid : e.id = id
  · subst hid
    simp only [if_true, reduceCtorEq, false_and, exists_false, iff_false]
    split
    · nofun
    · rename_i hsame
      rw [h.indexed]
      rintro ⟨entry, hentry, rfl⟩
      exact hsame (congrArg _ (Option.some.inj (he.symm.trans hentry)))
  · simp only [if_neg hid]
    split
    · subst name
      refine iff_of_false nofun ?_
      rintro ⟨entry, hentry, hname⟩
      exact hid (h.names he hentry hname.symm)
    · exact h.indexed name id

/-- A rule base stays sound when it changes what is registered under one number,
    and the network houses the rules that are then registered. -/
theorem Sound.update {key : RuleId} {e? : Option RuleEntry} {r? : Option Rule}
    {I? : Option Installation} (h : base.Sound defs inst) (hconfig : base'.config = base.config)
    (hhouses : base'.network.Houses base.config (Function.update inst key I?))
    (hnumbered : base'.Numbered)
    (hrules : ∀ id : RuleId, base'.rules[id]? = if id = key then e? else base.rules[id]?)
    (hindexed : ∀ (name : String) (id : RuleId), base'.names[name]? = some id ↔
      ∃ entry, base'.rules[id]? = some entry ∧ entry.name = name)
    (hsome : ∀ e, e? = some e → e.id = key ∧
      ∃ r I, r? = some r ∧ I? = some I ∧ base'.Registers e r I)
    (hnone : e? = none → r? = none ∧ I? = none) :
    base'.Sound (Function.update defs key r?) (Function.update inst key I?) where
  maker := by
    rw [hconfig]
    exact h.maker
  houses := by
    rw [hconfig]
    exact hhouses
  numbered := hnumbered
  registered {id e} he := by
    rw [hrules] at he
    split at he
    · subst id
      obtain ⟨hid, r, I, hr, hI, hreg⟩ := hsome e he
      rw [Function.update_self, Function.update_self]
      exact ⟨hid, r, I, hr, hI, hreg⟩
    · rename_i hne
      obtain ⟨hid, r, I, hr, hI, hreg⟩ := h.registered he
      rw [Function.update_of_ne hne, Function.update_of_ne hne]
      exact ⟨hid, r, I, hr, hI, hreg.mono hconfig⟩
  unregistered {id} hid := by
    rw [hrules] at hid
    split at hid
    · subst id
      rw [Function.update_self, Function.update_self]
      exact hnone hid
    · rename_i hne
      rw [Function.update_of_ne hne, Function.update_of_ne hne]
      exact h.unregistered hid
  indexed := hindexed

/-! ## Counting rules -/

/-- The numbers of the rules are among the first `n`, counted with 32 bits. -/
def Within (base : RuleBase) (n : Nat) : Prop :=
  ∃ m ≤ n, base.nextRule = m % 2 ^ 32 ∧
    ∀ (id : RuleId) (entry : RuleEntry), base.rules[id]? = some entry → id < m ∧ id < 2 ^ 32

namespace Within
variable {n : Nat}

theorem empty (config : Config) : (RuleBase.empty config).Within 0 :=
  ⟨0, le_rfl, rfl, fun id entry he => by simp at he⟩

variable (hw : base.Within n)
include hw

/-- As long as there are numbers left, the next one is free. -/
theorem unnumbered (hn : n < 2 ^ 32) : base.rules[base.nextRule]? = none := by
  obtain ⟨m, hm, hnext, hrules⟩ := hw
  refine Option.eq_none_iff_forall_ne_some.2 fun entry he => ?_
  have hlt := (hrules _ _ he).1
  rw [hnext, Nat.mod_eq_of_lt (by omega)] at hlt
  exact lt_irrefl _ hlt

theorem lt_word (he : base.rules[id]? = some entry) : id < 2 ^ 32 := by
  obtain ⟨m, -, -, hrules⟩ := hw
  exact (hrules _ _ he).2

/-- The next number may be taken, and rules may go. -/
theorem next (hnext : base'.nextRule = base.nextRule ∨ base'.nextRule = tick base.nextRule)
    (hrules : ∀ (id : RuleId) (entry : RuleEntry), base'.rules[id]? = some entry →
      (∃ entry', base.rules[id]? = some entry') ∨
        id = base.nextRule ∧ base'.nextRule = tick base.nextRule) : base'.Within (n + 1) := by
  obtain ⟨m, hm, hbefore, hlt⟩ := hw
  have hold : ∀ (id : RuleId) (entry : RuleEntry), base.rules[id]? = some entry →
      id < m ∧ id < 2 ^ 32 := hlt
  by_cases hsame : base'.nextRule = tick base.nextRule
  · refine ⟨m + 1, by omega, by rw [hsame, hbefore, tick_eq, Nat.mod_add_mod], fun id entry he => ?_⟩
    obtain ⟨entry', he'⟩ | ⟨rfl, -⟩ := hrules id entry he
    · exact ⟨Nat.lt_succ_of_lt (hold _ _ he').1, (hold _ _ he').2⟩
    · rw [hbefore]
      exact ⟨Nat.lt_succ_of_le (Nat.mod_le _ _), Nat.mod_lt _ (by decide)⟩
  · refine ⟨m, by omega, (hnext.resolve_right hsame).trans hbefore, fun id entry he => ?_⟩
    obtain ⟨entry', he'⟩ | ⟨-, heq⟩ := hrules id entry he
    · exact hold _ _ he'
    · exact absurd heq hsame

/-- Rules may go. -/
theorem fewer (hnext : base'.nextRule = base.nextRule)
    (hrules : ∀ (id : RuleId) (entry : RuleEntry), base'.rules[id]? = some entry →
      ∃ entry', base.rules[id]? = some entry') : base'.Within n := by
  obtain ⟨m, hm, hbefore, hlt⟩ := hw
  refine ⟨m, hm, hnext.trans hbefore, fun id entry he => ?_⟩
  obtain ⟨entry', he'⟩ := hrules id entry he
  exact hlt _ _ he'

theorem mono {n' : Nat} (hn : n ≤ n') : base.Within n' := by
  obtain ⟨m, hm, hrest⟩ := hw
  exact ⟨m, hm.trans hn, hrest⟩

theorem kept (hk : base.Kept base') : base'.Within (n + 1) := by
  refine hw.next ?_ fun id entry he => .inl ⟨entry, ?_⟩
  · obtain ⟨hnext, -⟩ | ⟨hnext, -⟩ := hk.counters
    · exact .inl hnext
    · obtain ⟨p, hbegun⟩ := base.begun_eq
      rw [hbegun] at hnext
      exact .inr hnext
  · rw [hk.rest] at he
    exact he

end Within

/-! ## Compiled rules -/

section Compiled
variable {r : Rule} {b : Blueprint} {built : Session.Built} {I : Installation}

theorem Compiled.rest (hc : base.Compiled r b built I base') :
    base'.config = base.config ∧ base'.nextRule = tick base.nextRule := by
  obtain ⟨p, hbegun⟩ := base.begun_eq
  obtain ⟨w, hruns, -, -, hbase'⟩ := hc.served
  obtain ⟨net, ids, hw⟩ := hruns.base_eq
  have hw : w.base = { base.begun.2 with network := net, ids } := hw
  rw [hbegun] at hw
  rw [hbase', hw]
  exact ⟨rfl, rfl⟩

variable (h : base.Sound defs inst) (hc : base.Compiled r b built I base')
include h hc

/-- The rule was built on a sound site. -/
theorem Compiled.site_sound : Site.Sound ⟨base.begun.2, []⟩ inst base.nextRule .empty :=
  h.site hc.unnumbered

theorem Compiled.ruleNamed?_eq_none : base.ruleNamed? r.name = none :=
  h.not_mem_names_iff.1 hc.unnamed

/-- The network houses the new rule as well. -/
theorem Compiled.houses : base'.network.Houses base.config
    (Function.update inst base.nextRule (some I)) ∧ base'.Numbered := by
  obtain ⟨w, hruns, -, -, hbase'⟩ := hc.served
  have hsite := hruns.sound (hc.site_sound h)
  have hconfig : w.base.config = base.config := by
    rw [← hc.rest.1, hbase']
  rw [hbase']
  exact ⟨hconfig ▸ hsite.houses, hsite.numbered.valid, hsite.numbered.live⟩

/-- The new rule demands of its nodes what it asked for. -/
theorem Compiled.heeds (hh : base.network.Heeds inst) :
    base'.network.Heeds (Function.update inst base.nextRule (some I)) := by
  obtain ⟨w, hruns, -, -, hbase'⟩ := hc.served
  obtain ⟨p, hbegun⟩ := base.begun_eq
  have hstart : base.begun.2.network.Heeds (Function.update inst base.nextRule (some .empty)) := by
    rw [hbegun]
    exact hh.start (h.unregistered hc.unnumbered).2
  rw [hbase']
  exact hruns.heeds (hc.site_sound h) hstart

/-- The rule is registered under the next number. -/
theorem Compiled.exists_entry (hb : r.blueprint base.config = .ok b) : ∃ entry : RuleEntry,
    entry.id = base.nextRule ∧ base'.Registers entry r I ∧
      base'.rules = base.rules.insert entry.id entry ∧
      base'.names = base.names.insert entry.name entry.id := by
  obtain ⟨hconfig, -⟩ := hc.rest
  obtain ⟨w, hruns, -, -, hbase'⟩ := hc.served
  have hsite := hruns.sound (hc.site_sound h)
  refine ⟨⟨base.nextRule, r.name, r.isQuery, base.begun.1, w.attached.map (·.id)⟩, rfl,
    ⟨rfl, rfl, hsite.recorded, b, hconfig ▸ hb, hc.steps⟩, ?_, ?_⟩ <;>
  rw [hbase']

omit hc in
/-- **A rule base is sound after a rule has been compiled into it.** -/
theorem Sound.compiled (hb : r.blueprint base.config = .ok b) (hc : base.Compiled r b built I base') :
    base'.Sound (Function.update defs base.nextRule (some r))
      (Function.update inst base.nextRule (some I)) := by
  obtain ⟨hhouses, hnumbered⟩ := hc.houses h
  obtain ⟨entry, hid, hreg, hrules, hnames⟩ := hc.exists_entry h hb
  have hlook (id : RuleId) :
      base'.rules[id]? = if id = base.nextRule then some entry else base.rules[id]? := by
    rw [hrules, hid]
    simp only [Std.ExtTreeMap.getElem?_insert, Std.compare_eq_iff_eq, eq_comm (a := base.nextRule)]
  refine h.update hc.rest.1 hhouses hnumbered hlook (fun name id => ?_) ?_ nofun
  · rw [hrules, hnames]
    exact h.indexed_insert (hreg.name ▸ hc.unnamed) (hid ▸ hc.unnumbered) name id
  · rintro _ ⟨⟩
    exact ⟨hid, r, I, rfl, rfl, hreg⟩

omit h hc in
theorem Within.compiled {n : Nat} (hw : base.Within n) (hc : base.Compiled r b built I base') :
    base'.Within (n + 1) := by
  refine hw.next (.inr hc.rest.2) fun id entry he => ?_
  obtain ⟨w, -, -, -, hbase'⟩ := hc.served
  rw [hbase'] at he
  simp only [Std.ExtTreeMap.getElem?_insert, Std.compare_eq_iff_eq] at he
  split at he
  · exact .inr ⟨‹_ = id›.symm, hc.rest.2⟩
  · exact .inl ⟨entry, he⟩

end Compiled

end RuleBase

end RuleNet
