/-
  RuleNet — numbers for rules that come round again.

  A rule that is refused as soon as it has been begun takes a number, and leaves
  all else as it was (`add_vain`).  Refusing rules often enough brings the counter
  to whatever number it is wanted at (`Library.Reachable.next_rule`), also to that
  of a registered rule.
-/
import RuleNet.Proofs.History

namespace RuleNet

/-- A rule that is refused as soon as it has been begun: its disjunction has no
    alternatives. -/
def Rule.vain (name : String) : Rule where
  name
  body := ⟨.or, []⟩

/-! ## Counting with 32 bits -/

theorem iterate_tick {m : Nat} (hm : m < 2 ^ 32) (n : Nat) : tick^[n] m = (m + n) % 2 ^ 32 := by
  induction n with
  | zero => exact (Nat.mod_eq_of_lt hm).symm
  | succ n ih => rw [Function.iterate_succ_apply', ih, tick_eq, Nat.mod_add_mod, Nat.add_assoc]

/-- Whatever number the counter is at, it comes to any other one. -/
theorem exists_iterate_tick {m k : Nat} (hm : m < 2 ^ 32) (hk : k < 2 ^ 32) :
    ∃ n, tick^[n] m = k := by
  refine ⟨k + (2 ^ 32 - m), ?_⟩
  rw [iterate_tick hm]
  omega

/-! ## Rules that are refused at once -/

namespace RuleBase

variable {base : RuleBase} {defs : RuleId → Option Rule} {inst : RuleId → Option Installation}
variable {name : String}

/-- A rule that is refused at once takes its number and its partition, and leaves
    all else as it was. -/
theorem add_vain (h : base.Sound defs inst) (hfree : base.ruleNamed? name = none) :
    (base.add (.vain name)).base = base.begun.2 := by
  have hbegin := h.idle.beginRule_ok (r := .vain name) (h.not_mem_names_iff.2 hfree)
  have hattach : Session.attachRule (.vain name) ((Session.start base).begun (.vain name)) =
      .error (.unexpectedElement .emptyOr) ((Session.start base).begun (.vain name)) := rfl
  obtain ⟨u, hundone, hbase⟩ := Session.orUndone_error base.nextRule hattach
  have hcompile : Session.compile (.vain name) (Session.start base) =
      .error ⟨.unexpectedElement .emptyOr, some ((Session.start base).begun (.vain name)).place⟩ u :=
    (Session.bind_ok (Session.placeless_ok hbegin)).trans (Session.bind_error hundone)
  rw [add, hcompile]
  exact hbase

theorem begun_of_not_partitioning (hp : ¬ base.config.partitioning) :
    base.begun.2 = { base with nextRule := tick base.nextRule } := by
  rw [begun, assignPartition, if_neg hp]

end RuleBase

namespace Library

variable {l : Library} {inst : RuleId → Option Installation} {name : String}

/-- The library whose next rule gets the number `k`. -/
def counting (l : Library) (k : RuleId) : Library :=
  { l with base := { l.base with nextRule := k } }

theorem Sound.after_vain (h : l.Sound inst) (hp : ¬ l.base.config.partitioning)
    (hfree : l.base.ruleNamed? name = none) :
    l.after (.add (.vain name)) = l.counting (tick l.base.nextRule) := by
  have hbase : (Command.add (.vain name)).run l.base =
      { l.base with nextRule := tick l.base.nextRule } := by
    rw [Command.run, RuleBase.add_vain h hfree, RuleBase.begun_of_not_partitioning hp]
  rw [Library.after, hbase, counting]
  congr 1
  funext id
  change (l.base.rules[id]?).bind _ = _
  cases he : l.base.rules[id]? with
  | none => exact (RuleBase.Sound.unregistered h he).1.symm
  | some entry => exact (h.known he _).symm

theorem Reachable.nextRule_lt (h : l.Reachable) : l.base.nextRule < 2 ^ 32 := by
  obtain ⟨n, hn⟩ := h.exists_count
  obtain ⟨m, -, hnext, -⟩ := hn.base.within
  rw [hnext]
  exact Nat.mod_lt _ (by decide)

/-- **Any number may be that of the next rule**, whatever rules are registered. -/
theorem Reachable.counting (h : l.Reachable) (hp : ¬ l.base.config.partitioning)
    (hfree : l.base.ruleNamed? name = none) {k : RuleId} (hk : k < 2 ^ 32) :
    (l.counting k).Reachable := by
  obtain ⟨n, rfl⟩ := exists_iterate_tick h.nextRule_lt hk
  clear hk
  induction n with
  | zero => exact h
  | succ n ih =>
    obtain ⟨inst, hs⟩ := ih.sound
    have hnext := ih.step (.add (.vain name))
    rw [hs.after_vain hp hfree] at hnext
    rw [Function.iterate_succ_apply']
    exact hnext

/-- The library after some commands, the next rule getting the number 0. -/
def recounted (config : Config) (cs : List Command) : Library :=
  (cs.foldl Library.after (.empty config)).counting 0

theorem reachable_recounted {config : Config} (plain : config.maker = .plain) (cs : List Command)
    (hp : ¬ (recounted config cs).base.config.partitioning)
    (hfree : (recounted config cs).base.ruleNamed? name = none) : (recounted config cs).Reachable :=
  (reachableBy_foldl plain cs).reachable.counting hp hfree (by decide)

end Library

/-- A rule about an event that follows another one in time. -/
def Rule.following (name : String) (most : Int) : Rule where
  name
  body := ⟨.and, [.pattern { offset := 0, type := 2, event := true },
    .pattern { offset := 1, type := 3, event := true, timeTests := [⟨.after 0 most, 0⟩] }]⟩

end RuleNet
