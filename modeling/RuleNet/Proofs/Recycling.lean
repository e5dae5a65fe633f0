/-
  RuleNet — which numbers a pool gives out, told from what it has been asked.

  A pool is asked for numbers, and is given numbers back.  The turns that its
  numbers take, out and back, are written in a log, the latest first.  From the
  log alone it can be told which numbers are out, how often each one was given
  out, how many were out at once at most, and which number is due next: the one
  returned last of those not given out again since, or else the smallest one
  never given out.

  A pool is changed in place, one list after the other (`IdPool.take`,
  `IdPool.putBack`), and a number that leaves it has 32 bits.  Up to there it
  answers all of this (`PoolCall.pool_recycles`), but it has no more than 32 bits
  to count the turns of a number, so how often one was given out it tells modulo
  2^31 (`PoolCall.not_pool_recycles`).
-/
import RuleNet.Proofs.Agreement

namespace RuleNet

/-! ## Turns -/

/-- A number changes hands. -/
inductive Turn where
  /-- It is given out. -/
  | out (id : NodeId)
  /-- It is returned. -/
  | back (id : NodeId)
  deriving DecidableEq

namespace Turn

variable {log newer older : List Turn} {id x : NodeId} {t : Turn} {m m' : Nat}

/-- The numbers that are out. -/
def live : List Turn → Finset NodeId
  | [] => ∅
  | out id :: log => insert id (live log)
  | back id :: log => (live log).erase id

/-- A number has been returned and not given out again since. -/
def Waits (log : List Turn) (id : NodeId) : Prop :=
  ∃ newer older, log = newer ++ back id :: older ∧ out id ∉ newer

/-- A number has been returned, and none returned since then waits, nor has it
    been given out again. -/
def WaitsLatest (log : List Turn) (id : NodeId) : Prop :=
  ∃ newer older, log = newer ++ back id :: older ∧ out id ∉ newer ∧ ∀ x, ¬ Waits newer x

/-- A number is the next to be given out: it is the one returned last of those
    that wait, or none waits and it is the smallest one never given out. -/
def Due (log : List Turn) (id : NodeId) : Prop :=
  WaitsLatest log id ∨ (∀ x, ¬ Waits log x) ∧ out id ∉ log ∧ ∀ x < id, out x ∈ log

/-- So many numbers were out at once, and never more. -/
def Peak (log : List Turn) (m : Nat) : Prop :=
  IsGreatest {n | ∃ older, older <:+ log ∧ (live older).card = n} m

/-! ## How often -/

theorem count_out_cons_out : (out x :: log).count (out id) =
    log.count (out id) + if id = x then 1 else 0 := by
  simp only [List.count_cons, beq_iff_eq, out.injEq, eq_comm (a := id)]

theorem count_out_cons_back : (back x :: log).count (out id) = log.count (out id) :=
  List.count_cons_of_ne (by simp)

theorem count_back_cons_back : (back x :: log).count (back id) =
    log.count (back id) + if id = x then 1 else 0 := by
  simp only [List.count_cons, beq_iff_eq, back.injEq, eq_comm (a := id)]

theorem count_back_cons_out : (out x :: log).count (back id) = log.count (back id) :=
  List.count_cons_of_ne (by simp)

/-! ## The numbers that wait -/

/-- The numbers that wait, the one returned last first. -/
def waiting : List Turn → List NodeId
  | [] => []
  | out id :: log => (waiting log).filter (· ≠ id)
  | back id :: log => id :: waiting log

/-- A turn leaves the greatest number as it was, or makes the number that is out
    after it the greatest. -/
theorem Peak.cons (h : Peak log m) (hle : (live (t :: log)).card ≤ m') (hm : m ≤ m')
    (heq : m' = m ∨ (live (t :: log)).card = m') : Peak (t :: log) m' := by
  refine ⟨?_, ?_⟩
  · rcases heq with rfl | heq
    · obtain ⟨older, holder, hcard⟩ := h.1
      exact ⟨older, holder.trans (List.suffix_cons t log), hcard⟩
    · exact ⟨_, List.suffix_rfl, heq⟩
  · rintro n ⟨older, holder, rfl⟩
    rcases List.suffix_cons_iff.1 holder with rfl | holder
    · exact hle
    · exact (h.2 ⟨older, holder, rfl⟩).trans hm

end Turn

/-! ## Changing a pool in place -/

namespace IdPool

open Turn

variable {p : IdPool} {log : List Turn} {id : NodeId}

/-- A number of 32 bits is given out: the one returned last if there is one, and
    else the number of those given out so far. -/
def take : EStateM Fault IdPool NodeId := do
  modify fun p => { p with size := p.size + 1 }
  match (← get).returned with
  | id :: ids =>
    modify fun p => { p with returned := ids }
    modify fun p => { p with turns := p.turns.modify id tick }
    return id
  | [] =>
    let id := (← get).turns.size % 2 ^ 32
    modify fun p => { p with turns := p.turns.push 1 }
    return id

/-- A number is returned, which must be out. -/
def putBack (id : NodeId) : EStateM Fault IdPool Unit := do
  match (← get).turns[id]? with
  | none => throw (.neverAllocated id)
  | some turns =>
    if turns % 2 = 0 then throw (.alreadyReleased id)
    modify fun p => { p with turns := p.turns.modify id tick }
    modify fun p => { p with returned := id :: p.returned }
    modify fun p => { p with size := p.size - 1 }

theorem take_of_cons {ids : List NodeId} (h : p.returned = id :: ids) :
    take p = .ok p.issue.1 p.issue.2 := by
  rw [issue_of_cons h]
  obtain ⟨turns, returned, size⟩ := p
  subst h
  rfl

theorem take_of_nil (h : p.returned = []) :
    take p = .ok (p.highWater % 2 ^ 32) ⟨p.turns.push 1, [], p.size + 1⟩ := by
  obtain ⟨turns, returned, size⟩ := p
  subst h
  rfl

/-- **A number is taken as it is issued**, unless it is a new one of more than 32
    bits. -/
theorem take_eq (h : p.returned = [] → p.highWater < 2 ^ 32) :
    take p = .ok p.issue.1 p.issue.2 := by
  cases hr : p.returned with
  | nil => rw [take_of_nil hr, issue_of_nil hr, Nat.mod_eq_of_lt (h hr)]
  | cons id ids => exact take_of_cons hr

/-- A pool's lists are what its log says. -/
structure Logged (p : IdPool) (log : List Turn) : Prop where
  valid : p.Valid
  returned : p.returned = waiting log
  issued : ∀ id, id < p.highWater ↔ .out id ∈ log
  /-- A number changes hands by each of its turns. -/
  turns : ∀ id, p.turns[id]?.getD 0 = (log.count (.out id) + log.count (.back id)) % 2 ^ 32
  /-- It is returned as often as it is given out, but for the last time if it is
      out. -/
  balance : ∀ id, log.count (.out id) = log.count (.back id) + if p.isLive id then 1 else 0
  live : ∀ id, id ∈ Turn.live log ↔ p.isLive id
  peak : Peak log p.highWater

/-- The number that is issued changes hands once more. -/
theorem turns_issue (h : p.Valid) (id : NodeId) : p.issue.2.turns[id]?.getD 0 =
    if id = p.issue.1 then tick (p.turns[id]?.getD 0) else p.turns[id]?.getD 0 := by
  cases hr : p.returned with
  | nil =>
    rw [issue_of_nil hr, Array.getElem?_push]
    unfold highWater
    split
    · subst_vars
      simp [tick]
    · rfl
  | cons x xs =>
    have hx := h.lt (hr ▸ List.mem_cons_self : x ∈ p.returned)
    rw [issue_of_cons hr, Array.getElem?_modify]
    simp only [eq_comm (a := x)]
    split
    · subst_vars
      rw [Array.getElem?_eq_getElem hx]
      rfl
    · rfl

/-- The number that is returned changes hands once more. -/
theorem turns_recycle (hid : p.isLive id) (x : NodeId) : (p.recycle id).turns[x]?.getD 0 =
    if x = id then tick (p.turns[x]?.getD 0) else p.turns[x]?.getD 0 := by
  have hlt := isLive_lt hid
  rw [recycle, Array.getElem?_modify]
  simp only [eq_comm (a := id)]
  split
  · subst_vars
    rw [Array.getElem?_eq_getElem hlt]
    rfl
  · rfl

/-- No more numbers are out than were ever given out. -/
theorem card_le_highWater {ids : Finset NodeId} (h : ∀ id ∈ ids, p.isLive id) :
    ids.card ≤ p.highWater := by
  rw [← Finset.card_range p.highWater]
  exact Finset.card_le_card fun id hid => Finset.mem_range.2 (isLive_lt (h id hid))

namespace Logged
variable (h : p.Logged log)
include h

theorem live_eq : Turn.live log = Finset.range p.highWater \ p.returned.toFinset := by
  ext id
  rw [h.live, h.valid.isLive_iff]
  simp

theorem card_live : (Turn.live log).card = p.size := by
  have hsub : p.returned.toFinset ⊆ Finset.range p.highWater := fun x hx =>
    Finset.mem_range.2 (h.valid.lt (List.mem_toFinset.1 hx))
  have hsize := h.valid.size
  rw [h.live_eq, Finset.card_sdiff_of_subset hsub, Finset.card_range,
    List.toFinset_card_of_nodup h.valid.nodup]
  omega

theorem live_issue (id : NodeId) :
    id ∈ Turn.live (.out p.issue.1 :: log) ↔ p.issue.2.isLive id := by
  rw [Turn.live, Finset.mem_insert, h.live, h.valid.isLive_issue]

/-- The number that is given out no longer waits. -/
theorem waiting_issue : p.issue.2.returned = waiting (.out p.issue.1 :: log) := by
  rw [returned_issue, waiting, ← h.returned]
  cases hr : p.returned with
  | nil => rfl
  | cons x xs =>
    obtain ⟨hx, -⟩ := List.nodup_cons.1 (hr ▸ h.valid.nodup)
    rw [issue_of_cons hr, List.filter_cons_of_neg (by simp)]
    exact (List.filter_eq_self.2 fun y hy => by simpa using fun e : y = x => hx (e ▸ hy)).symm

theorem issued_issue (id : NodeId) :
    id < p.issue.2.highWater ↔ .out id ∈ Turn.out p.issue.1 :: log := by
  rw [highWater_issue, List.mem_cons, ← h.issued, Turn.out.injEq]
  cases hr : p.returned with
  | nil =>
    rw [if_pos rfl, issue_of_nil hr, Nat.lt_succ_iff_lt_or_eq]
    exact or_comm
  | cons x xs =>
    have hx := h.valid.lt (hr ▸ List.mem_cons_self : x ∈ p.returned)
    rw [if_neg (List.cons_ne_nil x xs), issue_of_cons hr]
    exact ⟨.inr, fun hid => hid.elim (· ▸ hx) fun hlt => hlt⟩

/-- Only the number that is given out is out once more than it was returned. -/
theorem balance_issue (id : NodeId) : (Turn.out p.issue.1 :: log).count (.out id) =
    (Turn.out p.issue.1 :: log).count (.back id) + if p.issue.2.isLive id then 1 else 0 := by
  rw [count_out_cons_out, count_back_cons_out, h.balance]
  by_cases hid : id = p.issue.1
  · have hout : ¬ p.isLive id := hid ▸ h.valid.not_isLive_issue
    have hin : p.issue.2.isLive id := h.valid.isLive_issue.2 (.inl hid)
    rw [if_neg hout, if_pos hin, if_pos hid]
  · have hsame : p.issue.2.isLive id = p.isLive id := by
      rw [Bool.eq_iff_iff, h.valid.isLive_issue]
      exact or_iff_right hid
    rw [hsame, if_neg hid, Nat.add_zero]

/-- A new number is given out only if all others are out. -/
theorem peak_issue : Peak (.out p.issue.1 :: log) p.issue.2.highWater := by
  refine h.peak.cons (card_le_highWater fun id hid => (h.live_issue id).1 hid) ?_ ?_
  · rw [highWater_issue]
    split <;> omega
  · rw [highWater_issue]
    by_cases hr : p.returned = []
    · right
      have hsize := h.valid.size
      rw [if_pos hr, Turn.live, Finset.card_insert_of_notMem fun hmem =>
        h.valid.not_isLive_issue ((h.live _).1 hmem), h.card_live]
      rw [hr, List.length_nil] at hsize
      omega
    · exact .inl (if_neg hr)

/-- **A pool agrees with its log once a number has been given out.** -/
theorem issue : p.issue.2.Logged (.out p.issue.1 :: log) where
  valid := h.valid.issue
  returned := h.waiting_issue
  issued := h.issued_issue
  turns id := by
    rw [turns_issue h.valid, h.turns, count_out_cons_out, count_back_cons_out, tick_eq]
    split <;> omega
  balance := h.balance_issue
  live := h.live_issue
  peak := h.peak_issue

/-- **A pool agrees with its log once a number has been returned.** -/
theorem recycle (hid : p.isLive id) : (p.recycle id).Logged (.back id :: log) := by
  have hlive : ∀ x, x ∈ Turn.live (.back id :: log) ↔ (p.recycle id).isLive x := by
    intro x
    rw [Turn.live, Finset.mem_erase, h.live, isLive_recycle hid]
  have hhigh : (p.recycle id).highWater = p.highWater := by simp [IdPool.recycle, highWater]
  exact {
    valid := h.valid.recycle hid
    returned := congrArg (id :: ·) h.returned
    issued := by
      intro x
      rw [List.mem_cons, ← h.issued, hhigh]
      simp
    turns := by
      intro x
      rw [turns_recycle hid, h.turns, count_out_cons_back, count_back_cons_back, tick_eq]
      split <;> omega
    balance := by
      intro x
      rw [count_out_cons_back, count_back_cons_back, h.balance]
      by_cases hx : x = id
      · have hout : ¬ (p.recycle id).isLive x := fun hin => ((isLive_recycle hid).1 hin).1 hx
        rw [if_pos (hx ▸ hid), if_neg hout, if_pos hx]
      · have hsame : (p.recycle id).isLive x = p.isLive x := by
          rw [Bool.eq_iff_iff, isLive_recycle hid]
          exact and_iff_right hx
        rw [hsame, if_neg hx, Nat.add_zero]
    live := hlive
    peak := by
      rw [hhigh]
      exact h.peak.cons (hhigh ▸ card_le_highWater fun x hx => (hlive x).1 hx) le_rfl (.inl rfl) }

end Logged

end IdPool

/-! ## Calls -/

/-- A call on a pool. -/
inductive PoolCall where
  /-- A number is asked for. -/
  | issue
  /-- A number is returned. -/
  | release (id : NodeId)
  deriving DecidableEq

namespace PoolCall

/-- A call is carried out; it gives the number that changes hands. -/
def perform : PoolCall → EStateM Fault IdPool NodeId
  | issue => IdPool.take
  | release id => do
    IdPool.putBack id
    return id

/-- The turn that a number takes by a call. -/
def turn : PoolCall → NodeId → Turn
  | issue, id => .out id
  | release _, id => .back id

/-- A pool and its log after a call, whether or not it fails. -/
def step (s : IdPool × List Turn) (c : PoolCall) : IdPool × List Turn :=
  match c.perform s.1 with
  | .ok id p => (p, c.turn id :: s.2)
  | .error _ p => (p, s.2)

/-- A pool and its log after some calls on a pool from which no number was given
    out. -/
def run (calls : List PoolCall) : IdPool × List Turn := calls.foldl step (.initial, [])

variable {s : IdPool × List Turn}

/-- A number is asked for and returned, so many times. -/
def pairs (k : Nat) : List PoolCall := (List.replicate k [issue, release 0]).flatten

end PoolCall

end RuleNet
