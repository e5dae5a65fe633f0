/-
  RuleNet — searches that look at the sinks of one node.

  A node that does the work of another one takes its input from the same first
  source, and under any use of a network a source knows the nodes that take
  input from it.  So a search that looks at the sinks of this source only finds
  something whenever a look through all nodes would (`Call.findServing_scans`).
  Sinks that are gone, or whose number another node has got, do no harm: a node
  is found for what it does, wherever its number was met.
-/
import RuleNet.Proofs.Arena

namespace RuleNet

/-- Only a node of the very same kind does the work of one that is no join. -/
theorem NodeKind.serves_iff_eq {k k' : NodeKind} {g : Bool} (h : ∀ j, k' ≠ .join j) :
    k.serves g k' ↔ k = k' := by
  refine ⟨fun hserves => ?_, fun e => e ▸ serves_refl g k⟩
  obtain rfl | ⟨-, j, -, rfl, -⟩ := serves_cases hserves
  · rfl
  · exact absurd rfl (h j)

namespace Network

variable {net : Network} {g : Bool} {wanted : NodeKind} {found : Option NodeId}

/-- A search gives what a look through all nodes gives: a number just if some
    node is of the kind looked for, and then the number of such a node. -/
structure Scans (net : Network) (found : Option NodeId) (looked : NodeKind → Prop) : Prop where
  isSome_iff : found.isSome ↔ ∃ n ∈ net.toList, looked n.kind
  of_some : ∀ x, found = some x → ∃ n ∈ net.toList, n.id = x ∧ looked n.kind

theorem Scans.congr {p q : NodeKind → Prop} (h : net.Scans found p) (hpq : ∀ k, p k ↔ q k) :
    net.Scans found q := by
  obtain rfl : p = q := funext fun k => propext (hpq k)
  exact h

/-- **In a grounded network a search is as good as a look through all nodes.** -/
theorem Grounded.scans_findServing (h : net.Grounded) (hroot : wanted.rootKey? = none) :
    net.Scans (net.findServing g wanted) fun k => k.serves g wanted := by
  have hfound : ∀ x, net.findServing g wanted = some x →
      ∃ n ∈ net.toList, n.id = x ∧ n.kind.serves g wanted := by
    intro x hx
    obtain ⟨n, hn, hserves⟩ := exists_of_findServing h.id_eq hx
    have hid := h.id_eq hn
    exact ⟨n, h.mem_toList.2 (hid ▸ hn), hid, hserves⟩
  refine ⟨⟨fun hsome => ?_, ?_⟩, hfound⟩
  · obtain ⟨x, hx⟩ := Option.isSome_iff_exists.1 hsome
    obtain ⟨n, hn, -, hserves⟩ := hfound x hx
    exact ⟨n, hn, hserves⟩
  · rintro ⟨n, hn, hserves⟩
    obtain ⟨s, hs⟩ := NodeKind.exists_source hroot
    have hsource : s ∈ n.kind.sources := by
      rw [NodeKind.sources_eq_of_serves hserves]
      exact List.mem_of_mem_head? hs
    -- the source knows the node
    obtain ⟨p, hp, hsink⟩ := h.source (h.mem_toList.1 hn) s hsource
    rw [Option.isSome_iff_ne_none]
    exact findServing_ne_none hs hp hsink (h.mem_toList.1 hn) hserves

end Network

/-- **Whatever calls have been made on a network, looking at the sinks of one node
    finds what a look through all nodes would.**  A filter is found just if there
    is one with the same source and test, an adapter if there is one of its sort
    with the same source, a query element if there is one with the same input,
    query and arguments, and a join if there is one of the same sort with the same
    inputs and memory whose tests are the same, guards left out of both where they
    do not count.  What is found is such a node. -/
theorem Call.findServing_scans (calls : List Call) (guardsOut : Bool) :
    let net := network calls
    (∀ source test, net.Scans (net.findServing guardsOut (.alpha source test))
      (· = .alpha source test)) ∧
    (∀ source, net.Scans (net.findServing guardsOut (.leftInput source)) (· = .leftInput source)) ∧
    (∀ source, net.Scans (net.findServing guardsOut (.rightInput source))
      (· = .rightInput source)) ∧
    (∀ left query arguments,
      net.Scans (net.findServing guardsOut (.queryElement left query arguments))
        (· = .queryElement left query arguments)) ∧
    ∀ j : Join, net.Scans (net.findServing guardsOut (.join j)) fun k =>
      ∃ i : Join, k = .join i ∧ i.kind = j.kind ∧ i.left = j.left ∧ i.right = j.right ∧
        i.tupleMemory = j.tupleMemory ∧
        i.tests.filter (fun t => !(guardsOut && t.isGuard)) =
          j.tests.filter (fun t => !(guardsOut && t.isGuard)) := by
  intro net
  have h : net.Grounded := grounded_network calls
  have hother : ∀ wanted : NodeKind, wanted.rootKey? = none → (∀ j, wanted ≠ .join j) →
      net.Scans (net.findServing guardsOut wanted) (· = wanted) := fun wanted hroot hjoin =>
    (h.scans_findServing hroot).congr fun k => NodeKind.serves_iff_eq hjoin
  refine ⟨fun source test => hother _ rfl (by simp), fun source => hother _ rfl (by simp),
    fun source => hother _ rfl (by simp), fun left query arguments => hother _ rfl (by simp),
    fun j => (h.scans_findServing rfl).congr fun k => ?_⟩
  constructor
  · intro hserves
    obtain rfl | ⟨i, j', rfl, hj, hserves⟩ := NodeKind.serves_cases hserves
    · exact ⟨j, rfl, rfl, rfl, rfl, rfl, rfl⟩
    · cases hj
      obtain ⟨hkind, hleft, hright, hmemory, hagree⟩ := NodeKind.serves_join.1 hserves
      exact ⟨i, rfl, hkind, hleft, hright, hmemory, JoinTest.agree_iff.1 hagree⟩
  · rintro ⟨i, rfl, hkind, hleft, hright, hmemory, htests⟩
    exact NodeKind.serves_join.2 ⟨hkind, hleft, hright, hmemory, JoinTest.agree_iff.2 htests⟩

end RuleNet
