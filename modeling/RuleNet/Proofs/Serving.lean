/-
  RuleNet — which nodes do the work of others, and where a search finds them.

  A node that does the work of another one takes the same inputs.  In a wired
  network the search for such a node, which looks at the sinks of a single
  source, misses none (`findServing_eq_none`).
-/
import RuleNet.Network.Reuse
import RuleNet.Proofs.Blueprint
import RuleNet.Proofs.Wiring

namespace RuleNet

/-! ## Weighing -/

namespace JoinTest

variable {ts us : List JoinTest} {g : Bool}

@[simp] theorem weighed_false (ts : List JoinTest) : weighed false ts = ts := by
  simp [weighed]

theorem agree_iff : agree g ts us ↔ weighed g ts = weighed g us := by
  simp [agree]

/-- Tests that agree, agree as well when guards are left out. -/
theorem weighed_true_of_agree (h : agree g ts us) : weighed true ts = weighed true us := by
  rw [agree_iff] at h
  cases g with
  | true => exact h
  | false => rw [weighed_false, weighed_false] at h; rw [h]

end JoinTest

/-! ## Serving -/

namespace NodeKind

variable {k k' : NodeKind} {g : Bool} {i j : Join}

theorem serves_join : (join i).serves g (join j) ↔
    i.kind = j.kind ∧ i.left = j.left ∧ i.right = j.right ∧ i.tupleMemory = j.tupleMemory ∧
      JoinTest.agree g i.tests j.tests := by
  simp [serves, and_assoc]

/-- Only a join does the work of a join; any other node must be equal. -/
theorem serves_cases (h : k.serves g k') :
    k = k' ∨ ∃ i j, k = join i ∧ k' = join j ∧ (join i).serves g (join j) := by
  have h' := h
  unfold serves at h
  split at h
  · exact Or.inr ⟨_, _, rfl, rfl, h'⟩
  · exact Or.inl (by simpa using h)

theorem serves_refl (g : Bool) (k : NodeKind) : k.serves g k := by
  cases k <;> simp [serves, JoinTest.agree]

theorem serves_symm (h : k.serves g k') : k'.serves g k := by
  obtain rfl | ⟨i, j, rfl, rfl, h⟩ := serves_cases h
  · exact h
  · obtain ⟨h₁, h₂, h₃, h₄, h₅⟩ := serves_join.1 h
    exact serves_join.2 ⟨h₁.symm, h₂.symm, h₃.symm, h₄.symm,
      JoinTest.agree_iff.2 (JoinTest.agree_iff.1 h₅).symm⟩

/-- A node that does the work when guards count does it when they do not. -/
theorem serves_of_serves_false (h : k.serves false k') : k.serves g k' := by
  obtain rfl | ⟨i, j, rfl, rfl, h⟩ := serves_cases h
  · exact serves_refl g k
  · obtain ⟨h₁, h₂, h₃, h₄, h₅⟩ := serves_join.1 h
    rw [JoinTest.agree_iff, JoinTest.weighed_false, JoinTest.weighed_false] at h₅
    exact serves_join.2 ⟨h₁, h₂, h₃, h₄, by rw [JoinTest.agree_iff, h₅]⟩

section Serves
variable (h : k.serves g k')
include h

theorem inputs_eq_of_serves : k.inputs = k'.inputs := by
  obtain rfl | ⟨i, j, rfl, rfl, hij⟩ := serves_cases h
  · rfl
  · obtain ⟨-, hleft, hright, -⟩ := serves_join.1 hij
    rw [inputs, inputs, hleft, hright]

theorem sources_eq_of_serves : k.sources = k'.sources := by
  rw [sources_eq_inputs, sources_eq_inputs, inputs_eq_of_serves h]

theorem rootKey?_eq_of_serves : k.rootKey? = k'.rootKey? := by
  obtain rfl | ⟨i, j, rfl, rfl, -⟩ := serves_cases h <;> rfl

theorem parentKey?_eq_of_serves : k.parentKey? = k'.parentKey? := by
  obtain rfl | ⟨i, j, rfl, rfl, -⟩ := serves_cases h <;> rfl

theorem supplies_eq_of_serves (s : Supply) : k.supplies s = k'.supplies s := by
  obtain rfl | ⟨i, j, rfl, rfl, -⟩ := serves_cases h
  · rfl
  · cases s <;> rfl

theorem parentsOf_eq_of_serves (net : Network) : net.parentsOf k = net.parentsOf k' := by
  unfold Network.parentsOf
  rw [sources_eq_of_serves h, parentKey?_eq_of_serves h]

end Serves

theorem exists_source (h : k.rootKey? = none) : ∃ s, k.sources.head? = some s := by
  cases k <;> simp_all [rootKey?, sources]

end NodeKind

/-- Whether nodes of a kind are shared. -/
def Config.shares (config : Config) : NodeKind → Bool
  | .entryPoint _ | .objectType .. => true
  | .alpha .. => config.alphaSharing
  | .leftInput _ | .join _ | .rightInput _ | .queryElement .. => config.betaSharing
  | .terminal .. => false

theorem Config.shares_eq_of_serves (config : Config) {k k' : NodeKind} {g : Bool}
    (h : k.serves g k') : config.shares k = config.shares k' := by
  obtain rfl | ⟨i, j, rfl, rfl, -⟩ := NodeKind.serves_cases h <;> rfl

@[simp] theorem Config.shares_map {config : Config} {k : NodeKind} {f : NodeId → NodeId}
    {g : RuleId → RuleId} : config.shares (k.map f g) = config.shares k := by
  cases k <;> rfl

/-! ## Searching -/

namespace Network

variable {net : Network} {g : Bool} {wanted : NodeKind} {x : NodeId} {m : Node}

/-- The node that is taken into use where one of some kind is wanted. -/
def existing (net : Network) (config : Config) (g : Bool) (wanted : NodeKind) : Option NodeId :=
  match wanted.rootKey? with
  | some key => net.roots[key]?
  | none => if config.shares wanted then net.findServing g wanted else none

theorem existing_of_root {config : Config} {key : RootKey} (h : wanted.rootKey? = some key) :
    net.existing config g wanted = net.roots[key]? := by
  simp only [existing, h]

theorem existing_of_no_root {config : Config} (h : wanted.rootKey? = none) :
    net.existing config g wanted =
      if config.shares wanted then net.findServing g wanted else none := by
  simp only [existing, h]

/-- A search gives the number of a node that does what is wanted. -/
theorem exists_of_findServing
    (hid : ∀ {x : NodeId} {n : Node}, net.nodes[x]? = some n → n.id = x)
    (hx : net.findServing g wanted = some x) :
    ∃ n, net.nodes[x]? = some n ∧ n.kind.serves g wanted := by
  simp only [findServing, Option.bind_eq_bind, Option.bind_eq_some_iff] at hx
  obtain ⟨s, hs, n, hfind, hn⟩ := hx
  have hn : n.id = x := Option.some.inj hn
  have hmem := List.mem_of_find?_eq_some hfind
  have hserves := List.find?_some hfind
  simp only [sinksOf] at hmem
  split at hmem
  · obtain ⟨y, -, hy⟩ := List.mem_filterMap.1 hmem
    exact ⟨n, by rw [← hn, hid hy, hy], hserves⟩
  · exact absurd hmem List.not_mem_nil

/-- A search misses no sink of the first source that does what is wanted. -/
theorem findServing_ne_none {s : NodeId} {p : Node} (hs : wanted.sources.head? = some s)
    (hp : net.nodes[s]? = some p) (hsink : x ∈ p.sinks) (hm : net.nodes[x]? = some m)
    (hserves : m.kind.serves g wanted) : net.findServing g wanted ≠ none := by
  have hmem : m ∈ net.sinksOf s := by
    simp only [sinksOf, hp]
    exact List.mem_filterMap.2 ⟨x, hsink, hm⟩
  simp only [findServing, Option.bind_eq_bind, hs, Option.bind_some]
  cases hfind : (net.sinksOf s).find? fun n => n.kind.serves g wanted with
  | none => exact absurd hserves (List.find?_eq_none.1 hfind m hmem)
  | some n => simp

theorem Wired.findServing_eq_some (h : net.Wired) (hx : net.findServing g wanted = some x) :
    ∃ n, net.nodes[x]? = some n ∧ n.kind.serves g wanted :=
  exists_of_findServing h.id_eq hx

theorem Wired.findServing_eq_none (h : net.Wired) (hnone : net.findServing g wanted = none)
    (hroot : wanted.rootKey? = none) (hm : net.nodes[x]? = some m) : ¬ m.kind.serves g wanted := by
  intro hserves
  obtain ⟨s, hs⟩ := NodeKind.exists_source hroot
  -- the node hangs below the first source of the wanted one, so it is looked at
  have hsrc : s ∈ m.kind.sources := by
    rw [NodeKind.sources_eq_of_serves hserves]
    exact List.mem_of_mem_head? hs
  obtain ⟨p, hp⟩ := h.source hm s hsrc
  have hsink : x ∈ p.sinks := (h.mem_sinks hp x).2 ⟨m, hm, mem_parentsOf.2 (Or.inl hsrc)⟩
  exact findServing_ne_none hs hp hsink hm hserves hnone

end Network

end RuleNet
