/-
  RuleNet — which of several nodes is chosen.

  Where guards are left out of account, several nodes can do the work of a
  wanted one.  A search takes the first of them in the order in which they
  were attached below the source (`Wired.findServing_eq`).  That order outlasts
  whatever is hung up and taken down (`Evolves`); so a node once chosen is
  chosen for the same work as long as it stays (`Evolves.existing_stays`), and
  a node made because none was found is chosen from then on
  (`Evolves.existing_made`).
-/
import RuleNet.Proofs.Serving

namespace RuleNet

/-- The first element with a property stays the first one with another property
    that no element before it has. -/
theorem find?_eq_some_of_imp {α : Type} {l : List α} {p p' : α → Bool} {a : α}
    (h : l.find? p = some a) (ha : p' a) (himp : ∀ b ∈ l, p' b → p b) : l.find? p' = some a := by
  obtain ⟨-, as, bs, rfl, hbefore⟩ := List.find?_eq_some_iff_append.1 h
  refine List.find?_eq_some_iff_append.2 ⟨ha, as, bs, rfl, fun b hb => ?_⟩
  have hnot := hbefore b hb
  cases hb' : p' b with
  | false => rfl
  | true => rw [himp b (List.mem_append_left _ hb) hb'] at hnot; exact hnot

namespace Network

variable {net net' : Network} {config : Config} {g : Bool} {wanted : NodeKind} {x y s : NodeId}
variable {n m : Node}

/-- Whether the node with a number does the work of a wanted one. -/
def servesAt (net : Network) (g : Bool) (wanted : NodeKind) (x : NodeId) : Bool :=
  net.nodes[x]?.any (·.kind.serves g wanted)

theorem servesAt_iff : net.servesAt g wanted x ↔
    ∃ n, net.nodes[x]? = some n ∧ n.kind.serves g wanted :=
  Option.any_eq_true _ _

/-- **A search takes the first sink of the first source that does the work.** -/
theorem Wired.findServing_eq (h : net.Wired) (hs : wanted.sources.head? = some s)
    (hm : net.nodes[s]? = some m) :
    net.findServing g wanted = m.sinks.find? (net.servesAt g wanted) := by
  simp only [findServing, hs, sinksOf, hm, Option.bind_eq_bind, Option.bind_some,
    List.find?_filterMap]
  -- a sink is kept under its number
  cases hfind : m.sinks.find? (net.servesAt g wanted) with
  | none =>
    have : (m.sinks.find? fun y => net.nodes[y]?.any fun n => n.kind.serves g wanted) = none := hfind
    rw [this]
    rfl
  | some y =>
    have : (m.sinks.find? fun y => net.nodes[y]?.any fun n => n.kind.serves g wanted) = some y :=
      hfind
    obtain ⟨n, hn, -⟩ := servesAt_iff.1 (List.find?_some hfind)
    rw [this, Option.bind_some, hn, Option.bind_some, h.id_eq hn]
    rfl

/-! ## What outlasts changes -/

/-- What becomes of a network when nodes are hung up in it and taken down: a
    node that stays does the same, and keeps the order of its sinks, new ones
    coming last. -/
structure Evolves (net net' : Network) : Prop where
  wired : net.Wired
  wired' : net'.Wired
  kind : ∀ {x : NodeId} {n n' : Node}, net.nodes[x]? = some n → net'.nodes[x]? = some n' →
    n'.kind = n.kind
  sinks : ∀ {x : NodeId} {n n' : Node}, net.nodes[x]? = some n → net'.nodes[x]? = some n' →
    ∃ (keep : NodeId → Bool) (new : List NodeId), n'.sinks = n.sinks.filter keep ++ new ∧
      ∀ y ∈ new, net.nodes[y]? = none

theorem Wired.evolves_self (h : net.Wired) : net.Evolves net where
  wired := h
  wired' := h
  kind hn hn' := by rw [Option.some.inj (hn.symm.trans hn')]
  sinks {x n n'} hn hn' := by
    obtain rfl : n = n' := Option.some.inj (hn.symm.trans hn')
    exact ⟨fun _ => true, [], by simp, by simp⟩

/-- Hanging up a node puts it last among the sinks of its parents. -/
theorem Wired.evolves_link (h : net.Wired) (hf : net.Fits n) : net.Evolves (net.link n) where
  wired := h
  wired' := h.link hf
  kind {x m m'} hm hm' := by
    obtain ⟨k, hk, hkind⟩ := hf.exists_link hm
    rw [Option.some.inj (hm'.symm.trans hk), hkind]
  sinks {x m m'} hm hm' := by
    obtain ⟨rfl, -⟩ | ⟨m₀, hm₀, -, -, rfl⟩ := hf.link_cases hm'
    · rw [hf.fresh] at hm
      cases hm
    obtain rfl : m = m₀ := Option.some.inj (hm.symm.trans hm₀)
    split
    · exact ⟨fun _ => true, [n.id], by simp [Node.addSink], by simpa using hf.fresh⟩
    · exact ⟨fun _ => true, [], by simp, by simp⟩

/-- What is written on a node besides does not matter. -/
theorem Evolves.modify (h : net.Evolves net') {f : Node → Node}
    (hf : ∀ n, (f n).id = n.id ∧ (f n).kind = n.kind ∧ (f n).sinks = n.sinks) (id : NodeId) :
    net.Evolves (net'.modify id f) where
  wired := h.wired
  wired' := h.wired'.modify hf
  kind {x n n'} hn hn' := by
    obtain ⟨n₀, h₀, -, hkind, -⟩ := modify_cases hf hn'
    rw [hkind, h.kind hn h₀]
  sinks {x n n'} hn hn' := by
    obtain ⟨n₀, h₀, -, -, hsinks⟩ := modify_cases hf hn'
    rw [hsinks]
    exact h.sinks hn h₀

/-- A node that is taken into use where one is wanted does the work, unless it
    is a root, of which there is one at an address. -/
theorem Wired.existing_servesAt (h : net.Wired) (hroot : wanted.rootKey? = none)
    (hx : net.existing config g wanted = some x) : config.shares wanted ∧ net.servesAt g wanted x := by
  rw [existing_of_no_root hroot] at hx
  split at hx
  · exact ⟨‹_›, servesAt_iff.2 (h.findServing_eq_some hx)⟩
  · cases hx

namespace Evolves
variable (h : net.Evolves net')
include h

theorem servesAt_eq (hn : net.nodes[x]? = some n) {n' : Node} (hn' : net'.nodes[x]? = some n') :
    net'.servesAt g wanted x = net.servesAt g wanted x := by
  rw [servesAt, servesAt, hn, hn', Option.any_some, Option.any_some, h.kind hn hn']

/-- **A node that was chosen is chosen as long as it stays.** -/
theorem existing_stays (hx : net.existing config g wanted = some x) {n' : Node}
    (hn' : net'.nodes[x]? = some n') : net'.existing config g wanted = some x := by
  cases hroot : wanted.rootKey? with
  | some key =>
    rw [existing_of_root hroot] at hx ⊢
    obtain ⟨n, hn, hkey⟩ := h.wired.roots_iff.1 hx
    exact h.wired'.roots_iff.2 ⟨n', hn', by rw [h.kind hn hn', hkey]⟩
  | none =>
    obtain ⟨hshares, hserves⟩ := h.wired.existing_servesAt hroot hx
    rw [existing_of_no_root hroot, if_pos hshares] at hx ⊢
    obtain ⟨n, hn, hserves⟩ := servesAt_iff.1 hserves
    obtain ⟨s, hs⟩ := NodeKind.exists_source hroot
    -- the source is the one of the node that stays, and so it stays as well
    have hsrc : s ∈ n'.kind.sources := by
      rw [h.kind hn hn', NodeKind.sources_eq_of_serves hserves]
      exact List.mem_of_mem_head? hs
    obtain ⟨m', hm'⟩ := h.wired'.source hn' s hsrc
    obtain ⟨m, hm⟩ := h.wired.source hn s (h.kind hn hn' ▸ hsrc)
    obtain ⟨keep, new, hsinks, hnew⟩ := h.sinks hm hm'
    have hmem : x ∈ m.sinks.filter keep := by
      have := (h.wired'.mem_sinks hm' x).2 ⟨n', hn', mem_parentsOf.2 (Or.inl hsrc)⟩
      rw [hsinks, List.mem_append] at this
      refine this.resolve_right fun hxnew => ?_
      rw [hnew x hxnew] at hn
      cases hn
    rw [h.wired.findServing_eq hs hm] at hx
    rw [h.wired'.findServing_eq hs hm', hsinks, List.find?_append, List.find?_filter]
    refine Option.or_eq_some_iff.2 (Or.inl (find?_eq_some_of_imp hx ?_ fun y hy hy' => ?_))
    · rw [decide_eq_true_eq]
      exact ⟨(List.mem_filter.1 hmem).2, (h.servesAt_eq hn hn').trans (List.find?_some hx)⟩
    · obtain ⟨-, hy'⟩ := of_decide_eq_true hy'
      obtain ⟨k', hk', -⟩ := servesAt_iff.1 hy'
      obtain ⟨k, hk⟩ := h.wired.sink_mem hm hy
      rwa [h.servesAt_eq hk hk'] at hy'

/-- **A node that was made because none was found is chosen from then on.** -/
theorem existing_made (hshares : config.shares wanted)
    (hnone : net.existing config g wanted = none) {n' : Node} (hn' : net'.nodes[x]? = some n')
    (hkind : n'.kind = wanted)
    (honly : ∀ y n, net'.nodes[y]? = some n → y ≠ x → ∃ m, net.nodes[y]? = some m) :
    net'.existing config g wanted = some x := by
  cases hroot : wanted.rootKey? with
  | some key =>
    rw [existing_of_root hroot]
    exact h.wired'.roots_iff.2 ⟨n', hn', by rw [hkind, hroot]⟩
  | none =>
    rw [existing_of_no_root hroot, if_pos hshares] at hnone ⊢
    cases hfind : net'.findServing g wanted with
    | none =>
      exact absurd (hkind ▸ NodeKind.serves_refl g n'.kind)
        (h.wired'.findServing_eq_none hfind hroot hn')
    | some y =>
      -- any node that was there before would have been found
      obtain ⟨k', hk', hserves⟩ := h.wired'.findServing_eq_some hfind
      by_contra hne
      obtain ⟨k, hk⟩ := honly y k' hk' fun heq => hne (by rw [heq])
      rw [h.kind hk hk'] at hserves
      exact h.wired.findServing_eq_none hnone hroot hk hserves

end Evolves

end Network

end RuleNet
