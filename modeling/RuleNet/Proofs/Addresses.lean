/-
  RuleNet — what is found under an address, under any use of a network.

  Whatever calls are made on a network, an address never names a node that is
  gone: removing a root gives up its address (`Tidy.root`).  The converse needs
  more.  Nothing keeps a caller from putting a second root under an address that
  has one; the second one is found from then on.  When either of them is
  removed the address is given up, and the other one is no longer found; and the
  types that were hung below the first root of an entry point stay among its
  sinks when they are removed, because the second root is the one that forgets
  them.

  Both is the case only after such a second root.  As long as an address is
  `Single`, a root is found under it just if there is one; as long as that of an
  entry point is, the sinks of its root are there.  The sinks of all other nodes
  always are (`Call.addresses_exact`).
-/
import RuleNet.Proofs.Arena
import RuleNet.Proofs.Slots

namespace RuleNet

/-! ## Addresses of roots -/

namespace NodeKind

variable {k k' : NodeKind} {key : RootKey} {entry : EntryPoint} {type : Symbol}

theorem rootKey?_eq_entryPoint : k.rootKey? = some ⟨entry, none⟩ ↔ k = .entryPoint entry := by
  cases k <;> simp [rootKey?]

theorem rootKey?_eq_objectType :
    k.rootKey? = some ⟨entry, some type⟩ ↔ ∃ memory, k = .objectType entry type memory := by
  cases k <;> simp [rootKey?]

/-- Only the roots of entry points are found as parents. -/
theorem entryPoint_of_parent (hparent : k.parentKey? = some key) (hroot : k'.rootKey? = some key) :
    ∃ entry, k' = .entryPoint entry ∧ key = ⟨entry, none⟩ := by
  cases k <;> cases hparent
  exact ⟨_, rootKey?_eq_entryPoint.1 hroot, rfl⟩

end NodeKind

/-! ## What nodes do after a change -/

namespace Network

variable {net : Network} {n : Node}

theorem kinds_link (net : Network) (n : Node) (x : NodeId) :
    (net.link n).kinds x = if x = n.id then some n.kind else net.kinds x := by
  unfold kinds
  rw [getElem?_link]
  split
  · rfl
  · rw [Option.map_map]
    exact congrArg (Option.map · _) (funext fun m => Node.iterate_eq m _ Node.kind fun _ => rfl)

theorem kinds_unlink (net : Network) (n : Node) (x : NodeId) :
    (net.unlink n).kinds x = if x = n.id then none else net.kinds x := by
  unfold kinds
  rw [getElem?_unlink]
  split
  · rfl
  · rw [Option.map_map]
    exact congrArg (Option.map · _) (funext fun m => Node.iterate_eq m _ Node.kind fun _ => rfl)

end Network

/-! ## Calls that keep to one root -/

namespace Call

/-- A call puts a root in place under an address where there is one already. -/
def Doubles (key : RootKey) (net : Network) : Call → Prop
  | insert id kind => kind.rootKey? = some key ∧ net.contains id = false ∧
      ∃ n ∈ net.toList, n.kind.rootKey? = some key
  | remove _ => False

instance (key : RootKey) (net : Network) (c : Call) : Decidable (c.Doubles key net) := by
  cases c <;> unfold Doubles <;> infer_instance

/-- No call of a run puts a second root under an address. -/
def Single (key : RootKey) (net : Network) : List Call → Prop
  | [] => True
  | c :: calls => ¬ c.Doubles key net ∧ Single key (leave net c) calls

instance decidableSingle (key : RootKey) (net : Network) :
    (calls : List Call) → Decidable (Single key net calls)
  | [] => isTrue trivial
  | c :: calls =>
    have := decidableSingle key (leave net c) calls
    inferInstanceAs (Decidable (¬ c.Doubles key net ∧ Single key (leave net c) calls))

end Call

/-! ## Tidy networks -/

namespace Network

variable {net : Network} {n : Node} {single : RootKey → Prop}

/-- Addresses name roots that are there.  Where an address is known to be kept
    to one root, that root is found; and what is written below a node is there
    and hangs below it. -/
structure Tidy (single : RootKey → Prop) (net : Network) : Prop where
  /-- What is found under an address is a root with that address. -/
  root : ∀ {key : RootKey} {x : NodeId}, net.roots[key]? = some x →
    ∃ k, net.kinds x = some k ∧ k.rootKey? = some key
  /-- A root is found under its address. -/
  found : ∀ {key : RootKey} {x : NodeId} {k : NodeKind}, single key → net.kinds x = some k →
    k.rootKey? = some key → net.roots[key]? = some x
  /-- The sinks of a node are there; each names it as a source, or names its
      address as that of its parent. -/
  sink : ∀ {x : NodeId} {m : Node}, net.nodes[x]? = some m →
    (∀ entry, m.kind = .entryPoint entry → single ⟨entry, none⟩) → ∀ y ∈ m.sinks,
      ∃ k, net.kinds y = some k ∧
        (x ∈ k.sources ∨ ∃ key, k.parentKey? = some key ∧ m.kind.rootKey? = some key)

theorem tidy_empty (single : RootKey → Prop) : empty.Tidy single where
  root h := by simp [empty] at h
  found _ h := by simp [empty, kinds] at h
  sink h := by simp [empty] at h

namespace Tidy
variable (h : net.Tidy single)
include h

/-- **A network stays tidy when a node without sinks is hung up under a free
    number**, unless it is a second root. -/
theorem link (hfresh : net.nodes[n.id]? = none) (hbare : n.sinks = [])
    (hone : ∀ key, single key → n.kind.rootKey? = some key →
      ∀ x k, net.kinds x = some k → k.rootKey? ≠ some key) : (net.link n).Tidy single where
  root {key x} hx := by
    rw [getElem?_link_roots] at hx
    split at hx
    · cases hx
      exact ⟨n.kind, by rw [kinds_link, if_pos rfl], ‹_›⟩
    · obtain ⟨k, hk, hkey⟩ := h.root hx
      refine ⟨k, ?_, hkey⟩
      rw [kinds_link, if_neg, hk]
      rintro rfl
      simp [kinds, hfresh] at hk
  found {key x k} hsingle hk hkey := by
    rw [kinds_link] at hk
    rw [getElem?_link_roots]
    split at hk
    · cases hk
      rw [if_pos hkey, ‹x = n.id›]
    · rw [if_neg fun hn => hone key hsingle hn x k hk hkey]
      exact h.found hsingle hk hkey
  sink {x m} hm hsingle y hy := by
    obtain ⟨-, rfl⟩ | ⟨-, m₀, h₀, -, hkind, hsinks⟩ := link_inv hm
    · rw [hbare] at hy
      cases hy
    rw [hkind] at hsingle ⊢
    rcases (hsinks y).1 hy with hy | ⟨rfl, hx⟩
    · -- a sink that was there is another node than the new one
      obtain ⟨k, hk, hbelow⟩ := h.sink h₀ hsingle y hy
      refine ⟨k, ?_, hbelow⟩
      rw [kinds_link, if_neg, hk]
      rintro rfl
      simp [kinds, hfresh] at hk
    · refine ⟨n.kind, by rw [kinds_link, if_pos rfl], ?_⟩
      refine (mem_parentsOf.1 hx).imp_right ?_
      rintro ⟨key, hparent, hroot⟩
      obtain ⟨k, hk, hkey⟩ := h.root hroot
      obtain rfl : m₀.kind = k := by simpa [kinds, h₀] using hk
      exact ⟨key, hparent, hkey⟩

/-- **A network stays tidy when a node is taken down.** -/
theorem unlink (hn : net.nodes[n.id]? = some n) : (net.unlink n).Tidy single where
  root {key x} hx := by
    rw [getElem?_unlink_roots] at hx
    split at hx
    · cases hx
    · obtain ⟨k, hk, hkey⟩ := h.root hx
      refine ⟨k, ?_, hkey⟩
      rw [kinds_unlink, if_neg, hk]
      rintro rfl
      obtain rfl : n.kind = k := by simpa [kinds, hn] using hk
      exact absurd hkey ‹_›
  found {key x k} hsingle hk hkey := by
    rw [kinds_unlink] at hk
    split at hk
    · cases hk
    rename_i hx
    have hroot := h.found hsingle hk hkey
    rw [getElem?_unlink_roots, if_neg, hroot]
    intro hn'
    -- the node taken down would be found under the same address
    have := h.found hsingle (x := n.id) (k := n.kind) (by simp [kinds, hn]) hn'
    exact hx (Option.some.inj (hroot.symm.trans this))
  sink {x m} hm hsingle y hy := by
    obtain ⟨-, m₀, h₀, -, hkind, hsinks⟩ := unlink_inv hm
    rw [hkind] at hsingle ⊢
    obtain ⟨hy, hgone⟩ := (hsinks y).1 hy
    obtain ⟨k, hk, hbelow⟩ := h.sink h₀ hsingle y hy
    refine ⟨k, ?_, hbelow⟩
    rw [kinds_unlink, if_neg, hk]
    rintro rfl
    -- whatever the node hung below has forgotten it
    obtain rfl : n.kind = k := by simpa [kinds, hn] using hk
    refine hgone rfl (mem_parentsOf.2 (hbelow.imp_right ?_))
    rintro ⟨key, hparent, hroot⟩
    obtain ⟨entry, hentry, rfl⟩ := NodeKind.entryPoint_of_parent hparent hroot
    exact ⟨_, hparent, h.found (hsingle entry hentry) (by simp [kinds, h₀]) hroot⟩

end Tidy

end Network

/-! ## Runs -/

namespace Call

variable {net : Network} {single : RootKey → Prop}

/-- **One call keeps a network tidy** that puts no second root under an address
    that is to have one only. -/
theorem tidy_leave (hg : net.Grounded) (h : net.Tidy single) (c : Call)
    (hc : ∀ key, single key → ¬ c.Doubles key net) : (leave net c).Tidy single := by
  have hends := ends_perform hg c
  unfold leave
  generalize c.perform net = r at hends ⊢
  cases hends with
  | @linked n bare fresh _ =>
    refine h.link fresh bare fun key hsingle hkey x k hk hk' => hc key hsingle ⟨hkey, ?_, ?_⟩
    · rw [← Bool.not_eq_true, Network.contains_iff, fresh]
      simp
    · obtain ⟨m, hm, rfl⟩ := Network.kinds_eq_some.1 hk
      exact ⟨m, hg.mem_toList.2 (by rw [hg.id_eq hm, hm]), hk'⟩
  | unlinked here _ => exact h.unlink here
  | failed _ => exact h

/-- **Calls keep a network tidy** where the addresses that are to have one root
    only get no second one. -/
theorem tidy_run (hg : net.Grounded) (h : net.Tidy single) (calls : List Call)
    (hc : ∀ key, single key → Single key net calls) : (calls.foldl leave net).Tidy single := by
  induction calls generalizing net with
  | nil => exact h
  | cons c calls ih =>
    exact ih (grounded_leave hg c) (tidy_leave hg h c fun key hkey => (hc key hkey).1)
      fun key hkey => (hc key hkey).2

theorem tidy_network (calls : List Call) : (network calls).Tidy (Single · .empty calls) :=
  tidy_run Network.grounded_empty (Network.tidy_empty _) calls fun _ h => h

/-- A root is found under an address that is kept to one, just if there is one. -/
theorem isSome_roots_iff (calls : List Call) {key : RootKey} (hsingle : Single key .empty calls) :
    ((network calls).roots[key]?).isSome ↔
      ∃ n ∈ (network calls).toList, n.kind.rootKey? = some key := by
  have h := tidy_network calls
  have hg := grounded_network calls
  rw [Option.isSome_iff_exists]
  constructor
  · rintro ⟨x, hx⟩
    obtain ⟨k, hk, hkey⟩ := h.root hx
    obtain ⟨n, hn, rfl⟩ := Network.kinds_eq_some.1 hk
    exact ⟨n, hg.mem_toList.2 (by rw [hg.id_eq hn, hn]), hkey⟩
  · rintro ⟨n, hn, hkey⟩
    exact ⟨n.id, h.found hsingle (Network.kinds_eq_some.2 ⟨n, hg.mem_toList.1 hn, rfl⟩) hkey⟩

/-- **What is found under an address, whatever calls have been made.**  The sinks
    of a node are there, unless it is the root of an entry point that has had two
    roots at a time.  What is found under the address of an entry point is a root
    of it; and some root of it is found just if there is one, unless it has had
    two at a time.  The same holds for the types at an entry point. -/
theorem addresses_exact (calls : List Call) :
    (∀ n ∈ (network calls).toList,
      (∀ entry, n.kind = .entryPoint entry → Single ⟨entry, none⟩ .empty calls) →
        ∀ s ∈ n.sinks, (network calls).contains s) ∧
    (∀ entry, (∀ x, (network calls).entryPointNode entry = some x →
        (network calls).kinds x = some (.entryPoint entry)) ∧
      (Single ⟨entry, none⟩ .empty calls → (((network calls).entryPointNode entry).isSome ↔
        ∃ n ∈ (network calls).toList, n.kind = .entryPoint entry))) ∧
    ∀ entry type, (∀ x, (network calls).objectTypeNode entry type = some x →
        ∃ memory, (network calls).kinds x = some (.objectType entry type memory)) ∧
      (Single ⟨entry, some type⟩ .empty calls →
        (((network calls).objectTypeNode entry type).isSome ↔
          ∃ n ∈ (network calls).toList, ∃ memory, n.kind = .objectType entry type memory)) := by
  have h := tidy_network calls
  have hg := grounded_network calls
  refine ⟨fun n hn hsingle s hs => ?_, fun entry => ⟨fun x hx => ?_, fun hsingle => ?_⟩,
    fun entry type => ⟨fun x hx => ?_, fun hsingle => ?_⟩⟩
  · obtain ⟨k, hk, -⟩ := h.sink (hg.mem_toList.1 hn) hsingle s hs
    obtain ⟨m, hm, -⟩ := Network.kinds_eq_some.1 hk
    exact Network.contains_iff.2 ⟨m, hm⟩
  · obtain ⟨k, hk, hkey⟩ := h.root hx
    rw [hk, NodeKind.rootKey?_eq_entryPoint.1 hkey]
  · simp only [← NodeKind.rootKey?_eq_entryPoint]
    exact isSome_roots_iff calls hsingle
  · obtain ⟨k, hk, hkey⟩ := h.root hx
    obtain ⟨memory, rfl⟩ := NodeKind.rootKey?_eq_objectType.1 hkey
    exact ⟨memory, hk⟩
  · simp only [← NodeKind.rootKey?_eq_objectType]
    exact isSome_roots_iff calls hsingle

/-- A type loses its root and gets another one; a second entry point is refused
    the number of the first one, and takes the number that the type gave up. -/
def renewed : List Call :=
  [.insert 0 (.entryPoint .default), .insert 1 (.objectType .default 2 true),
    .insert 2 (.leftInput 1), .remove 2, .remove 1, .insert 0 (.entryPoint (.named "late")),
    .insert 4 (.objectType .default 2 false), .insert 1 (.entryPoint (.named "late"))]

theorem addresses_exact_renewed :
    (∀ n ∈ (network renewed).toList, ∀ key ∈ n.kind.rootKey?, Single key .empty renewed) ∧
    (∀ n ∈ (network renewed).toList, ∀ s ∈ n.sinks, (network renewed).contains s) ∧
    ((network renewed).entryPointNode .default).isSome ∧
    ((network renewed).objectTypeNode .default 2).isSome := by
  have hsingle : ∀ n ∈ (network renewed).toList, ∀ key ∈ n.kind.rootKey?,
      Single key .empty renewed := by decide +kernel
  obtain ⟨hsinks, hentry, htype⟩ := addresses_exact renewed
  refine ⟨hsingle, fun n hn => hsinks n hn fun entry h => ?_, ?_, ?_⟩
  · exact hsingle n hn _ (NodeKind.rootKey?_eq_entryPoint.2 h)
  · exact ((hentry .default).2 (by decide +kernel)).2 (by decide +kernel)
  · exact ((htype .default 2).2 (by decide +kernel)).2 (by decide +kernel)

/-- Two roots of one entry point, with a type that came between them; the type
    is removed, and then the second root. -/
def doubled : List Call :=
  [.insert 0 (.entryPoint .default), .insert 1 (.objectType .default 2 true),
    .insert 2 (.entryPoint .default), .remove 1, .remove 2]

/-- The first root is no longer found, and still has the type among its sinks. -/
theorem not_addresses_exact_doubled :
    (∃ n ∈ (network doubled).toList, n.kind = .entryPoint .default ∧ 1 ∈ n.sinks) ∧
    (network doubled).contains 1 = false ∧
    (network doubled).entryPointNode .default = none := by
  decide +kernel

end Call

end RuleNet
