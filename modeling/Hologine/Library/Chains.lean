import Hologine.Library.Chain

/-!
# Families of chains

Chains by keys that share their links, every node being on the chain of its owner and on no other.

* `Chains.push`, `Chains.insertAfterHead`: a node that has no owner is put on a chain.
* `Chains.pop`, `Chains.bypass`: a node is taken off its chain, the head or another.
-/

namespace Hologine.Library

variable {α κ : Type*}

/-- **The chain of a key has the nodes whose owner it is.** A key may have no chain, but then it
owns no node. -/
structure Chains (next : α → Option α) (heads : κ → Option (Option α)) (owner : α → Option κ) :
    Prop where
  chain : ∀ k head, heads k = some head → ∃ l, Chain next head l ∧ ∀ a, a ∈ l ↔ owner a = some k
  headed : ∀ a k, owner a = some k → ∃ head, heads k = some head

namespace Chains

variable {next next' : α → Option α} {heads heads' : κ → Option (Option α)}
  {owner owner' : α → Option κ} {a b : α} {k : κ} {head : Option α}

theorem owner_of_head (h : Chains next heads owner) (hk : heads k = some (some a)) :
    owner a = some k := by
  obtain ⟨l, hchain, hmem⟩ := h.chain k (some a) hk
  obtain ⟨l', rfl, -⟩ := Chain.some_iff.mp hchain
  exact (hmem a).mp List.mem_cons_self

/-- A node has the owner of one that is linked to it. -/
theorem owner_next (h : Chains next heads owner) (ha : owner a = some k)
    (hnext : next a = some b) : owner b = some k := by
  obtain ⟨head, hk⟩ := h.headed a k ha
  obtain ⟨l, hchain, hmem⟩ := h.chain k head hk
  exact (hmem b).mp (hchain.mem_of_next ((hmem a).mpr ha) hnext)

/-- **What is done on one chain** leaves the others as they are. -/
theorem change (h : Chains next heads owner) (hheads : ∀ k', k' ≠ k → heads' k' = heads k')
    (hnext : ∀ a k', owner a = some k' → k' ≠ k → next' a = next a)
    (howner : ∀ a k', k' ≠ k → (owner' a = some k' ↔ owner a = some k')) {head' : Option α}
    {l' : List α} (hhead : heads' k = some head') (hchain : Chain next' head' l')
    (hmem : ∀ a, a ∈ l' ↔ owner' a = some k) : Chains next' heads' owner' := by
  constructor
  · intro k' head hk'
    by_cases heq : k' = k
    · subst heq
      obtain rfl := Option.some.inj (hhead.symm.trans hk')
      exact ⟨l', hchain, hmem⟩
    · rw [hheads k' heq] at hk'
      obtain ⟨l, hchain, hmem⟩ := h.chain k' head hk'
      refine ⟨l, hchain.congr fun a ha => hnext a k' ((hmem a).mp ha) heq, fun a => ?_⟩
      rw [hmem, howner a k' heq]
  · intro a k' ha
    by_cases heq : k' = k
    · exact ⟨head', heq ▸ hhead⟩
    · rw [hheads k' heq]
      exact h.headed a k' ((howner a k' heq).mp ha)

variable [DecidableEq α]

/-- A node without an owner gets one, which is no other key's. -/
theorem update_some_iff (ha : owner a = none) {k' : κ} (hk : k' ≠ k) (b : α) :
    Function.update owner a (some k) b = some k' ↔ owner b = some k' := by
  by_cases heq : b = a
  · subst heq
    rw [Function.update_self, ha]
    exact iff_of_false (fun h => hk (Option.some.inj h).symm) nofun
  · rw [Function.update_of_ne heq]

/-- A node loses its owner, which is no other key's. -/
theorem update_none_iff (ha : owner a = some k) {k' : κ} (hk : k' ≠ k) (b : α) :
    Function.update owner a none b = some k' ↔ owner b = some k' := by
  by_cases heq : b = a
  · subst heq
    rw [Function.update_self, ha]
    exact iff_of_false nofun fun h => hk (Option.some.inj h).symm
  · rw [Function.update_of_ne heq]

theorem mem_cons_iff_update {l : List α} (hmem : ∀ b, b ∈ l ↔ owner b = some k) (b : α) :
    b ∈ a :: l ↔ Function.update owner a (some k) b = some k := by
  rw [List.mem_cons, hmem]
  by_cases heq : b = a
  · subst heq
    rw [Function.update_self]
    exact iff_of_true (.inl rfl) rfl
  · rw [Function.update_of_ne heq]
    exact or_iff_right heq

theorem mem_erase_iff_update {l : List α} (hl : l.Nodup) (hmem : ∀ b, b ∈ l ↔ owner b = some k)
    (b : α) : b ∈ l.erase a ↔ Function.update owner a none b = some k := by
  rw [hl.mem_erase_iff, hmem]
  by_cases heq : b = a
  · subst heq
    rw [Function.update_self]
    exact iff_of_false (fun h => h.1 rfl) nofun
  · rw [Function.update_of_ne heq]
    exact and_iff_right heq

/-- **A node without an owner is linked in after the head of a chain.** -/
theorem insertAfterHead (h : Chains next heads owner) (ha : owner a = none)
    (hk : heads k = some (some b)) :
    Chains (Function.update (Function.update next a (next b)) b (some a)) heads
      (Function.update owner a (some k)) := by
  have hb := h.owner_of_head hk
  obtain ⟨l, hchain, hmem⟩ := h.chain k (some b) hk
  have hnotMem : a ∉ l := by
    rw [hmem, ha]
    nofun
  obtain ⟨l', rfl, -⟩ := Chain.some_iff.mp hchain
  refine h.change (fun _ _ => rfl) (fun c k' hc hne => ?_)
    (fun c k' hne => update_some_iff ha hne c) hk (hchain.insertAfterHead hnotMem) fun c => ?_
  · have hca : c ≠ a := by
      rintro rfl
      rw [ha] at hc
      exact nomatch hc
    have hcb : c ≠ b := by
      rintro rfl
      exact hne (Option.some.inj (hc.symm.trans hb))
    rw [Function.update_of_ne hcb, Function.update_of_ne hca]
  · rw [← mem_cons_iff_update hmem, (List.Perm.swap a b l').mem_iff]

/-- **A node that another is linked to is taken off its chain**: the other is linked past it. -/
theorem bypass (h : Chains next heads owner) (ha : owner a = some k) (hk : heads k = some head)
    (hb : owner b = some k) (hnext : next b = some a) :
    Chains (Function.update next b (next a)) heads (Function.update owner a none) := by
  obtain ⟨l, hchain, hmem⟩ := h.chain k head hk
  refine h.change (fun _ _ => rfl) (fun c k' hc hne => ?_)
    (fun c k' hne => update_none_iff ha hne c) hk (hchain.bypass ((hmem b).mpr hb) hnext)
    fun c => mem_erase_iff_update hchain.nodup hmem c
  refine Function.update_of_ne ?_ _ _
  rintro rfl
  exact hne (Option.some.inj (hc.symm.trans hb))

variable [DecidableEq κ]

/-- **The head of a chain is taken off it**, its link left as it is. -/
theorem pop (h : Chains next heads owner) (hk : heads k = some (some a)) :
    Chains next (Function.update heads k (some (next a))) (Function.update owner a none) := by
  have ha := h.owner_of_head hk
  obtain ⟨l, hchain, hmem⟩ := h.chain k (some a) hk
  have hnodup := hchain.nodup
  obtain ⟨l', rfl, hrest⟩ := Chain.some_iff.mp hchain
  refine h.change (fun k' hne => Function.update_of_ne hne _ _) (fun _ _ _ _ => rfl)
    (fun b k' hne => update_none_iff ha hne b) (Function.update_self k _ _) hrest fun b => ?_
  rw [← mem_erase_iff_update hnodup hmem, List.erase_cons_head]

/-- **A node without an owner is linked to the head of a chain**, and is its head. -/
theorem push (h : Chains next heads owner) (ha : owner a = none) (hk : heads k = some head) :
    Chains (Function.update next a head) (Function.update heads k (some (some a)))
      (Function.update owner a (some k)) := by
  obtain ⟨l, hchain, hmem⟩ := h.chain k head hk
  have hnotMem : a ∉ l := by
    rw [hmem, ha]
    nofun
  refine h.change (fun k' hne => Function.update_of_ne hne _ _) (fun b k' hb _ => ?_)
    (fun b k' hne => update_some_iff ha hne b) (Function.update_self k _ _)
    (hchain.push hnotMem) fun b => mem_cons_iff_update hmem b
  refine Function.update_of_ne ?_ _ _
  rintro rfl
  rw [ha] at hb
  exact nomatch hb

end Chains

end Hologine.Library
