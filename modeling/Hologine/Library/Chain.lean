import Mathlib.Data.List.Perm.Basic
import Mathlib.Logic.Function.Basic

/-!
# Singly linked chains

A chain is what `next` links lead through from a head to the end: `Chain next head l` says that
they lead through the nodes `l`, in order. The nodes may be of any type and the links may be fields
of them, so an update of one node's link changes `next` at that node only.

* `Chain.unique`: a head has at most one chain.
* `Chain.nodup`: a chain, being finite, has no node twice.
* `Chain.congr`: links that agree on the nodes of a chain have that chain.
* `Chain.push`: a node linked to the head of a chain it is not on heads a longer one.
* `Chain.bypass`, `Chain.insertAfterHead`: a node linked out of a chain, and one linked into it.
-/

namespace Hologine.Library

variable {α : Type*}

/-- The links lead from the head through the nodes, in order, to the end. -/
inductive Chain (next : α → Option α) : Option α → List α → Prop
  | nil : Chain next none []
  | cons {a : α} {l : List α} : Chain next (next a) l → Chain next (some a) (a :: l)

namespace Chain

variable {next next' : α → Option α} {head : Option α} {l l' : List α} {a : α}

theorem none_iff : Chain next none l ↔ l = [] := by
  constructor
  · rintro ⟨⟩
    rfl
  · rintro rfl
    exact .nil

theorem some_iff : Chain next (some a) l ↔ ∃ l', l = a :: l' ∧ Chain next (next a) l' := by
  constructor
  · intro h
    cases h with
    | cons h => exact ⟨_, rfl, h⟩
  · rintro ⟨l', rfl, h⟩
    exact .cons h

/-- **A head has at most one chain.** -/
theorem unique (h : Chain next head l) (h' : Chain next head l') : l = l' := by
  induction h generalizing l' with
  | nil => exact (none_iff.mp h').symm
  | cons _ ih =>
    obtain ⟨l'', rfl, hrest⟩ := some_iff.mp h'
    rw [ih hrest]

/-- What follows a node of a chain is the chain of its link. -/
theorem of_append {before after : List α} (h : Chain next head (before ++ a :: after)) :
    Chain next (some a) (a :: after) := by
  induction before generalizing head with
  | nil =>
    cases h with
    | cons h => exact .cons h
  | cons _ _ ih =>
    cases h with
    | cons h => exact ih h

/-- **A chain has no node twice**: what follows the second would be what follows the first. -/
theorem nodup (h : Chain next head l) : l.Nodup := by
  induction h with
  | nil => exact List.nodup_nil
  | @cons a l hrest ih =>
    refine List.nodup_cons.mpr ⟨fun ha => ?_, ih⟩
    obtain ⟨before, after, rfl⟩ := List.append_of_mem ha
    have hlen := congrArg List.length (unique (Chain.cons hrest) (of_append hrest))
    simp only [List.length_cons, List.length_append] at hlen
    omega

/-- **Links that agree on the nodes of a chain have that chain.** -/
theorem congr (h : Chain next head l) (hnext : ∀ a ∈ l, next' a = next a) :
    Chain next' head l := by
  induction h with
  | nil => exact .nil
  | @cons a l _ ih =>
    refine .cons ?_
    rw [hnext a List.mem_cons_self]
    exact ih fun b hb => hnext b (List.mem_cons_of_mem _ hb)

/-- **A node linked to the head of a chain it is not on heads a longer one.** -/
theorem push [DecidableEq α] (h : Chain next head l) (ha : a ∉ l) :
    Chain (Function.update next a head) (some a) (a :: l) := by
  refine .cons ?_
  rw [Function.update_self]
  refine h.congr fun b hb => Function.update_of_ne ?_ _ _
  rintro rfl
  exact ha hb

/-- A chain that ends where it begins has no other node. -/
theorem eq_toList_of_getLast (h : Chain next head l) (hlast : head = l.getLast?) :
    l = head.toList := by
  have hnodup := h.nodup
  cases h with
  | nil => rfl
  | @cons a l hrest =>
    cases l with
    | nil => rfl
    | cons b l =>
      rw [List.getLast?_cons_cons] at hlast
      exact absurd (List.mem_of_getLast? hlast.symm) (List.nodup_cons.mp hnodup).1

/-- A property of the head and of what is linked to is one of every node. -/
theorem forall_mem {P : α → Prop} (h : Chain next head l) (hhead : ∀ a, head = some a → P a)
    (hnext : ∀ a b, next a = some b → P b) : ∀ a ∈ l, P a := by
  induction h with
  | nil => exact fun _ ha => absurd ha List.not_mem_nil
  | @cons a l _ ih => exact List.forall_mem_cons.mpr ⟨hhead a rfl, ih (hnext a)⟩

/-- What a node of a chain is linked to is on the chain. -/
theorem mem_of_next {b : α} (h : Chain next head l) (ha : a ∈ l) (hnext : next a = some b) :
    b ∈ l := by
  obtain ⟨before, after, rfl⟩ := List.append_of_mem ha
  cases of_append h with
  | cons hrest =>
    rw [hnext] at hrest
    obtain ⟨after', rfl, -⟩ := some_iff.mp hrest
    simp

/-- **A node linked past the next** takes that out of the chain. -/
theorem bypass [DecidableEq α] {b : α} (h : Chain next head l) (hb : b ∈ l)
    (hnext : next b = some a) : Chain (Function.update next b (next a)) head (l.erase a) := by
  induction h with
  | nil => exact absurd hb List.not_mem_nil
  | @cons c l hrest ih =>
    have hnodup := (Chain.cons hrest).nodup
    by_cases hc : c = b
    · subst hc
      rw [hnext] at hrest
      obtain ⟨l', rfl, hrest'⟩ := some_iff.mp hrest
      obtain ⟨hnotMem, -⟩ := List.nodup_cons.mp hnodup
      obtain ⟨hne, hnotMem'⟩ := List.ne_and_not_mem_of_not_mem_cons hnotMem
      rw [List.erase_cons_tail (by simpa using hne), List.erase_cons_head]
      exact hrest'.push hnotMem'
    · have hb' : b ∈ l := (List.mem_cons.mp hb).resolve_left (Ne.symm hc)
      have hne : c ≠ a := by
        rintro rfl
        exact (List.nodup_cons.mp hnodup).1 (hrest.mem_of_next hb' hnext)
      rw [List.erase_cons_tail (by simpa using hne)]
      refine .cons ?_
      rw [Function.update_of_ne hc]
      exact ih hb'

/-- **A node linked in after the head** of a chain it is not on. -/
theorem insertAfterHead [DecidableEq α] {t : α} (h : Chain next (some t) (t :: l))
    (ha : a ∉ t :: l) :
    Chain (Function.update (Function.update next a (next t)) t (some a)) (some t)
      (t :: a :: l) := by
  obtain ⟨hnotMem, -⟩ := List.nodup_cons.mp h.nodup
  obtain ⟨hne, hnotMem'⟩ := List.ne_and_not_mem_of_not_mem_cons ha
  cases h with
  | cons hrest =>
    refine (hrest.push hnotMem').push fun hmem => ?_
    rcases List.mem_cons.mp hmem with heq | hmem'
    · exact hne heq.symm
    · exact hnotMem hmem'

end Chain

end Hologine.Library
