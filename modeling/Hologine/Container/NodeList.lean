import Hologine.Container.IntrusiveList
import Hologine.Library.DoublyLinked
import Hologine.Library.Run

/-!
# Lists of nodes

The operations of `intrusive_list` (`core/container/intrusive_list.hpp:141-251`) on nodes that have
a `next` and a `previous` of their own, against what they mean for the order of the nodes.

* `insert_after` sets the `previous` of the position where it means that of the next node, and then
  the `next` of the node it finds there. That is no harm to a position that is alone.
* A run of `insert_before`, `remove` and `unlink` is on one list, whose order `NodeRun` keeps beside
  the nodes. A node that is off the list may have any links.

Results:
* `insertBefore_eq`, `remove_eq`, `unlink_eq`: the links after each operation.
* `insertsAfter_iff`: `insert_after` inserts after the position iff the list has no other node.
* `NodeRun.run_linked`: every run of the others keeps the list linked, in the order it means.
-/

namespace Hologine.Container

open Hologine.Library Hologine.Library.Run

/-- The `next` and the `previous` of every node. -/
structure Nodes (ν : Type) where
  next : ν → Option ν
  previous : ν → Option ν

variable {ν : Type} [DecidableEq ν]

namespace Nodes

/-- The links of nodes, all of which are there. -/
def links : Links (Nodes ν) ν where
  next s node := some (s.next node)
  previous s node := some (s.previous node)
  setNext node next s := some { s with next := Function.update s.next node next }
  setPrevious node previous s :=
    some { s with previous := Function.update s.previous node previous }

/-- The nodes are a list in this order, and in reverse the other way. -/
def Linked (s : Nodes ν) (order : List ν) : Prop := Library.Linked s.next s.previous order

/-- The links of a node are the same. -/
def Keeps (s s' : Nodes ν) (node : ν) : Prop :=
  s'.next node = s.next node ∧ s'.previous node = s.previous node

/-- **`insert_after` inserts a node after a position**: the list is linked with the node there, and
no other link has changed. -/
def InsertsAfter (s : Nodes ν) (before after : List ν) (node position : ν) : Prop :=
  ∃ s', IntrusiveList.insertAfter links node position s = some s' ∧
    s'.Linked (before ++ position :: node :: after) ∧
    (∀ a, a ≠ node → a ≠ position → s'.next a = s.next a) ∧
    ∀ a, a ≠ node → after.head? ≠ some a → s'.previous a = s.previous a

/-- The neighbours of a node are linked to each other. -/
def removed (s : Nodes ν) (node : ν) : Nodes ν where
  next := setLink s.next (s.previous node) (s.next node)
  previous := setLink s.previous (s.next node) (s.previous node)

variable {s s' : Nodes ν} {node position : ν} {before after : List ν}

@[simp] theorem links_next (s : Nodes ν) (node : ν) : links.next s node = some (s.next node) := rfl

@[simp] theorem links_previous (s : Nodes ν) (node : ν) :
    links.previous s node = some (s.previous node) := rfl

@[simp] theorem links_setNext (node : ν) (next : Option ν) (s : Nodes ν) :
    links.setNext node next s = some { s with next := Function.update s.next node next } := rfl

@[simp] theorem links_setPrevious (node : ν) (previous : Option ν) (s : Nodes ν) :
    links.setPrevious node previous s =
      some { s with previous := Function.update s.previous node previous } := rfl

@[simp] theorem links_assignNext (node next : Option ν) (s : Nodes ν) :
    links.assignNext node next s = some { s with next := setLink s.next node next } := by
  cases node with
  | none => rfl
  | some node => rfl

@[simp] theorem links_assignPrevious (node previous : Option ν) (s : Nodes ν) :
    links.assignPrevious node previous s =
      some { s with previous := setLink s.previous node previous } := by
  cases node with
  | none => rfl
  | some node => rfl

/-- **What `remove` does.** -/
theorem remove_eq (node : ν) (s : Nodes ν) :
    IntrusiveList.remove links node s = some (s.removed node) := by
  unfold IntrusiveList.remove
  simp [removed]

/-- **What `unlink` does.** -/
theorem unlink_eq (node : ν) (s : Nodes ν) : IntrusiveList.unlink links node s = some
    ⟨Function.update (s.removed node).next node none,
      Function.update (s.removed node).previous node none⟩ := by
  unfold IntrusiveList.unlink
  simp [remove_eq]

/-- **What `insert_before` does.** -/
theorem insertBefore_eq (node position : ν) (s : Nodes ν) :
    IntrusiveList.insertBefore links node position s = some
      ⟨Function.update (setLink s.next (s.previous position) (some node)) node (some position),
        Function.update (setLink s.previous (some position) (some node)) node
          (s.previous position)⟩ := by
  unfold IntrusiveList.insertBefore
  simp [setLink]

/-! ## `insert_after` -/

/-- **`insert_after` at the end of a list** sets the `next` of the node before the position. -/
theorem insertAfter_last (h : s.next position = none) (node : ν) :
    IntrusiveList.insertAfter links node position s = some
      ⟨Function.update (Function.update (setLink s.next (s.previous position) (some node)) position
          (some node)) node none,
        Function.update s.previous node (some position)⟩ := by
  unfold IntrusiveList.insertAfter
  simp [h]

/-- **`insert_after` elsewhere** sets the `previous` of the position to the node. -/
theorem insertAfter_inner {next : ν} (h : s.next position = some next) (node : ν) :
    IntrusiveList.insertAfter links node position s = some
      ⟨Function.update (Function.update (Function.update s.next node (some node)) position
          (some node)) node (some next),
        Function.update (Function.update s.previous position (some node)) node
          (some position)⟩ := by
  unfold IntrusiveList.insertAfter
  simp [h, setLink]

/-- A position that is alone has the node after it. -/
theorem insertsAfter_of_alone (h : s.Linked [position]) (hnode : node ≠ position) :
    s.InsertsAfter [] [] node position := by
  have hlist : s.Linked ([] ++ position :: []) := h
  have hnext : s.next position = none := hlist.next_eq
  have hprevious : s.previous position = none := hlist.previous_eq
  refine ⟨_, insertAfter_last hnext node, ?_, fun a hne hne' => ?_, fun a hne _ => ?_⟩
  · have hlist : s.Linked ([position] ++ []) := h
    have hinsert := Library.Linked.insert hlist (show node ∉ [position] ++ [] by simpa using hnode)
    refine hinsert.congr (fun a ha => ?_) fun a ha => ?_
    · simp [hprevious, setLink]
    · simp [setLink]
  · simp [hprevious, setLink, hne, hne']
  · simp [hne]

/-- **`insert_after` inserts after the position iff the list has no other node.** -/
theorem insertsAfter_iff (h : s.Linked (before ++ position :: after))
    (hnode : node ∉ before ++ position :: after) :
    s.InsertsAfter before after node position ↔ before = [] ∧ after = [] := by
  have hne : position ≠ node := by
    rintro rfl
    exact hnode (by simp)
  constructor
  · rintro ⟨s', hrun, hlinked, -, -⟩
    cases after with
    | cons next after =>
      -- the position is linked back to the node, which is not before it
      have hinner : s.next position = some next := h.next_eq
      rw [insertAfter_inner hinner] at hrun
      obtain rfl := Option.some.inj hrun
      have hprevious := Library.Linked.previous_eq hlinked
      dsimp only at hprevious
      rw [Function.update_of_ne hne, Function.update_self] at hprevious
      exact absurd (List.mem_append_left _ (List.mem_of_getLast? hprevious.symm)) hnode
    | nil =>
      refine ⟨?_, rfl⟩
      rcases List.eq_nil_or_concat before with rfl | ⟨before, b, rfl⟩
      · rfl
      -- the node before the position is linked past it
      rw [List.concat_eq_append] at *
      have hb : b ≠ node := by
        rintro rfl
        exact hnode (by simp)
      have hb' : b ≠ position :=
        (List.nodup_append.mp h.nodup).2.2 b (by simp) position List.mem_cons_self
      have hlast : s.next position = none := h.next_eq
      rw [insertAfter_last hlast, h.previous_eq, List.getLast?_concat] at hrun
      obtain rfl := Option.some.inj hrun
      rw [Linked, List.append_assoc] at hlinked
      have hnext := Library.Linked.next_eq hlinked
      dsimp only at hnext
      rw [Function.update_of_ne hb, Function.update_of_ne hb', setLink_self] at hnext
      exact absurd (Option.some.inj hnext).symm hne
  · rintro ⟨rfl, rfl⟩
    exact insertsAfter_of_alone h (Ne.symm hne)

/-- A list of one node. -/
theorem insertsAfter_iff_alone : InsertsAfter ⟨fun _ => none, fun _ => none⟩ [] [] 1 0 :=
  (insertsAfter_iff (s := ⟨fun _ => none, fun _ => none⟩)
    (show Linked _ ([] ++ 0 :: []) from ⟨⟨rfl, trivial⟩, ⟨rfl, trivial⟩, by simp⟩)
    (by decide)).mpr ⟨rfl, rfl⟩

/-- Two nodes, one after the other. -/
def pair : Nodes ℕ where
  next a := if a = 0 then some 1 else none
  previous a := if a = 1 then some 0 else none

/-- **A node is not inserted after the last of two**: the first is linked to it. -/
theorem not_insertsAfter : ¬ ∀ (s : Nodes ℕ) (before after : List ℕ) (node position : ℕ),
    s.Linked (before ++ position :: after) → node ∉ before ++ position :: after →
      s.InsertsAfter before after node position := by
  intro hall
  obtain ⟨s', hrun, hlinked, -, -⟩ := hall pair [0] [] 2 1
    ⟨⟨rfl, rfl, trivial⟩, ⟨rfl, rfl, trivial⟩, by decide⟩ (by decide)
  obtain rfl := Option.some.inj hrun
  exact absurd hlinked.forward.1 (by decide)

end Nodes

/-! ## Runs of the other operations -/

/-- The order with a node directly before a position. -/
def insertBeforeIn (node position : ν) : List ν → List ν
  | [] => []
  | a :: l => if a = position then node :: a :: l else a :: insertBeforeIn node position l

/-- An operation on a list. -/
inductive ListCall (ν : Type) where
  | insertBefore (node position : ν)
  | remove (node : ν)
  | unlink (node : ν)
  deriving Repr, DecidableEq

/-- The node that is inserted or taken out. -/
def ListCall.node : ListCall ν → ν
  | .insertBefore node _ => node
  | .remove node => node
  | .unlink node => node

/-- Nodes, and the order of those that are on the list. -/
structure NodeRun (ν : Type) where
  nodes : Nodes ν
  order : List ν

namespace NodeRun

/-- One operation, and what it means for the order. -/
def step (s : NodeRun ν) : ListCall ν → Option (Unit × NodeRun ν)
  | .insertBefore node position => do
    let nodes ← IntrusiveList.insertBefore Nodes.links node position s.nodes
    some ((), ⟨nodes, insertBeforeIn node position s.order⟩)
  | .remove node => do
    let nodes ← IntrusiveList.remove Nodes.links node s.nodes
    some ((), ⟨nodes, s.order.erase node⟩)
  | .unlink node => do
    let nodes ← IntrusiveList.unlink Nodes.links node s.nodes
    some ((), ⟨nodes, s.order.erase node⟩)

/-- What is inserted is off the list, before a position on it, and what is taken out is on it. -/
def Legal (s : NodeRun ν) : ListCall ν → Prop
  | .insertBefore node position => node ∉ s.order ∧ position ∈ s.order
  | .remove node => node ∈ s.order
  | .unlink node => node ∈ s.order

instance (s : NodeRun ν) (call : ListCall ν) : Decidable (s.Legal call) :=
  match call with
  | .insertBefore node position => inferInstanceAs (Decidable (node ∉ s.order ∧ position ∈ s.order))
  | .remove node => inferInstanceAs (Decidable (node ∈ s.order))
  | .unlink node => inferInstanceAs (Decidable (node ∈ s.order))

/-- `unlink` clears the links of the node. -/
def Clears (s' : NodeRun ν) : ListCall ν → Prop
  | .unlink node => s'.nodes.next node = none ∧ s'.nodes.previous node = none
  | _ => True

/-- After `insert_before`, `unlink` of the same node restores every other link. -/
def Restores (s s' : NodeRun ν) : ListCall ν → Prop
  | .insertBefore node _ => ∃ nodes, IntrusiveList.unlink Nodes.links node s'.nodes = some nodes ∧
    ∀ a ≠ node, s.nodes.Keeps nodes a
  | _ => True

/-- **An operation keeps the list**: it is linked in the order that is meant, and the other nodes
off it keep their links. -/
def KeepsList (s : NodeRun ν) (call : ListCall ν) : Prop :=
  ∃ s', s.step call = some ((), s') ∧ s'.nodes.Linked s'.order ∧
    (∀ a ∉ s.order, a ≠ call.node → s.nodes.Keeps s'.nodes a) ∧ s'.Clears call ∧
    s.Restores s' call

variable {s : NodeRun ν} {nodes : Nodes ν} {node position : ν} {before after : List ν}

theorem insertBeforeIn_append (h : position ∉ before) (node : ν) (after : List ν) :
    insertBeforeIn node position (before ++ position :: after) =
      before ++ node :: position :: after := by
  induction before with
  | nil => simp [insertBeforeIn]
  | cons a before ih =>
    obtain ⟨hne, hnotMem⟩ := List.ne_and_not_mem_of_not_mem_cons h
    simp [insertBeforeIn, Ne.symm hne, ih hnotMem]

/-- After `insert_before`, `unlink` of the same node restores the other links. -/
theorem restores_insertBefore (h : nodes.Linked (before ++ position :: after))
    {inserted : Nodes ν}
    (hrun : IntrusiveList.insertBefore Nodes.links node position nodes = some inserted) :
    ∃ restored, IntrusiveList.unlink Nodes.links node inserted = some restored ∧
      ∀ a ≠ node, nodes.Keeps restored a := by
  rw [Nodes.insertBefore_eq] at hrun
  obtain rfl := Option.some.inj hrun
  have hprevious := Library.Linked.previous_eq h
  refine ⟨_, Nodes.unlink_eq node _, fun a ha => ⟨?_, ?_⟩⟩
  · simp only [Nodes.removed, Function.update_self, Function.update_of_ne ha]
    by_cases hlast : nodes.previous position = some a
    · have hmem : a ∈ before := List.mem_of_getLast? (hprevious.symm.trans hlast)
      rw [hlast, setLink_self]
      exact ((h.next_eq_some_iff (List.mem_append_left _ hmem) (by simp)).mpr hlast).symm
    · rw [setLink_of_ne hlast, Function.update_of_ne ha, setLink_of_ne hlast]
  · simp only [Nodes.removed, Function.update_self, Function.update_of_ne ha]
    by_cases hposition : some position = some a
    · rw [hposition, setLink_self, Option.some.inj hposition]
    · rw [setLink_of_ne hposition, Function.update_of_ne ha, setLink_of_ne hposition]

/-- **`insert_before` keeps the list.** -/
theorem keepsList_insertBefore (h : s.nodes.Linked s.order) (hnode : node ∉ s.order)
    (hposition : position ∈ s.order) : s.KeepsList (.insertBefore node position) := by
  obtain ⟨nodes, order⟩ := s
  obtain ⟨before, after, rfl⟩ := List.append_of_mem hposition
  have hprevious := Library.Linked.previous_eq h
  have hbefore : position ∉ before := fun hmem =>
    (List.nodup_append.mp h.nodup).2.2 position hmem position List.mem_cons_self rfl
  have hrun := Nodes.insertBefore_eq node position nodes
  refine ⟨_, by rw [step, hrun]; rfl, ?_, fun a ha hne => ⟨?_, ?_⟩, trivial,
    restores_insertBefore h hrun⟩
  · rw [insertBeforeIn_append hbefore]
    dsimp only
    rw [hprevious]
    exact h.insert hnode
  · refine (Function.update_of_ne hne _ _).trans (setLink_of_ne (fun hlast => ha ?_) _)
    exact List.mem_append_left _ (List.mem_of_getLast? (hprevious.symm.trans hlast))
  · refine (Function.update_of_ne hne _ _).trans (setLink_of_ne (fun heq => ha ?_) _)
    simp [Option.some.inj heq]

/-- **`remove` takes the node out**, and leaves its links as they are. -/
theorem linked_remove (h : s.nodes.Linked s.order) (hnode : node ∈ s.order) :
    (s.nodes.removed node).Linked (s.order.erase node) ∧
      ∀ a ∉ s.order, s.nodes.Keeps (s.nodes.removed node) a := by
  obtain ⟨nodes, order⟩ := s
  obtain ⟨before, after, rfl⟩ := List.append_of_mem hnode
  have hnext := Library.Linked.next_eq h
  have hprevious := Library.Linked.previous_eq h
  have hbefore : node ∉ before := fun hmem =>
    (List.nodup_append.mp h.nodup).2.2 node hmem node List.mem_cons_self rfl
  dsimp only
  unfold Nodes.removed
  rw [List.erase_append_right _ hbefore, List.erase_cons_head, hnext, hprevious]
  refine ⟨h.remove, fun a ha => ⟨setLink_of_ne (fun hlast => ha ?_) _,
    setLink_of_ne (fun hhead => ha ?_) _⟩⟩
  · exact List.mem_append_left _ (List.mem_of_getLast? hlast)
  · exact List.mem_append_right _ (List.mem_cons_of_mem _ (List.mem_of_head? hhead))

theorem keepsList_remove (h : s.nodes.Linked s.order) (hnode : node ∈ s.order) :
    s.KeepsList (.remove node) := by
  obtain ⟨hlinked, hkeeps⟩ := linked_remove h hnode
  exact ⟨⟨s.nodes.removed node, s.order.erase node⟩, by rw [step, Nodes.remove_eq]; rfl, hlinked,
    fun a ha _ => hkeeps a ha, trivial, trivial⟩

/-- **`unlink` takes the node out** and clears its links. -/
theorem keepsList_unlink (h : s.nodes.Linked s.order) (hnode : node ∈ s.order) :
    s.KeepsList (.unlink node) := by
  obtain ⟨hlinked, hkeeps⟩ := linked_remove h hnode
  have hne : ∀ a ∈ s.order.erase node, a ≠ node := by
    rintro a ha rfl
    exact h.nodup.not_mem_erase ha
  refine ⟨_, by rw [step, Nodes.unlink_eq]; rfl, ?_, fun a ha hne => ⟨?_, ?_⟩, ⟨?_, ?_⟩, trivial⟩
  · exact hlinked.congr (fun a ha => Function.update_of_ne (hne a ha) _ _)
      fun a ha => Function.update_of_ne (hne a ha) _ _
  · exact (Function.update_of_ne hne _ _).trans (hkeeps a ha).1
  · exact (Function.update_of_ne hne _ _).trans (hkeeps a ha).2
  · exact Function.update_self _ _ _
  · exact Function.update_self _ _ _

/-- **Every operation keeps the list.** -/
theorem keepsList (h : s.nodes.Linked s.order) {call : ListCall ν} (hlegal : s.Legal call) :
    s.KeepsList call := by
  cases call with
  | insertBefore node position => exact keepsList_insertBefore h hlegal.1 hlegal.2
  | remove node => exact keepsList_remove h hlegal
  | unlink node => exact keepsList_unlink h hlegal

/-- **Every run keeps the list**: a linked list stays one, in the order that its operations mean,
`unlink` clears the links of its node, and after `insert_before` it would restore all others. -/
theorem run_linked (h : s.nodes.Linked s.order) (calls : List (ListCall ν))
    (hlegal : Along step Legal s calls) :
    (∃ os s', exec step s calls = some (os, s') ∧ s'.nodes.Linked s'.order) ∧
      Along step KeepsList s calls := by
  have hstep : ∀ (s : NodeRun ν) call, s.nodes.Linked s.order → s.Legal call →
      ∃ o s', s.step call = some (o, s') ∧ s'.nodes.Linked s'.order ∧ s.KeepsList call := by
    intro s call h hlegal
    obtain ⟨s', hrun, hlinked, hrest⟩ := keepsList h hlegal
    exact ⟨(), s', hrun, hlinked, s', hrun, hlinked, hrest⟩
  constructor
  · refine exec_of_defined (fun s => s.nodes.Linked s.order) (fun s call h hlegal => ?_) h hlegal
    obtain ⟨o, s', hrun, hlinked, -⟩ := hstep s call h hlegal
    exact ⟨o, s', hrun, hlinked⟩
  · exact Along.of_defined (fun s => s.nodes.Linked s.order) hstep h hlegal

/-- A node that is removed keeps its links, and is inserted elsewhere with them. -/
theorem run_linked_inserted_again :
    (∃ os s', exec step ⟨Nodes.pair, [0, 1]⟩
        [.insertBefore 2 0, .remove 0, .insertBefore 0 2, .unlink 2, .unlink 1] = some (os, s') ∧
          s'.nodes.Linked s'.order) ∧
      Along step KeepsList ⟨Nodes.pair, [0, 1]⟩
        [.insertBefore 2 0, .remove 0, .insertBefore 0 2, .unlink 2, .unlink 1] :=
  run_linked (s := ⟨Nodes.pair, [0, 1]⟩)
    ⟨⟨rfl, rfl, trivial⟩, ⟨rfl, rfl, trivial⟩, by decide⟩ _ (by decide)

end NodeRun

end Hologine.Container
