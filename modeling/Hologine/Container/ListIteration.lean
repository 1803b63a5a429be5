import Hologine.Container.NodeList

/-!
# Iterators of lists

Model of `intrusive_list::iterator`, `make_iterator` and `end`
(`core/container/intrusive_list.hpp:40-139`), and of the loop of `std::for_each` over them, on the
lists of `NodeList`. What the loop does at a node are operations on the list, which it may choose by
the nodes it has been at.

* `remove` leaves the links of its node as they are and `unlink` clears them: after the first the
  loop goes on from a node that is no longer on the list, after the second it ends.
* A loop is legal (`LegalLoop`) if at each node it changes the list behind it only: it takes out no
  node that is ahead, and inserts none before one. What it inserts is not on the list, and is not
  the node it is at: one that was removed and put back would be gone on from where it is put.

Results:
* `Iterator.decrement_increment`: `decrement` undoes `increment`.
* `forEach_visits`: **a loop visits every node once and in order**, and ends, iff it unlinks none
  but the last of them while it is there.
-/

namespace Hologine.Container

open Hologine.Library Hologine.Library.Run

/-- An iterator, by the node it wraps. -/
structure Iterator (ν : Type) where
  node : Option ν
  deriving Repr, DecidableEq

namespace Iterator

variable {σ ν : Type}

/-- `make_iterator`. -/
def makeIterator (node : Option ν) : Iterator ν := ⟨node⟩

/-- `intrusive_list::end`. -/
def endIterator : Iterator ν := ⟨none⟩

/-- `equal`. -/
def equal [DecidableEq ν] (it other : Iterator ν) : Bool := it.node = other.node

/-- `dereference`. -/
def dereference (it : Iterator ν) : Option ν := it.node

/-- `increment`, which is not defined at the end. -/
def increment (links : Links σ ν) (it : Iterator ν) (s : σ) : Option (Iterator ν) := do
  let node ← it.node
  let next ← links.next s node
  some ⟨next⟩

/-- `decrement`, which is not defined at the end. -/
def decrement (links : Links σ ν) (it : Iterator ν) (s : σ) : Option (Iterator ν) := do
  let node ← it.node
  let previous ← links.previous s node
  some ⟨previous⟩

/-- **`decrement` undoes `increment`**, but to the end. -/
theorem decrement_increment [DecidableEq ν] {s : Nodes ν} {order : List ν} (h : s.Linked order)
    {node next : ν} (hnode : node ∈ order) (hnext : s.next node = some next) :
    (do
      let it ← increment Nodes.links (makeIterator (some node)) s
      decrement Nodes.links it s) = some (makeIterator (some node)) := by
  obtain ⟨before, after, rfl⟩ := List.append_of_mem hnode
  have hhead : after.head? = some next := by rw [← h.next_eq, hnext]
  have hmem : next ∈ before ++ node :: after :=
    List.mem_append_right _ (List.mem_cons_of_mem _ (List.mem_of_head? hhead))
  have hprevious := (h.next_eq_some_iff hnode hmem).mp hnext
  simp [increment, decrement, makeIterator, hnext, hprevious]

end Iterator

variable {ν : Type} [DecidableEq ν]

open Iterator

/-- The operations at a node, by the nodes that have been visited before it. -/
abbrev LoopBody (ν : Type) := List ν → ν → List (ListCall ν)

/-- The loop from an iterator to the end, and the nodes it has visited. It may have no end. -/
def forEach (body : LoopBody ν) :
    ℕ → Iterator ν → List ν → NodeRun ν → Option (List ν × NodeRun ν)
  | 0, _, _, _ => none
  | fuel + 1, it, visited, s =>
    if it.equal endIterator then some (visited, s)
    else do
      let node ← it.dereference
      let (_, s) ← exec NodeRun.step s (body visited node)
      let it ← it.increment Nodes.links s.nodes
      forEach body fuel it (visited ++ [node]) s

/-- At a node, an operation is on the list behind the nodes that are ahead. The node itself is not
inserted, also where it has been taken out. -/
def Behind (node : ν) (ahead : List ν) (s : NodeRun ν) : ListCall ν → Prop
  | .insertBefore inserted position =>
    (inserted ≠ node ∧ inserted ∉ s.order) ∧ position ∈ s.order ∧ position ∉ ahead
  | .remove taken => taken ∈ s.order ∧ taken ∉ ahead
  | .unlink taken => taken ∈ s.order ∧ taken ∉ ahead

instance (node : ν) (ahead : List ν) (s : NodeRun ν) (call : ListCall ν) :
    Decidable (Behind node ahead s call) :=
  match call with
  | .insertBefore inserted position => inferInstanceAs
    (Decidable ((inserted ≠ node ∧ inserted ∉ s.order) ∧ position ∈ s.order ∧ position ∉ ahead))
  | .remove taken => inferInstanceAs (Decidable (taken ∈ s.order ∧ taken ∉ ahead))
  | .unlink taken => inferInstanceAs (Decidable (taken ∈ s.order ∧ taken ∉ ahead))

/-- Every operation of a loop is behind the nodes that are ahead, as long as it goes on. -/
def LegalLoop (body : LoopBody ν) : List ν → List ν → NodeRun ν → Prop
  | _, [], _ => True
  | visited, node :: ahead, s =>
    Along NodeRun.step (Behind node ahead) s (body visited node) ∧
      (.unlink node ∉ body visited node →
        ∀ os s', exec NodeRun.step s (body visited node) = some (os, s') →
          LegalLoop body (visited ++ [node]) ahead s')

instance decidableLegalLoop (body : LoopBody ν) : ∀ (ahead visited : List ν) (s : NodeRun ν),
    Decidable (LegalLoop body visited ahead s)
  | [], _, _ => isTrue trivial
  | node :: ahead, visited, s =>
    match h : exec NodeRun.step s (body visited node) with
    | none => decidable_of_iff (Along NodeRun.step (Behind node ahead) s (body visited node))
        ⟨fun hbehind => ⟨hbehind, fun _ _ _ hs => absurd (h.symm.trans hs) (by simp)⟩, And.left⟩
    | some (os, s') =>
      have := decidableLegalLoop body ahead (visited ++ [node]) s'
      decidable_of_iff (Along NodeRun.step (Behind node ahead) s (body visited node) ∧
          (.unlink node ∉ body visited node → LegalLoop body (visited ++ [node]) ahead s'))
        ⟨fun hlegal => ⟨hlegal.1, fun hnotMem _ _ hs => by
            obtain ⟨-, rfl⟩ := Prod.mk.inj (Option.some.inj (h.symm.trans hs))
            exact hlegal.2 hnotMem⟩,
          fun hlegal => ⟨hlegal.1, fun hnotMem => hlegal.2 hnotMem os s' h⟩⟩

/-- What a loop visits of the nodes ahead: all up to one that it unlinks while it is there. -/
def visits (body : LoopBody ν) : List ν → List ν → List ν
  | _, [] => []
  | visited, node :: ahead =>
    if .unlink node ∈ body visited node then [node]
    else node :: visits body (visited ++ [node]) ahead

/-! ## One node -/

/-- The loop is at a node that is on the list. -/
structure On (node : ν) (ahead : List ν) (s : NodeRun ν) : Prop where
  linked : s.nodes.Linked s.order
  order : ∃ behind, s.order = behind ++ node :: ahead

/-- The loop is at a node that has been taken out, and is linked to `next`. -/
structure Off (node : ν) (next : Option ν) (ahead : List ν) (s : NodeRun ν) : Prop where
  linked : s.nodes.Linked s.order
  order : ∃ behind, s.order = behind ++ ahead
  notMem : node ∉ s.order
  next_eq : s.nodes.next node = next

/-- What the list is ahead does not change by what is inserted behind. -/
theorem insertBeforeIn_behind {position : ν} {ahead : List ν} (h : position ∉ ahead.tail)
    (inserted : ν) (behind : List ν) :
    ∃ behind', insertBeforeIn inserted position (behind ++ ahead) = behind' ++ ahead := by
  have hnone : ∀ {l : List ν}, position ∉ l → insertBeforeIn inserted position l = l := by
    intro l hl
    induction l with
    | nil => rfl
    | cons a l ih =>
      obtain ⟨hne, hnotMem⟩ := List.ne_and_not_mem_of_not_mem_cons hl
      rw [insertBeforeIn, if_neg (Ne.symm hne), ih hnotMem]
  induction behind with
  | nil =>
    cases ahead with
    | nil => exact ⟨[], rfl⟩
    | cons a ahead =>
      by_cases ha : a = position
      · exact ⟨[inserted], by simp [insertBeforeIn, ha]⟩
      · have htail : position ∉ ahead := h
        exact ⟨[], by simp [insertBeforeIn, ha, hnone htail]⟩
  | cons a behind ih =>
    obtain ⟨behind', heq⟩ := ih
    by_cases ha : a = position
    · exact ⟨inserted :: a :: behind, by simp [insertBeforeIn, ha]⟩
    · exact ⟨a :: behind', by simp [insertBeforeIn, ha, heq]⟩

theorem mem_insertBeforeIn {position : ν} {l : List ν} (h : position ∈ l) {inserted a : ν} :
    a ∈ insertBeforeIn inserted position l ↔ a = inserted ∨ a ∈ l := by
  obtain ⟨before, after, rfl, hbefore⟩ := List.eq_append_cons_of_mem h
  rw [NodeRun.insertBeforeIn_append hbefore]
  simp only [List.mem_append, List.mem_cons]
  tauto

theorem order_insertBefore {s s' : NodeRun ν} {o : Unit} {inserted position : ν}
    (h : s.step (.insertBefore inserted position) = some (o, s')) :
    s'.order = insertBeforeIn inserted position s.order := by
  simp only [NodeRun.step, Nodes.insertBefore_eq, Option.bind_eq_bind, Option.bind_some,
    Option.some.injEq, Prod.mk.injEq, true_and] at h
  rw [← h]

theorem order_remove {s s' : NodeRun ν} {o : Unit} {taken : ν}
    (h : s.step (.remove taken) = some (o, s')) :
    s'.order = s.order.erase taken ∧ s'.nodes = s.nodes.removed taken := by
  simp only [NodeRun.step, Nodes.remove_eq, Option.bind_eq_bind, Option.bind_some,
    Option.some.injEq, Prod.mk.injEq, true_and] at h
  rw [← h]
  exact ⟨rfl, rfl⟩

theorem order_unlink {s s' : NodeRun ν} {o : Unit} {taken : ν}
    (h : s.step (.unlink taken) = some (o, s')) : s'.order = s.order.erase taken := by
  simp only [NodeRun.step, Nodes.unlink_eq, Option.bind_eq_bind, Option.bind_some,
    Option.some.injEq, Prod.mk.injEq, true_and] at h
  rw [← h]

omit [DecidableEq ν] in
theorem Behind.legal {node : ν} {ahead : List ν} {s : NodeRun ν} {call : ListCall ν}
    (h : Behind node ahead s call) : s.Legal call := by
  cases call with
  | insertBefore inserted position => exact ⟨h.1.2, h.2.1⟩
  | remove taken => exact h.1
  | unlink taken => exact h.1

/-- What is taken out behind the list leaves what is ahead. -/
theorem erase_behind {taken : ν} {behind ahead : List ν} (h : taken ∈ behind ++ ahead)
    (hahead : taken ∉ ahead) :
    ∃ behind', (behind ++ ahead).erase taken = behind' ++ ahead :=
  ⟨behind.erase taken,
    List.erase_append_left _ ((List.mem_append.mp h).resolve_right hahead)⟩

namespace On

variable {node : ν} {ahead : List ν} {s s' : NodeRun ν} {call : ListCall ν}

/-- The order without the node. -/
theorem order_erase (h : On node ahead s) :
    (∃ behind, s.order.erase node = behind ++ ahead) ∧ node ∉ s.order.erase node := by
  obtain ⟨behind, horder⟩ := h.order
  have hnodup := h.linked.nodup
  refine ⟨⟨behind, ?_⟩, hnodup.not_mem_erase⟩
  rw [horder] at hnodup ⊢
  have hbehind : node ∉ behind := fun hmem =>
    (List.nodup_append.mp hnodup).2.2 node hmem node List.mem_cons_self rfl
  rw [List.erase_append_right _ hbehind, List.erase_cons_head]

omit [DecidableEq ν] in
theorem next_eq (h : On node ahead s) : s.nodes.next node = ahead.head? := by
  obtain ⟨behind, horder⟩ := h.order
  have hlinked := h.linked
  rw [horder] at hlinked
  exact Library.Linked.next_eq hlinked

/-- `remove` of the node keeps the link that the loop goes on by. -/
theorem next_removed (h : On node ahead s) : (s.nodes.removed node).next node = ahead.head? := by
  obtain ⟨behind, horder⟩ := h.order
  have hlinked := h.linked
  rw [horder] at hlinked
  have hne : s.nodes.previous node ≠ some node := by
    intro hself
    rw [Library.Linked.previous_eq hlinked] at hself
    exact (List.nodup_append.mp hlinked.nodup).2.2 node (List.mem_of_getLast? hself) node
      List.mem_cons_self rfl
  exact (setLink_of_ne hne _).trans h.next_eq

theorem step_taken (h : On node ahead s) {taken : ν} (hmem : taken ∈ s.order)
    (hahead : taken ∉ ahead) (hne : taken ≠ node) :
    ∃ behind, s.order.erase taken = behind ++ node :: ahead := by
  obtain ⟨behind, horder⟩ := h.order
  rw [horder] at hmem ⊢
  exact erase_behind hmem (by simp [hne, hahead])

/-- **An operation at a node that is on the list**: `unlink` of it leaves it without a link, and
after another operation it is linked to the first node that is ahead. -/
theorem step (h : On node ahead s) (hbehind : Behind node ahead s call) :
    ∃ s', s.step call = some ((), s') ∧ (call = .unlink node → Off node none ahead s') ∧
      (call ≠ .unlink node → On node ahead s' ∨ Off node ahead.head? ahead s') := by
  obtain ⟨s', hstep, hlinked, -, hclears, -⟩ := NodeRun.keepsList h.linked hbehind.legal
  refine ⟨s', hstep, ?_⟩
  cases call with
  | insertBefore inserted position =>
    refine ⟨(fun heq => by cases heq), fun _ => .inl ⟨hlinked, ?_⟩⟩
    obtain ⟨behind, horder⟩ := h.order
    rw [order_insertBefore hstep, horder]
    exact insertBeforeIn_behind hbehind.2.2 inserted behind
  | remove taken =>
    refine ⟨(fun heq => by cases heq), fun _ => ?_⟩
    obtain ⟨horder, hnodes⟩ := order_remove hstep
    by_cases htaken : taken = node
    · subst htaken
      obtain ⟨hahead, hnotMem⟩ := h.order_erase
      exact .inr ⟨hlinked, by rwa [horder], by rwa [horder], by rw [hnodes, h.next_removed]⟩
    · exact .inl ⟨hlinked, by rw [horder]; exact h.step_taken hbehind.1 hbehind.2 htaken⟩
  | unlink taken =>
    have horder := order_unlink hstep
    constructor
    · rintro ⟨⟩
      obtain ⟨hahead, hnotMem⟩ := h.order_erase
      exact ⟨hlinked, by rwa [horder], by rwa [horder], hclears.1⟩
    · intro hne
      have htaken : taken ≠ node := fun heq => hne (congrArg ListCall.unlink heq)
      exact .inl ⟨hlinked, by rw [horder]; exact h.step_taken hbehind.1 hbehind.2 htaken⟩

end On

namespace Off

variable {node : ν} {next : Option ν} {ahead : List ν} {s s' : NodeRun ν} {call : ListCall ν}

/-- **An operation at a node that has been taken out** leaves it so. -/
theorem step (h : Off node next ahead s) (hbehind : Behind node ahead s call) :
    ∃ s', s.step call = some ((), s') ∧ call ≠ .unlink node ∧ Off node next ahead s' := by
  obtain ⟨s', hstep, hlinked, hkeeps, -, -⟩ := NodeRun.keepsList h.linked hbehind.legal
  obtain ⟨behind, horder⟩ := h.order
  have hnotMem := h.notMem
  have hnext : node ≠ call.node → s'.nodes.next node = next := fun hne =>
    (hkeeps node h.notMem hne).1.trans h.next_eq
  have hne : ∀ {taken : ν}, taken ∈ s.order → node ≠ taken := by
    rintro taken hmem rfl
    exact hnotMem hmem
  refine ⟨s', hstep, ?_⟩
  cases call with
  | insertBefore inserted position =>
    have horder' := order_insertBefore hstep
    refine ⟨(fun heq => by cases heq), hlinked, ?_, ?_, hnext (Ne.symm hbehind.1.1)⟩
    · rw [horder', horder]
      exact insertBeforeIn_behind (fun hmem => hbehind.2.2 (List.mem_of_mem_tail hmem)) inserted
        behind
    · rw [horder', mem_insertBeforeIn hbehind.2.1, not_or]
      exact ⟨Ne.symm hbehind.1.1, hnotMem⟩
  | remove taken =>
    have horder' := (order_remove hstep).1
    refine ⟨(fun heq => by cases heq), hlinked, ?_, ?_, hnext (hne hbehind.1)⟩
    · have hmem := hbehind.1
      rw [horder] at hmem
      rw [horder', horder]
      exact erase_behind hmem hbehind.2
    · rw [horder']
      exact fun hmem => hnotMem (List.mem_of_mem_erase hmem)
  | unlink taken =>
    have horder' := order_unlink hstep
    refine ⟨fun heq => hne hbehind.1 (ListCall.unlink.inj heq).symm, hlinked, ?_, ?_,
      hnext (hne hbehind.1)⟩
    · have hmem := hbehind.1
      rw [horder] at hmem
      rw [horder', horder]
      exact erase_behind hmem hbehind.2
    · rw [horder']
      exact fun hmem => hnotMem (List.mem_of_mem_erase hmem)

/-- The same of all operations at the node. -/
theorem exec (h : Off node next ahead s) {calls : List (ListCall ν)}
    (hbehind : Along NodeRun.step (Behind node ahead) s calls) :
    ∃ os s', exec NodeRun.step s calls = some (os, s') ∧ .unlink node ∉ calls ∧
      Off node next ahead s' := by
  induction calls generalizing s with
  | nil => exact ⟨[], s, rfl, by simp, h⟩
  | cons call calls ih =>
    obtain ⟨hcall, hcalls⟩ := hbehind
    obtain ⟨t, hstep, hne, ht⟩ := h.step hcall
    obtain ⟨os, s', hrun, hnotMem, hs'⟩ := ih ht (hcalls () t hstep)
    refine ⟨() :: os, s', exec_cons_eq_some.mpr ⟨(), os, t, hstep, hrun, rfl⟩, ?_, hs'⟩
    simp [Ne.symm hne, hnotMem]

end Off

/-- **All operations at a node.** -/
theorem On.exec {node : ν} {ahead : List ν} {s : NodeRun ν} (h : On node ahead s)
    {calls : List (ListCall ν)} (hbehind : Along NodeRun.step (Behind node ahead) s calls) :
    ∃ os s', exec NodeRun.step s calls = some (os, s') ∧
      (.unlink node ∈ calls → Off node none ahead s') ∧
      (.unlink node ∉ calls → On node ahead s' ∨ Off node ahead.head? ahead s') := by
  induction calls generalizing s with
  | nil => exact ⟨[], s, rfl, by simp, fun _ => .inl h⟩
  | cons call calls ih =>
    obtain ⟨hcall, hcalls⟩ := hbehind
    obtain ⟨t, hstep, hunlink, hother⟩ := h.step hcall
    have hrest := hcalls () t hstep
    have hcons : ∀ {os s'}, Run.exec NodeRun.step t calls = some (os, s') →
        Run.exec NodeRun.step s (call :: calls) = some (() :: os, s') := fun hrun =>
      exec_cons_eq_some.mpr ⟨(), _, t, hstep, hrun, rfl⟩
    by_cases hcall' : call = .unlink node
    · obtain ⟨os, s', hrun, -, hs'⟩ := (hunlink hcall').exec hrest
      exact ⟨_, s', hcons hrun, fun _ => hs', fun hnotMem =>
        absurd (hcall' ▸ List.mem_cons_self) hnotMem⟩
    rcases hother hcall' with ht | ht
    · obtain ⟨os, s', hrun, hmem, hnotMem⟩ := ih ht hrest
      refine ⟨_, s', hcons hrun, fun h => hmem ?_, fun h => hnotMem ?_⟩
      · exact (List.mem_cons.mp h).resolve_left (Ne.symm hcall')
      · exact fun hcalls => h (List.mem_cons_of_mem _ hcalls)
    · obtain ⟨os, s', hrun, hnotMem, hs'⟩ := ht.exec hrest
      refine ⟨_, s', hcons hrun, fun h => ?_, fun _ => .inr hs'⟩
      exact absurd ((List.mem_cons.mp h).resolve_left (Ne.symm hcall')) hnotMem

/-! ## The loop -/

/-- After the operations at a node, the loop goes on where it should. -/
theorem On.exec_increment {body : LoopBody ν} {visited : List ν} {node : ν} {ahead : List ν}
    {s : NodeRun ν} (h : On node ahead s)
    (hbehind : Along NodeRun.step (Behind node ahead) s (body visited node)) :
    ∃ os s', Run.exec NodeRun.step s (body visited node) = some (os, s') ∧
      s'.nodes.Linked s'.order ∧ (∃ behind, s'.order = behind ++ ahead) ∧
      s'.nodes.next node = if .unlink node ∈ body visited node then none else ahead.head? := by
  obtain ⟨os, s', hrun, hunlink, hother⟩ := h.exec hbehind
  refine ⟨os, s', hrun, ?_⟩
  by_cases hmem : .unlink node ∈ body visited node
  · have hoff := hunlink hmem
    rw [if_pos hmem]
    exact ⟨hoff.linked, hoff.order, hoff.next_eq⟩
  · rw [if_neg hmem]
    rcases hother hmem with hon | hoff
    · obtain ⟨behind, horder⟩ := hon.order
      exact ⟨hon.linked, ⟨behind ++ [node], by simp [horder]⟩, hon.next_eq⟩
    · exact ⟨hoff.linked, hoff.order, hoff.next_eq⟩

theorem forEach_end (body : LoopBody ν) (fuel : ℕ) (visited : List ν) (s : NodeRun ν) :
    forEach body (fuel + 1) endIterator visited s = some (visited, s) := rfl

/-- One turn of the loop. -/
theorem forEach_turn {body : LoopBody ν} {visited : List ν} {node : ν} {s s' : NodeRun ν}
    {os : List Unit} (h : exec NodeRun.step s (body visited node) = some (os, s')) (fuel : ℕ) :
    forEach body (fuel + 1) (makeIterator (some node)) visited s =
      forEach body fuel (makeIterator (s'.nodes.next node)) (visited ++ [node]) s' := by
  rw [forEach]
  simp [equal, endIterator, makeIterator, dereference, increment, h]

/-- The loop from the first node that is ahead. -/
theorem forEach_ahead (body : LoopBody ν) {ahead : List ν} :
    ∀ {visited : List ν} {s : NodeRun ν}, s.nodes.Linked s.order →
      (∃ behind, s.order = behind ++ ahead) → LegalLoop body visited ahead s →
      ∃ s', (∀ fuel, ahead.length < fuel →
          forEach body fuel (makeIterator ahead.head?) visited s =
            some (visited ++ visits body visited ahead, s')) ∧
        s'.nodes.Linked s'.order ∧
        ∃ behind, s'.order = behind ++ ahead.drop (visits body visited ahead).length := by
  induction ahead with
  | nil =>
    intro visited s hlinked horder _
    refine ⟨s, fun fuel hfuel => ?_, hlinked, ⟨s.order, by simp⟩⟩
    obtain ⟨fuel, rfl⟩ := Nat.exists_eq_succ_of_ne_zero (Nat.pos_iff_ne_zero.mp hfuel)
    rw [visits, List.append_nil]
    exact forEach_end body fuel visited s
  | cons node ahead ih =>
    intro visited s hlinked horder hlegal
    obtain ⟨hbehind, hrest⟩ := hlegal
    obtain ⟨os, s', hrun, hlinked', horder', hnext⟩ := On.exec_increment ⟨hlinked, horder⟩ hbehind
    rw [visits]
    by_cases hmem : .unlink node ∈ body visited node
    · rw [if_pos hmem] at hnext ⊢
      refine ⟨s', fun fuel hfuel => ?_, hlinked', by simpa using horder'⟩
      obtain ⟨fuel, rfl⟩ := Nat.exists_eq_add_of_le hfuel
      rw [show (node :: ahead).length.succ + fuel = (ahead.length + fuel + 1) + 1 by
        simp only [List.length_cons]; omega]
      rw [List.head?_cons, forEach_turn hrun, hnext]
      exact forEach_end body _ _ s'
    · rw [if_neg hmem] at hnext ⊢
      obtain ⟨s'', hloop, hlinked'', horder''⟩ := ih hlinked' horder' (hrest hmem os s' hrun)
      refine ⟨s'', fun fuel hfuel => ?_, hlinked'', by simpa using horder''⟩
      obtain ⟨fuel, rfl⟩ := Nat.exists_eq_add_of_le' (Nat.zero_lt_of_lt hfuel)
      rw [List.head?_cons, forEach_turn hrun, hnext, hloop fuel (by simpa using hfuel)]
      simp

theorem visits_prefix (body : LoopBody ν) (ahead : List ν) :
    ∀ visited, visits body visited ahead <+: ahead := by
  induction ahead with
  | nil => simp [visits]
  | cons node ahead ih =>
    intro visited
    rw [visits]
    split_ifs
    · simp
    · exact List.prefix_cons_inj node |>.mpr (ih _)

/-- A loop visits all nodes iff it unlinks none but the last while it is there. -/
theorem visits_eq_iff (body : LoopBody ν) (ahead : List ν) :
    ∀ visited, visits body visited ahead = ahead ↔
      ∀ before node after, ahead = before ++ node :: after → after ≠ [] →
        .unlink node ∉ body (visited ++ before) node := by
  induction ahead with
  | nil => simp [visits]
  | cons node ahead ih =>
    intro visited
    rw [visits]
    constructor
    · intro h before n after heq hafter
      cases before with
      | nil =>
        obtain ⟨rfl, rfl⟩ := List.cons.inj heq
        intro hmem
        rw [List.append_nil] at hmem
        rw [if_pos hmem] at h
        exact hafter (List.cons.inj h).2.symm
      | cons b before =>
        obtain ⟨rfl, rfl⟩ := List.cons.inj heq
        split_ifs at h with hmem
        · simp at h
        · have hall := (ih _).mp (List.cons.inj h).2 before n after rfl hafter
          simpa using hall
    · intro h
      have hall : visits body (visited ++ [node]) ahead = ahead := by
        rw [ih]
        intro before n after heq hafter
        have hnode := h (node :: before) n after (by rw [heq]; rfl) hafter
        rwa [List.append_assoc]
      split_ifs with hmem
      · cases ahead with
        | nil => rfl
        | cons a ahead =>
          have hfirst := h [] node (a :: ahead) rfl (List.cons_ne_nil a ahead)
          rw [List.append_nil] at hfirst
          exact absurd hmem hfirst
      · rw [hall]

/-- **A loop over a list**, which changes it behind the node it is at only and does not put that node
back: it ends, has visited nodes from the first on, once and in order, and leaves the list linked,
with the nodes it has not visited at its end. It visits all iff it unlinks none but the last of them
while it is there. -/
theorem forEach_visits (body : LoopBody ν) {s : NodeRun ν} (h : s.nodes.Linked s.order)
    (hlegal : LegalLoop body [] s.order s) :
    ∃ s', (∀ fuel, s.order.length < fuel →
        forEach body fuel (makeIterator s.order.head?) [] s =
          some (visits body [] s.order, s')) ∧
      s'.nodes.Linked s'.order ∧
      (∃ behind, s'.order = behind ++ s.order.drop (visits body [] s.order).length) ∧
      visits body [] s.order <+: s.order ∧
      (visits body [] s.order = s.order ↔
        ∀ before node after, s.order = before ++ node :: after → after ≠ [] →
          .unlink node ∉ body before node) := by
  obtain ⟨s', hloop, hlinked, hbehind⟩ := forEach_ahead body h ⟨[], rfl⟩ hlegal
  exact ⟨s', hloop, hlinked, hbehind, visits_prefix body _ [], visits_eq_iff body _ []⟩

/-- Each of three nodes is taken out while the loop is at it, the first two by `remove`; another is
inserted before the second. -/
theorem forEach_visits_taken :
    let body : LoopBody ℕ := fun _ node =>
      if node = 2 then [.unlink 2]
      else if node = 1 then [.insertBefore 7 1, .remove 1]
      else [.remove node]
    let nodes : Nodes ℕ :=
      ⟨fun a => if a < 2 then some (a + 1) else none, fun a => if 0 < a then some (a - 1) else none⟩
    ∃ s', (∀ fuel, 3 < fuel →
        forEach body fuel (makeIterator (some 0)) [] ⟨nodes, [0, 1, 2]⟩ = some ([0, 1, 2], s')) ∧
      s'.nodes.Linked s'.order := by
  intro body nodes
  obtain ⟨s', hloop, hlinked, -⟩ := forEach_visits body (s := ⟨nodes, [0, 1, 2]⟩)
    ⟨⟨rfl, rfl, rfl, trivial⟩, ⟨rfl, rfl, rfl, trivial⟩, by decide⟩ (by decide)
  exact ⟨s', hloop, hlinked⟩

end Hologine.Container
