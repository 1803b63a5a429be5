import Hologine.Threading.EventDisposal

/-!
# Event queues over their lives

What becomes of the nodes of the queues of `EventQueue`, in any run of pushes and drains of any
threads. A node that a push takes is linked to the tail, which `begin` clears, and to no head: no
drain passes it, so none gives it back.

* `push_writes`: a push writes the node it takes, and the link of the tail.
* `Life` is what lasts: of each queue the first nodes hold the events that were pushed first, and
  the others are free.

Results:
* `Life.step`, `Life.exec`: every call keeps that.
* `System.keeps_first`: **a queue of `n` nodes takes the first `n` events that are ever pushed to
  it**, however often it is drained in between, and no others; they stay in its nodes.
-/

namespace Hologine.Threading

open Hologine.Library Hologine.Library.Run Hologine.Memory

variable {π : Type} {p : Platform π} {q : EventQueue} {e : UInt64} {m : Memory} {env : π}

/-- **A push that finds a node** writes the event to it, and to nothing else but the link of the
tail. -/
theorem push_writes (p : Platform π) (e : UInt64) (m : Memory) (env : π)
    (hsize : q.allocator.objectSize = eventNodeSize) (hfree : q.allocator.freeNodes ≠ 0)
    (htail : q.eventNodeListTail ≠ 0 → Apart q.eventNodeListTail q.allocator.freeNodes) :
    ∃ q' m', q.push p e m env = (true, q', m', env) ∧
      q'.allocator = { q.allocator with
        freeNodes := FixedAllocator.nextFreeNode m q.allocator.freeNodes } ∧
      q'.eventNodeListHead = q.eventNodeListHead ∧
      q'.eventNodeListTail = q.allocator.freeNodes ∧
      nodeEvent m' q.allocator.freeNodes = e ∧
      ∀ x, (x < q.allocator.freeNodes.toNat ∨ q.allocator.freeNodes.toNat + 16 ≤ x) →
        (q.eventNodeListTail ≠ 0 →
          x < q.eventNodeListTail.toNat ∨ q.eventNodeListTail.toNat + 8 ≤ x) → m' x = m x := by
  unfold EventQueue.push
  rw [FixedAllocator.allocate_of_ne (UInt64.le_of_eq hsize.symm) hfree]
  dsimp only
  rw [if_neg hfree]
  have hnode : ∀ x, (x < q.allocator.freeNodes.toNat ∨ q.allocator.freeNodes.toNat + 16 ≤ x) →
      setNodeEvent (setNodeNext (constructNode m q.allocator.freeNodes) q.allocator.freeNodes 0)
        q.allocator.freeNodes e x = m x := by
    intro x hx
    unfold constructNode setNodeEvent setNodeNext
    rw [Memory.store64_apply_of_outside (by omega), Memory.store64_apply_of_outside (by omega),
      Memory.store64_apply_of_outside (by omega), Memory.store64_apply_of_outside (by omega)]
  refine ⟨_, _, rfl, rfl, rfl, rfl, ?_, fun x hx htail' => ?_⟩
  · split_ifs with htailed
    · have hapart := htail htailed
      unfold Apart at hapart
      unfold nodeEvent setNodeEvent setNodeNext
      rw [Memory.load64_store64_of_disjoint (by omega), Memory.load64_store64]
    · exact Memory.load64_store64 _ _ _
  · split_ifs with htailed
    · have houtside := htail' htailed
      unfold setNodeNext
      rw [Memory.store64_apply_of_outside houtside]
      exact hnode x hx
    · exact hnode x hx

/-- The events of the pushes to a queue, in order. -/
def sentTo (a : UInt64) : List QueueCall → List UInt64 :=
  List.filterMap fun
    | .push queue event => if queue = a then some event else none
    | .begin _ => none
    | .dispose _ => none
    | .deallocate _ => none

namespace System

/-- **What lasts in the life of the queues**, of the nodes they were built with, since the memory
was `m₀` and with the events that have been pushed to each so far. -/
structure Life (nodes : UInt64 → List UInt64) (m₀ : Memory) (sent : UInt64 → List UInt64)
    (s : System π) : Prop where
  silent : s.Silent
  nodup : ∀ a, (s.queues a).isSome → (nodes a).Nodup
  apart : ∀ a b, (s.queues a).isSome → (s.queues b).isSome → ∀ x ∈ nodes a, ∀ y ∈ nodes b,
    a ≠ b ∨ x ≠ y → Apart x y
  objectSize : ∀ a q, s.queues a = some q → q.allocator.objectSize = eventNodeSize
  free : ∀ a q, s.queues a = some q →
    q.allocator.FreeList s.memory ((nodes a).drop (sent a).length)
  tail : ∀ a q, s.queues a = some q → q.eventNodeListTail ≠ 0 →
    q.eventNodeListTail ∈ (nodes a).take (sent a).length
  pushed : ∀ a, (s.queues a).isSome → s.pushed a = (sent a).take (nodes a).length
  events : ∀ a, (s.queues a).isSome →
    ((nodes a).take (sent a).length).map (nodeEvent s.memory) = s.pushed a
  outside : ∀ x, (∀ a, (s.queues a).isSome → ∀ node ∈ nodes a,
    x < node.toNat ∨ node.toNat + 16 ≤ x) → s.memory x = m₀ x

/-- The first of what is left of a list comes after what has been taken. -/
theorem take_drop_succ {α : Type} {l rest : List α} {k : ℕ} {x : α} (h : l.drop k = x :: rest) :
    k < l.length ∧ l.take (k + 1) = l.take k ++ [x] ∧ l.drop (k + 1) = rest := by
  have hk : k < l.length := by
    by_contra hle
    rw [List.drop_eq_nil_of_le (Nat.le_of_not_lt hle)] at h
    exact absurd h (by simp)
  rw [List.drop_eq_getElem_cons hk] at h
  obtain ⟨hx, hrest⟩ := List.cons.inj h
  exact ⟨hk, by rw [List.take_succ_eq_append_getElem hk, hx], hrest⟩

namespace Life

variable {nodes : UInt64 → List UInt64} {m₀ : Memory} {sent sent' : UInt64 → List UInt64}
  {s s' : System π} {a : UInt64}

/-- What a queue has room for is what counts. -/
theorem congr (h : s.Life nodes m₀ sent)
    (htake : ∀ c, (nodes c).take (sent' c).length = (nodes c).take (sent c).length)
    (hdrop : ∀ c, (nodes c).drop (sent' c).length = (nodes c).drop (sent c).length)
    (hsent : ∀ c, (sent' c).take (nodes c).length = (sent c).take (nodes c).length) :
    s.Life nodes m₀ sent' where
  silent := h.silent
  nodup := h.nodup
  apart := h.apart
  objectSize := h.objectSize
  free c q hq := hdrop c ▸ h.free c q hq
  tail c q hq := htake c ▸ h.tail c q hq
  pushed c hc := hsent c ▸ h.pushed c hc
  events c hc := htake c ▸ h.events c hc
  outside := h.outside

/-- **A queue is full** when it has been pushed as many events as it has nodes. -/
theorem full_iff (h : s.Life nodes m₀ sent) (hq : s.queues a = some q) :
    q.allocator.freeNodes = 0 ↔ (nodes a).length ≤ (sent a).length := by
  have hlist := h.free a q hq
  rw [← List.drop_eq_nil_iff]
  constructor
  · intro hfree
    rw [FixedAllocator.FreeList, hfree] at hlist
    exact Chain.none_iff.mp hlist
  · intro hnil
    by_contra hfree
    rw [FixedAllocator.FreeList, hnil, ofPointer_eq_some.mpr ⟨rfl, hfree⟩] at hlist
    cases hlist

/-- What is written outside the nodes is nothing to the queues. -/
theorem touch (h : s.Life nodes m₀ sent) {m : Memory}
    (hkeeps : ∀ a, (s.queues a).isSome → ∀ node ∈ nodes a, Keeps s.memory m node) :
    Life nodes m sent { s with memory := m } where
  silent := ⟨h.silent.head, h.silent.idle, h.silent.delivered⟩
  nodup := h.nodup
  apart := h.apart
  objectSize := h.objectSize
  free a q hq := (h.free a q hq).congr fun node hnode x hx hx' =>
    (hkeeps a (by rw [hq]; rfl) node (List.mem_of_mem_drop hnode) x hx (by omega)).symm
  tail := h.tail
  pushed := h.pushed
  events a ha := (List.map_congr_left fun node hnode =>
    (hkeeps a ha node (List.mem_of_mem_take hnode)).nodeEvent_eq).trans (h.events a ha)
  outside _ _ := rfl

/-- An event for a queue that is full. -/
theorem append_full (h : s.Life nodes m₀ sent) (hfull : (nodes a).length ≤ (sent a).length)
    (e : UInt64) : s.Life nodes m₀ (append sent a e) := by
  refine h.congr (fun c => ?_) (fun c => ?_) fun c => ?_
  all_goals
    by_cases hc : c = a
    · subst hc
      simp [append_self, List.take_of_length_le, List.drop_eq_nil_of_le, List.take_append_of_le_length,
        hfull, Nat.le_succ_of_le]
    · rw [append_of_ne sent hc]

/-- The words of the nodes that a push does not take. -/
theorem words_kept (h : s.Life nodes m₀ sent) (ha : (s.queues a).isSome) {node tail : UInt64}
    (hnode : node ∈ nodes a) (htail : tail ≠ 0 → tail ∈ nodes a) {m' : Memory}
    (hwrite : ∀ x, (x < node.toNat ∨ node.toNat + 16 ≤ x) →
      (tail ≠ 0 → x < tail.toNat ∨ tail.toNat + 8 ≤ x) → m' x = s.memory x)
    {c : UInt64} (hc : (s.queues c).isSome) {y : UInt64} (hy : y ∈ nodes c)
    (hne : c ≠ a ∨ y ≠ node) :
    nodeEvent m' y = nodeEvent s.memory y ∧
      ((tail ≠ 0 → y ≠ tail) → nodeNext m' y = nodeNext s.memory y) := by
  have hnode' := h.apart c a hc ha y hy node hnode hne
  have htail' : tail ≠ 0 → y ≠ tail → Apart y tail := fun h0 hyt =>
    h.apart c a hc ha y hy tail (htail h0) (.inr hyt)
  unfold Apart at hnode' htail'
  constructor
  · refine Memory.load64_congr fun x hx hx' => hwrite x (by omega) fun h0 => ?_
    by_cases hyt : y = tail
    · rw [hyt] at hx
      omega
    · have := htail' h0 hyt
      omega
  · intro hyt
    refine Memory.load64_congr fun x hx hx' => hwrite x (by omega) fun h0 => ?_
    have := htail' h0 (hyt h0)
    omega

/-- **The node that a push takes** is the first that no event was kept in, and the rest are free. -/
theorem first_free (h : s.Life nodes m₀ sent) (hq : s.queues a = some q)
    (hfree : q.allocator.freeNodes ≠ 0) :
    ∃ rest, Chain (fun node => ofPointer (FixedAllocator.nextFreeNode s.memory node))
        (ofPointer (FixedAllocator.nextFreeNode s.memory q.allocator.freeNodes)) rest ∧
      (sent a).length < (nodes a).length ∧
      (nodes a).take ((sent a).length + 1) =
        (nodes a).take (sent a).length ++ [q.allocator.freeNodes] ∧
      (nodes a).drop ((sent a).length + 1) = rest ∧ q.allocator.freeNodes ∈ nodes a ∧
      q.allocator.freeNodes ∉ rest ∧
      ∀ y ∈ (nodes a).take (sent a).length, y ≠ q.allocator.freeNodes ∧ y ∉ rest := by
  have hlist := h.free a q hq
  rw [FixedAllocator.FreeList, ofPointer_eq_some.mpr ⟨rfl, hfree⟩] at hlist
  obtain ⟨rest, hdrop, hrest⟩ := Chain.some_iff.mp hlist
  obtain ⟨hlt, htake, hdrop'⟩ := take_drop_succ hdrop
  have hnodup := h.nodup a (by rw [hq]; rfl)
  rw [← List.take_append_drop (sent a).length (nodes a), hdrop] at hnodup
  obtain ⟨-, hnodupRest, hdisjoint⟩ := List.nodup_append.mp hnodup
  refine ⟨rest, hrest, hlt, htake, hdrop', List.mem_of_mem_drop (hdrop ▸ List.mem_cons_self),
    (List.nodup_cons.mp hnodupRest).1, fun y hy => ⟨hdisjoint y hy _ List.mem_cons_self, ?_⟩⟩
  exact fun hmem => hdisjoint y hy y (List.mem_cons_of_mem _ hmem) rfl

/-- **Every event stays where it is kept** under what a push writes: a node that is free, and the
link of the tail. -/
theorem events_kept (h : s.Life nodes m₀ sent) (hq : s.queues a = some q)
    (hfree : q.allocator.freeNodes ≠ 0) {m' : Memory}
    (hwrite : ∀ x, (x < q.allocator.freeNodes.toNat ∨ q.allocator.freeNodes.toNat + 16 ≤ x) →
      (q.eventNodeListTail ≠ 0 → x < q.eventNodeListTail.toNat ∨
        q.eventNodeListTail.toNat + 8 ≤ x) → m' x = s.memory x)
    {c : UInt64} (hc : (s.queues c).isSome) :
    ((nodes c).take (sent c).length).map (nodeEvent m') = s.pushed c := by
  have ha : (s.queues a).isSome := by rw [hq]; rfl
  obtain ⟨rest, -, -, -, -, hfirst, -, htaken⟩ := h.first_free hq hfree
  rw [← h.events c hc]
  refine List.map_congr_left fun y hy => ?_
  refine (h.words_kept ha hfirst (fun h0 => List.mem_of_mem_take (h.tail a q hq h0)) hwrite hc
    (List.mem_of_mem_take hy) ?_).1
  by_cases hca : c = a
  · subst hca
    exact .inr (htaken y hy).1
  · exact .inl hca

/-- **Every node but the one that is taken stays free** under what a push writes. -/
theorem free_kept (h : s.Life nodes m₀ sent) (hq : s.queues a = some q)
    (hfree : q.allocator.freeNodes ≠ 0) {m' : Memory}
    (hwrite : ∀ x, (x < q.allocator.freeNodes.toNat ∨ q.allocator.freeNodes.toNat + 16 ≤ x) →
      (q.eventNodeListTail ≠ 0 → x < q.eventNodeListTail.toNat ∨
        q.eventNodeListTail.toNat + 8 ≤ x) → m' x = s.memory x) :
    Chain (fun node => ofPointer (FixedAllocator.nextFreeNode m' node))
        (ofPointer (FixedAllocator.nextFreeNode s.memory q.allocator.freeNodes))
        ((nodes a).drop ((sent a).length + 1)) ∧
      ∀ c r, s.queues c = some r → c ≠ a →
        r.allocator.FreeList m' ((nodes c).drop (sent c).length) := by
  have ha : (s.queues a).isSome := by rw [hq]; rfl
  obtain ⟨rest, hrest, -, -, hdrop, hfirst, hnotMem, htaken⟩ := h.first_free hq hfree
  have htail : q.eventNodeListTail ≠ 0 → q.eventNodeListTail ∈ nodes a := fun h0 =>
    List.mem_of_mem_take (h.tail a q hq h0)
  constructor
  · rw [hdrop]
    refine Chain.congr hrest fun y hy => congrArg ofPointer ?_
    have hne : y ≠ q.allocator.freeNodes := fun heq => hnotMem (heq ▸ hy)
    refine (h.words_kept ha hfirst htail hwrite ha (List.mem_of_mem_drop (hdrop ▸ hy))
      (.inr hne)).2 ?_
    rintro h0 rfl
    exact (htaken _ (h.tail a q hq h0)).2 hy
  · intro c r hr hc
    refine Chain.congr (h.free c r hr) fun y hy => congrArg ofPointer ?_
    have hrsome : (s.queues c).isSome := by rw [hr]; rfl
    have hmem := List.mem_of_mem_drop hy
    refine (h.words_kept ha hfirst htail hwrite hrsome hmem (.inl hc)).2 ?_
    -- the tail is a node of the queue, and lies apart from those of another
    rintro h0 rfl
    have hself := h.apart c a hrsome ha _ hmem _ (htail h0) (.inl hc)
    unfold Apart at hself
    omega

/-- **A push that finds a node** keeps the event in it. -/
theorem push_node (h : s.Life nodes m₀ sent) (hq : s.queues a = some q)
    (hfree : q.allocator.freeNodes ≠ 0) (e : UInt64) :
    ∃ s', s.step p (.push a e) = some (true, s') ∧ s'.Life nodes m₀ (append sent a e) := by
  have ha : (s.queues a).isSome := by rw [hq]; rfl
  obtain ⟨rest, -, hlt, htake, -, hfirst, -, htaken⟩ := h.first_free hq hfree
  have htail : q.eventNodeListTail ≠ 0 → q.eventNodeListTail ∈ nodes a := fun h0 =>
    List.mem_of_mem_take (h.tail a q hq h0)
  obtain ⟨q', m', hpush, hallocator, hhead, htail', hevent, hwrite⟩ :=
    push_writes p e s.memory s.env (h.objectSize a q hq) hfree fun h0 =>
      h.apart a a ha ha _ (htail h0) _ hfirst (.inr (htaken _ (h.tail a q hq h0)).1)
  obtain ⟨hfreeSelf, hfreeOther⟩ := h.free_kept hq hfree hwrite
  have hlength : (append sent a e a).length = (sent a).length + 1 := by
    rw [append_self, List.length_append, List.length_singleton]
  refine ⟨{ s with
    queues := Function.update s.queues a (some q')
    memory := m'
    pushed := append s.pushed a e }, ?_, ?_⟩
  · rw [System.step, pushTo, hq, Option.bind_eq_bind, Option.bind_some, hpush]
    rfl
  constructor
  case silent =>
    exact ⟨head_update h.silent.head (hhead.trans (h.silent.head a q hq)), h.silent.idle,
      h.silent.delivered⟩
  case nodup => exact fun c hc => h.nodup c (isSome_of_update ha hc)
  case apart =>
    exact fun c d hc hd => h.apart c d (isSome_of_update ha hc) (isSome_of_update ha hd)
  case objectSize =>
    exact forall_update (hallocator ▸ h.objectSize a q hq) fun c r hr _ => h.objectSize c r hr
  case free =>
    refine forall_update ?_ fun c r hr hc => ?_
    · rw [hlength, FixedAllocator.FreeList, hallocator]
      exact hfreeSelf
    · rw [append_of_ne sent hc]
      exact hfreeOther c r hr hc
  case tail =>
    refine forall_update (fun _ => ?_) fun c r hr hc => ?_
    · rw [hlength, htake, htail']
      simp
    · rw [append_of_ne sent hc]
      exact h.tail c r hr
  case pushed =>
    intro c hc
    by_cases hca : c = a
    · subst hca
      rw [append_self, List.take_of_length_le (by simpa using Nat.succ_le_of_lt hlt)]
      refine (append_self s.pushed c e).trans ?_
      rw [h.pushed c ha, List.take_of_length_le hlt.le]
    · rw [append_of_ne sent hca]
      exact (append_of_ne s.pushed hca e).trans (h.pushed c (isSome_of_update ha hc))
  case events =>
    intro c hc
    by_cases hca : c = a
    · subst hca
      rw [hlength, htake, List.map_append, List.map_singleton, hevent,
        h.events_kept hq hfree hwrite ha]
      exact (append_self s.pushed c e).symm
    · rw [append_of_ne sent hca, h.events_kept hq hfree hwrite (isSome_of_update ha hc)]
      exact (append_of_ne s.pushed hca e).symm
  case outside =>
    intro x hx
    have hx' : ∀ c, (s.queues c).isSome → ∀ node ∈ nodes c,
        x < node.toNat ∨ node.toNat + 16 ≤ x := fun c hc => hx c (isSome_update hc _)
    refine (hwrite x (hx' a ha _ hfirst) fun h0 => ?_).trans (h.outside x hx')
    have := hx' a ha _ (htail h0)
    omega

/-- **A push that finds no node** leaves the queues as they are. -/
theorem push_full (h : s.Life nodes m₀ sent) (hq : s.queues a = some q)
    (hfree : q.allocator.freeNodes = 0) (e : UInt64) :
    ∃ s', s.step p (.push a e) = some (false, s') ∧ s'.Life nodes m₀ (append sent a e) := by
  have hfull := (h.full_iff hq).mp hfree
  have hqueues : Function.update s.queues a (some q) = s.queues := by
    rw [← hq]
    exact Function.update_eq_self a s.queues
  have hlife := h.append_full hfull e
  refine ⟨{ s with env := p.pushException .outOfMemory s.env }, ?_,
    ⟨⟨hlife.silent.head, hlife.silent.idle, hlife.silent.delivered⟩, hlife.nodup, hlife.apart,
      hlife.objectSize, hlife.free, hlife.tail, hlife.pushed, hlife.events, hlife.outside⟩⟩
  rw [System.step, pushTo, hq, Option.bind_eq_bind, Option.bind_some,
    EventQueue.push_of_empty (h.objectSize a q hq) hfree]
  dsimp only
  rw [hqueues]
  rfl

/-- **`begin` finds no event** and forgets the tail. -/
theorem begin (h : s.Life nodes m₀ sent) (hq : s.queues a = some q) :
    ∃ s', s.step p (.begin a) = some (false, s') ∧ s'.Life nodes m₀ sent := by
  have ha : (s.queues a).isSome := by rw [hq]; rfl
  have hhead := h.silent.head a q hq
  have hdrains : Function.update s.drains a .idle = s.drains := by
    rw [← h.silent.idle a]
    exact Function.update_eq_self a s.drains
  refine ⟨{ s with queues := Function.update s.queues a (some q.begin.2) }, ?_, ?_⟩
  · rw [System.step, beginOf, hq, Option.bind_eq_bind, Option.bind_some, EventQueue.begin, hhead]
    simp [Drain.ofNode, hdrains]
  constructor
  case silent => exact ⟨head_update h.silent.head rfl, h.silent.idle, h.silent.delivered⟩
  case nodup => exact fun c hc => h.nodup c (isSome_of_update ha hc)
  case apart =>
    exact fun c d hc hd => h.apart c d (isSome_of_update ha hc) (isSome_of_update ha hd)
  case objectSize =>
    exact forall_update (h.objectSize a q hq) fun c r hr _ => h.objectSize c r hr
  case free => exact forall_update (h.free a q hq) fun c r hr _ => h.free c r hr
  case tail => exact forall_update (fun h0 => absurd rfl h0) fun c r hr _ => h.tail c r hr
  case pushed => exact fun c hc => h.pushed c (isSome_of_update ha hc)
  case events => exact fun c hc => h.events c (isSome_of_update ha hc)
  case outside => exact fun x hx => h.outside x fun c hc => hx c (isSome_update hc _)

theorem sentTo_push (a c e : UInt64) : sent c ++ sentTo c [.push a e] = append sent a e c := by
  by_cases hc : c = a
  · subst hc
    simp [sentTo, append_self]
  · simp [sentTo, append_of_ne sent hc, Ne.symm hc]

/-- **Every call keeps the life of the queues**, with what it pushes. -/
theorem step (h : s.Life nodes m₀ sent) {call : QueueCall} (hlegal : s.Legal call) :
    ∃ ok s', s.step p call = some (ok, s') ∧
      s'.Life nodes m₀ fun c => sent c ++ sentTo c [call] := by
  cases call with
  | push queue event =>
    obtain ⟨q, hq⟩ := Option.isSome_iff_exists.mp hlegal
    simp only [sentTo_push]
    by_cases hfree : q.allocator.freeNodes = 0
    · obtain ⟨s', hstep, hlife⟩ := h.push_full hq hfree event
      exact ⟨false, s', hstep, hlife⟩
    · obtain ⟨s', hstep, hlife⟩ := h.push_node hq hfree event
      exact ⟨true, s', hstep, hlife⟩
  | begin queue =>
    obtain ⟨q, hq⟩ := Option.isSome_iff_exists.mp hlegal.1
    obtain ⟨s', hstep, hlife⟩ := h.begin hq
    exact ⟨false, s', hstep, by simpa [sentTo] using hlife⟩
  | dispose queue =>
    exact absurd hlegal (by simp [Legal, h.silent.idle queue, Drain.isVisiting])
  | deallocate queue =>
    exact absurd hlegal (by simp [Legal, h.silent.idle queue, Drain.isDisposed])

/-- The same of a run. -/
theorem exec {calls : List QueueCall} :
    ∀ {sent : UInt64 → List UInt64} {s : System π}, s.Life nodes m₀ sent →
      Along (System.step p) Legal s calls →
      ∃ oks s', Run.exec (System.step p) s calls = some (oks, s') ∧
        s'.Life nodes m₀ fun c => sent c ++ sentTo c calls := by
  induction calls with
  | nil => exact fun {sent s} h _ => ⟨[], s, rfl, by simpa [sentTo] using h⟩
  | cons call calls ih =>
    rintro sent s h ⟨hcall, hcalls⟩
    obtain ⟨ok, t, hstep, ht⟩ := h.step hcall
    obtain ⟨oks, s', hrun, hlife⟩ := ih ht (hcalls ok t hstep)
    refine ⟨ok :: oks, s', exec_cons_eq_some.mpr ⟨ok, oks, t, hstep, hrun, rfl⟩, ?_⟩
    have hsent : ∀ c, sentTo c (call :: calls) = sentTo c [call] ++ sentTo c calls := fun c =>
      List.filterMap_append (l := [call]) ..
    simpa [hsent, List.append_assoc] using hlife

end Life

/-- Queues as they are constructed are at the beginning of their lives. -/
theorem Start.life {nodes : UInt64 → List UInt64} {s : System π} (h : s.Start nodes)
    (hapart : ∀ a b, (s.queues a).isSome → (s.queues b).isSome → ∀ x ∈ nodes a, ∀ y ∈ nodes b,
      a ≠ b ∨ x ≠ y → Apart x y) : s.Life nodes s.memory fun _ => [] where
  silent := h.silent
  nodup a ha := by
    obtain ⟨q, hq⟩ := Option.isSome_iff_exists.mp ha
    exact Chain.nodup (h.free a q hq)
  apart := hapart
  objectSize := h.objectSize
  free := h.free
  tail a q hq htail := absurd (h.tail a q hq) htail
  pushed a _ := by rw [h.pushed a, List.take_nil]
  events a _ := by rw [h.pushed a, List.length_nil, List.take_zero, List.map_nil]
  outside _ _ := rfl

/-- The queues that there are, after a run. -/
theorem Silent.isSome_exec {s s' : System π} (h : s.Silent) {calls : List QueueCall}
    {oks : List Bool} (hlegal : Along (System.step p) Legal s calls)
    (hrun : exec (System.step p) s calls = some (oks, s')) (c : UInt64) :
    (s'.queues c).isSome = (s.queues c).isSome := by
  have hupdate : ∀ {t : System π} {a : UInt64} {q q' : EventQueue}, t.queues a = some q →
      (Function.update t.queues a (some q') c).isSome = (t.queues c).isSome := by
    intro t a q q' hq
    by_cases hc : c = a
    · rw [hc, Function.update_self, hq]
      rfl
    · rw [Function.update_of_ne hc]
  refine (exec_invariant (fun t => t.Silent ∧ (t.queues c).isSome = (s.queues c).isSome) ?_
    ⟨h, rfl⟩ hlegal hrun).2
  rintro t call ok t' ⟨ht, hsame⟩ - hstep
  refine ⟨ht.step hstep, ?_⟩
  cases call with
  | push queue event =>
    obtain ⟨q, hq, heq⟩ := Option.bind_eq_some_iff.mp hstep
    obtain ⟨-, rfl⟩ := Prod.mk.inj (Option.some.inj heq)
    exact (hupdate hq).trans hsame
  | begin queue =>
    obtain ⟨q, hq, heq⟩ := Option.bind_eq_some_iff.mp hstep
    obtain ⟨-, rfl⟩ := Prod.mk.inj (Option.some.inj heq)
    exact (hupdate hq).trans hsame
  | dispose queue => exact absurd ((step_of_idle ht.idle queue).1.symm.trans hstep) (by simp)
  | deallocate queue => exact absurd ((step_of_idle ht.idle queue).2.symm.trans hstep) (by simp)

/-- **A queue keeps the first events it is pushed, and no others.** However pushes and drains of any
threads follow one another, a queue that was built with `n` nodes takes the first `n` events that
are pushed to it, in order, each into a node of its own where it stays, delivers none, and has no
node for what comes later; nothing outside the nodes is written. -/
theorem keeps_first (p : Platform π) (nodes : UInt64 → List UInt64) (s : System π)
    (hstart : s.Start nodes)
    (hapart : ∀ a b, (s.queues a).isSome → (s.queues b).isSome → ∀ x ∈ nodes a, ∀ y ∈ nodes b,
      a ≠ b ∨ x ≠ y → Apart x y)
    (calls : List QueueCall) (hlegal : Along (step p) Legal s calls) :
    ∃ oks s', exec (step p) s calls = some (oks, s') ∧
      (∀ a, (s.queues a).isSome → ∃ q, s'.queues a = some q ∧
        s'.pushed a = (sentTo a calls).take (nodes a).length ∧
        ((nodes a).take (sentTo a calls).length).map (nodeEvent s'.memory) = s'.pushed a ∧
        q.allocator.FreeList s'.memory ((nodes a).drop (sentTo a calls).length) ∧
        s'.delivered a = []) ∧
      ∀ x, (∀ a, (s.queues a).isSome → ∀ node ∈ nodes a,
        x < node.toNat ∨ node.toNat + 16 ≤ x) → s'.memory x = s.memory x := by
  obtain ⟨oks, s', hrun, hlife⟩ := (hstart.life hapart).exec hlegal
  have hsame := hstart.silent.isSome_exec hlegal hrun
  refine ⟨oks, s', hrun, fun a ha => ?_, fun x hx => hlife.outside x fun a ha => ?_⟩
  · rw [← hsame a] at ha
    obtain ⟨q, hq⟩ := Option.isSome_iff_exists.mp ha
    exact ⟨q, hq, hlife.pushed a ha, hlife.events a ha, hlife.free a q hq,
      hlife.silent.delivered a⟩
  · rw [hsame a] at ha
    exact hx a ha

/-- A queue with one node keeps an event from before a drain, and has no node after it. -/
theorem keeps_first_drained : ∃ oks s', exec (step Platform.granting)
    (oneQueue 0x1000 0x2000 (ownedEvent 0x3000 0x1000))
    [.push 0x1000 0x3000, .begin 0x1000, .push 0x1000 0x3010] = some (oks, s') ∧
      s'.pushed 0x1000 = [0x3000] ∧ s'.delivered 0x1000 = [] := by
  have hnodes : FixedAllocator.FreeList (ownedEvent 0x3000 0x1000) ⟨0x2000, eventNodeSize⟩
      [0x2000] := .cons .nil
  have hone : ∀ a, ((oneQueue 0x1000 0x2000 (ownedEvent 0x3000 0x1000)).queues a).isSome →
      a = 0x1000 := by
    intro a ha
    by_contra hne
    simp [oneQueue, hne] at ha
  obtain ⟨oks, s', hrun, hqueues, -⟩ := keeps_first Platform.granting (fun _ => [0x2000]) _
    (start_oneQueue 0x1000 hnodes)
    (by
      rintro a b ha hb x hx y hy hne
      rw [List.mem_singleton.mp hx, List.mem_singleton.mp hy, hone a ha, hone b hb] at hne
      exact absurd hne (by simp))
    [.push 0x1000 0x3000, .begin 0x1000, .push 0x1000 0x3010] (by decide)
  obtain ⟨q, -, hpushed, -, -, hdelivered⟩ := hqueues 0x1000 (by decide)
  exact ⟨oks, s', hrun, hpushed, hdelivered⟩

end System

end Hologine.Threading
