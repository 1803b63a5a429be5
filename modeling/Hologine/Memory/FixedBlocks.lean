import Hologine.Library.Run
import Hologine.Memory.FixedAllocator

/-!
# The blocks of a fixed allocator

Runs of `allocate` and `deallocate` (`core/memory/fixed_allocator.cpp:70-101`), in which clients
write to the blocks they hold. The nodes are those on the free list at the start, and a node that is
allocated is a live block.

* `FreeList.congr`, `FreeList.push`: the free list is as long as the words of its nodes stay, and
  takes a node whose word is set to its head.
* `FixedRun.conserves`: in every run the free list and the live blocks partition the nodes, no block
  is allocated that is live, and null is returned only to a request that is too large or when every
  node is live.
-/

namespace Hologine.Memory

open Hologine.Library Hologine.Library.Run

variable {π : Type} (p : Platform π)

/-- A call of an allocator, or a write by a client. -/
inductive FixedCall
  | allocate (size : UInt64)
  | deallocate (block : UInt64)
  | write (address : Nat) (bytes : List UInt8)
  deriving Repr, DecidableEq

/-- What a call returns. -/
inductive FixedResult
  | allocated (pointer : UInt64)
  | done
  deriving Repr, DecidableEq

/-- An allocator in a run: the bytes of the memory, and the blocks that are live. -/
structure FixedRun (π : Type) where
  allocator : FixedAllocator
  bytes : Memory
  live : List UInt64
  env : π

namespace FixedRun

/-- One call. -/
def step (s : FixedRun π) : FixedCall → Option (FixedResult × FixedRun π)
  | .allocate size =>
    let (pointer, allocator, env) := s.allocator.allocate p size s.bytes s.env
    let live := if pointer = 0 then s.live else pointer :: s.live
    some (.allocated pointer, { s with allocator := allocator, live := live, env := env })
  | .deallocate block =>
    (s.allocator.deallocate block s.bytes).map fun (allocator, bytes) =>
      (.done, { s with allocator := allocator, bytes := bytes, live := s.live.erase block })
  | .write address bytes => some (.done, { s with bytes := s.bytes.write address bytes })

/-- Only live blocks are deallocated, and only they are written to. -/
def Legal (s : FixedRun π) : FixedCall → Prop
  | .allocate _ => True
  | .deallocate block => block ∈ s.live
  | .write address bytes => ∃ block ∈ s.live, block.toNat ≤ address ∧
      address + bytes.length ≤ block.toNat + s.allocator.objectSize.toNat

instance (s : FixedRun π) (call : FixedCall) : Decidable (s.Legal call) :=
  match call with
  | .allocate _ => isTrue trivial
  | .deallocate block => inferInstanceAs (Decidable (block ∈ s.live))
  | .write _ _ => List.decidableBEx _ s.live

/-- **The free list and the live blocks partition the nodes.** -/
def Partitioned (nodes : List UInt64) (s : FixedRun π) : Prop :=
  ∃ free, s.allocator.FreeList s.bytes free ∧ (free ++ s.live).Perm nodes

/-- What an allocation returns: no live block, and null for a request that is too large, which
leaves the free list, or if every node is live. -/
def Answers (nodes : List UInt64) (s s' : FixedRun π) : FixedCall → FixedResult → Prop
  | .allocate size, .allocated pointer => pointer ∉ s.live ∧
      (pointer = 0 ↔ s.allocator.objectSize < size ∨ ∀ node ∈ nodes, node ∈ s.live) ∧
      (s.allocator.objectSize < size → s'.allocator = s.allocator ∧ s'.bytes = s.bytes)
  | .allocate _, .done => False
  | _, _ => True

/-- **A call conserves the nodes.** -/
def Conserves (nodes : List UInt64) (s : FixedRun π) (call : FixedCall) : Prop :=
  ∃ result s', s.step p call = some (result, s') ∧ s'.Partitioned nodes ∧
    s.Answers nodes s' call result

end FixedRun

/-- No two nodes overlap. -/
def NodesApart (size : UInt64) (nodes : List UInt64) : Prop :=
  ∀ a ∈ nodes, ∀ b ∈ nodes, a ≠ b →
    a.toNat + size.toNat ≤ b.toNat ∨ b.toNat + size.toNat ≤ a.toNat

instance (size : UInt64) (nodes : List UInt64) : Decidable (NodesApart size nodes) :=
  have (a : UInt64) : Decidable (∀ b ∈ nodes, a ≠ b →
      a.toNat + size.toNat ≤ b.toNat ∨ b.toNat + size.toNat ≤ a.toNat) :=
    List.decidableBAll _ nodes
  List.decidableBAll _ nodes

/-! ## The free list -/

variable {p}

namespace FixedAllocator

variable {a : FixedAllocator} {m m' : Memory} {nodes : List UInt64} {node : UInt64}

/-- No node is null. -/
theorem FreeList.ne_zero (h : a.FreeList m nodes) : ∀ node ∈ nodes, node ≠ 0 :=
  Chain.forall_mem h (fun _ hhead => (ofPointer_eq_some.mp hhead).2)
    fun _ _ hnext => (ofPointer_eq_some.mp hnext).2

/-- **The free list stays as long as the words of its nodes do.** -/
theorem FreeList.congr (h : a.FreeList m nodes)
    (hword : ∀ node ∈ nodes, ∀ x, node.toNat ≤ x → x < node.toNat + 8 → m x = m' x) :
    a.FreeList m' nodes := by
  refine Chain.congr h fun node hnode => ?_
  rw [nextFreeNode, nextFreeNode, Memory.load64_congr (hword node hnode)]

/-- **A node that is set to the head of the free list heads it.** -/
theorem FreeList.push (h : a.FreeList m nodes) (hnull : node ≠ 0)
    (hword : ∀ b ∈ nodes, b.toNat + 8 ≤ node.toNat ∨ node.toNat + 8 ≤ b.toNat) :
    FreeList (m.store64 node.toNat a.freeNodes) { a with freeNodes := node } (node :: nodes) := by
  have hnext : nextFreeNode (m.store64 node.toNat a.freeNodes) node = a.freeNodes :=
    Memory.load64_store64 _ _ _
  rw [FreeList, ofPointer_eq_some.mpr ⟨rfl, hnull⟩]
  refine .cons ?_
  rw [hnext]
  refine h.congr fun b hb x hx hx' => ?_
  rcases hword b hb with hbefore | hafter
  · exact (Memory.store64_apply_of_outside (.inl (by omega))).symm
  · exact (Memory.store64_apply_of_outside (.inr (by omega))).symm

end FixedAllocator

/-! ## Runs -/

namespace FixedRun

variable {s s' : FixedRun π} {nodes : List UInt64} {call : FixedCall} {result : FixedResult}

/-- **What lasts in a run**: the nodes are partitioned; they are not null, are large enough for a
word, and neither overlap nor repeat. -/
structure Inv (nodes : List UInt64) (s : FixedRun π) : Prop where
  partitioned : s.Partitioned nodes
  nodup : nodes.Nodup
  nonnull : ∀ node ∈ nodes, node ≠ 0
  word : 8 ≤ s.allocator.objectSize.toNat
  apart : NodesApart s.allocator.objectSize nodes

theorem Inv.of_partitioned (hinv : s.Inv nodes) (hpartitioned : s'.Partitioned nodes)
    (hsize : s'.allocator.objectSize = s.allocator.objectSize) : s'.Inv nodes :=
  ⟨hpartitioned, hinv.nodup, hinv.nonnull, hsize ▸ hinv.word, hsize ▸ hinv.apart⟩

/-- **What an allocation does.** -/
theorem Inv.allocate (hinv : s.Inv nodes) (size : UInt64) :
    ∃ pointer s', s.step p (.allocate size) = some (.allocated pointer, s') ∧ s'.Inv nodes ∧
      s.Answers nodes s' (.allocate size) (.allocated pointer) := by
  obtain ⟨free, hfree, hperm⟩ := hinv.partitioned
  have hlive : (0 : UInt64) ∉ s.live := fun h0 =>
    hinv.nonnull 0 (hperm.subset (List.mem_append_right free h0)) rfl
  by_cases hsize : size > s.allocator.objectSize
  · -- the request is too large
    have hrun : s.allocator.allocate p size s.bytes s.env =
        (0, s.allocator, p.pushException .invalidArgument s.env) := if_pos hsize
    refine ⟨0, { s with env := p.pushException .invalidArgument s.env }, ?_, ?_, hlive, ?_, ?_⟩
    · simp only [step, hrun, if_true]
    · exact hinv.of_partitioned ⟨free, hfree, hperm⟩ rfl
    · exact iff_of_true rfl (.inl hsize)
    · exact fun _ => ⟨rfl, rfl⟩
  have hle := UInt64.not_lt.mp hsize
  by_cases hempty : s.allocator.freeNodes = 0
  · -- every node is live
    have hrun : s.allocator.allocate p size s.bytes s.env =
        (0, s.allocator, p.pushException .outOfMemory s.env) :=
      FixedAllocator.allocate_of_empty hle hempty
    obtain rfl : free = [] := by
      rw [FixedAllocator.FreeList, hempty] at hfree
      exact Chain.none_iff.mp hfree
    refine ⟨0, { s with env := p.pushException .outOfMemory s.env }, ?_, ?_, hlive, ?_, ?_⟩
    · simp only [step, hrun, if_true]
    · exact hinv.of_partitioned ⟨[], hfree, hperm⟩ rfl
    · exact iff_of_true rfl (.inr fun node hnode => hperm.symm.subset hnode)
    · exact fun hbig => absurd hbig hsize
  · -- the first free node is allocated
    have hrun : s.allocator.allocate p size s.bytes s.env = (s.allocator.freeNodes,
        { s.allocator with
          freeNodes := FixedAllocator.nextFreeNode s.bytes s.allocator.freeNodes }, s.env) :=
      FixedAllocator.allocate_of_ne hle hempty
    rw [FixedAllocator.FreeList, ofPointer_eq_some.mpr ⟨rfl, hempty⟩] at hfree
    obtain ⟨rest, rfl, hrest⟩ := Chain.some_iff.mp hfree
    have hnew : s.allocator.freeNodes ∉ s.live := fun hmem =>
      (List.nodup_append.mp (hperm.nodup_iff.mpr hinv.nodup)).2.2 _ List.mem_cons_self _ hmem rfl
    have hnode := hperm.subset (List.mem_append_left s.live List.mem_cons_self)
    refine ⟨s.allocator.freeNodes, { s with
      allocator := { s.allocator with
        freeNodes := FixedAllocator.nextFreeNode s.bytes s.allocator.freeNodes }
      live := s.allocator.freeNodes :: s.live }, ?_, ?_, hnew, ?_, ?_⟩
    · simp only [step, hrun, if_neg hempty]
    · exact hinv.of_partitioned ⟨rest, hrest, List.perm_middle.trans hperm⟩ rfl
    · refine iff_of_false hempty ?_
      rintro (hbig | hall)
      · exact hsize hbig
      · exact hnew (hall _ hnode)
    · exact fun hbig => absurd hbig hsize

/-- A live block and a free node are different nodes. -/
theorem ne_of_perm {free live : List UInt64} (hperm : (free ++ live).Perm nodes)
    (hnodup : nodes.Nodup) {node block : UInt64} (hnode : node ∈ free) (hblock : block ∈ live) :
    node ∈ nodes ∧ block ∈ nodes ∧ node ≠ block :=
  ⟨hperm.subset (List.mem_append_left live hnode), hperm.subset (List.mem_append_right free hblock),
    (List.nodup_append.mp (hperm.nodup_iff.mpr hnodup)).2.2 _ hnode _ hblock⟩

/-- **A live block that is deallocated is free.** -/
theorem Inv.deallocate (hinv : s.Inv nodes) {block : UInt64} (hblock : block ∈ s.live) :
    ∃ s', s.step p (.deallocate block) = some (.done, s') ∧ s'.Inv nodes := by
  obtain ⟨free, hfree, hperm⟩ := hinv.partitioned
  have hnull : block ≠ 0 := hinv.nonnull _ (hperm.subset (List.mem_append_right free hblock))
  have hword : ∀ b ∈ free, b.toNat + 8 ≤ block.toNat ∨ block.toNat + 8 ≤ b.toNat := by
    intro b hb
    obtain ⟨hb', hblock', hne⟩ := ne_of_perm hperm hinv.nodup hb hblock
    have hword := hinv.word
    have := hinv.apart b hb' block hblock' hne
    omega
  have hrun : s.allocator.deallocate block s.bytes = some ({ s.allocator with freeNodes := block },
      s.bytes.store64 block.toNat s.allocator.freeNodes) := if_neg hnull
  refine ⟨{ s with
    allocator := { s.allocator with freeNodes := block }
    bytes := s.bytes.store64 block.toNat s.allocator.freeNodes
    live := s.live.erase block }, ?_, hinv.of_partitioned ⟨block :: free, ?_, ?_⟩ rfl⟩
  · simp only [FixedRun.step, hrun, Option.map_some]
  · exact hfree.push hnull hword
  · exact List.perm_middle.symm.trans
      (((List.perm_cons_erase hblock).symm.append_left free).trans hperm)

/-- **A write to a live block leaves the free list.** -/
theorem Inv.write (hinv : s.Inv nodes) {address : Nat} {bytes : List UInt8}
    (hlegal : s.Legal (.write address bytes)) :
    ({ s with bytes := s.bytes.write address bytes } : FixedRun π).Inv nodes := by
  obtain ⟨free, hfree, hperm⟩ := hinv.partitioned
  obtain ⟨block, hblock, hstart, hend⟩ := hlegal
  refine hinv.of_partitioned ⟨free, hfree.congr fun node hnode x hx hx' => ?_, hperm⟩ rfl
  obtain ⟨hnode', hblock', hne⟩ := ne_of_perm hperm hinv.nodup hnode hblock
  have hword := hinv.word
  have hapart := hinv.apart node hnode' block hblock' hne
  exact (Memory.write_apply_of_outside (by omega)).symm

/-- **What one call keeps**, and what it answers. -/
theorem Inv.step (hinv : s.Inv nodes) (hlegal : s.Legal call) :
    ∃ result s', s.step p call = some (result, s') ∧ s'.Inv nodes ∧
      s.Answers nodes s' call result := by
  cases call with
  | allocate size =>
    obtain ⟨pointer, s', hstep, hinv', hanswers⟩ := hinv.allocate size
    exact ⟨.allocated pointer, s', hstep, hinv', hanswers⟩
  | deallocate block =>
    obtain ⟨s', hstep, hinv'⟩ := hinv.deallocate hlegal
    exact ⟨.done, s', hstep, hinv', trivial⟩
  | write address bytes => exact ⟨.done, _, rfl, hinv.write hlegal, trivial⟩

/-- A run starts with every node on the free list. -/
theorem inv_start (hfree : s.allocator.FreeList s.bytes nodes) (hlive : s.live = [])
    (hword : 8 ≤ s.allocator.objectSize.toNat) (hapart : NodesApart s.allocator.objectSize nodes) :
    s.Inv nodes := by
  refine ⟨⟨nodes, hfree, ?_⟩, Chain.nodup hfree, hfree.ne_zero, hword, hapart⟩
  rw [hlive, List.append_nil]

/-- **In every run the nodes are conserved.** -/
theorem conserves (hfree : s.allocator.FreeList s.bytes nodes) (hlive : s.live = [])
    (hword : 8 ≤ s.allocator.objectSize.toNat) (hapart : NodesApart s.allocator.objectSize nodes)
    (calls : List FixedCall) (hlegal : Along (step p) Legal s calls) :
    Along (step p) (Conserves p nodes) s calls := by
  refine Along.of_defined (Inv nodes) (fun t call hinv hlegal => ?_)
    (inv_start hfree hlive hword hapart) hlegal
  obtain ⟨result, t', hstep, hinv', hanswers⟩ := hinv.step hlegal
  exact ⟨result, t', hstep, hinv', result, t', hstep, hinv'.partitioned, hanswers⟩

/-- The bytes of a memory with three free nodes, the first at `0x1000`. -/
def threeNodes : Memory :=
  ((Memory.store64 (fun _ => 0) 0x1000 0x1010).store64 0x1010 0x1020).store64 0x1020 0

/-- Two nodes are allocated and written to, and the first is given back. -/
theorem conserves_threeNodes :
    Along (step Platform.granting) (Conserves Platform.granting [0x1000, 0x1010, 0x1020])
      ⟨⟨0x1000, 16⟩, threeNodes, [], ()⟩
      [.allocate 16, .write 0x1000 [1, 2, 3], .allocate 8, .deallocate 0x1000, .allocate 17] := by
  refine conserves ?_ rfl (by decide) (by decide) _ (by decide)
  exact .cons (.cons (.cons .nil))

end FixedRun

end Hologine.Memory
