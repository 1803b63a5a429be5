import Hologine.Library.Chain
import Hologine.Library.Memory
import Hologine.Memory.MemoryRegion

/-!
# Fixed-size allocation

Model of `fixed_allocator::allocate` and `fixed_allocator::deallocate`
(`core/memory/fixed_allocator.cpp:70-101`). The free list is in the free nodes themselves: the
first word of each is the pointer to the next.
-/

namespace Hologine.Memory

open Hologine.Library

/-- `fixed_allocator`, of which only `free_nodes` and `object_size` are used after construction. -/
structure FixedAllocator where
  freeNodes : UInt64
  objectSize : UInt64
  deriving Repr, DecidableEq

namespace FixedAllocator

/-- `free_node::next`. -/
def nextFreeNode (m : Memory) (node : UInt64) : UInt64 := m.load64 node.toNat

/-- The free nodes of an allocator, in the order they would be allocated in. -/
def FreeList (m : Memory) (a : FixedAllocator) (nodes : List UInt64) : Prop :=
  Chain (fun node => ofPointer (nextFreeNode m node)) (ofPointer a.freeNodes) nodes

variable {π : Type} (p : Platform π)

/-- `allocate`: a node, or null. -/
def allocate (a : FixedAllocator) (size : UInt64) (m : Memory) (env : π) :
    UInt64 × FixedAllocator × π :=
  if size > a.objectSize then (0, a, p.pushException .invalidArgument env)
  else
    let currentFreeNode := a.freeNodes
    if currentFreeNode ≠ 0 then
      (currentFreeNode, { a with freeNodes := nextFreeNode m currentFreeNode }, env)
    else (currentFreeNode, a, p.pushException .outOfMemory env)

/-- `deallocate`. Writing through a null pointer has no defined behaviour. -/
def deallocate (a : FixedAllocator) (pointer : UInt64) (m : Memory) :
    Option (FixedAllocator × Memory) :=
  if pointer = 0 then none
  else some ({ a with freeNodes := pointer }, m.store64 pointer.toNat a.freeNodes)

variable {p} {a : FixedAllocator} {size : UInt64} {m : Memory} {env : π}

/-- An allocator without free nodes returns null, and only the exceptions change. -/
theorem allocate_of_empty (hsize : size ≤ a.objectSize) (h : a.freeNodes = 0) :
    a.allocate p size m env = (0, a, p.pushException .outOfMemory env) := by
  rw [allocate, if_neg (UInt64.not_lt.mpr hsize), h, if_neg (fun hne => hne rfl)]

/-- An allocator with free nodes returns the first. -/
theorem allocate_of_ne (hsize : size ≤ a.objectSize) (h : a.freeNodes ≠ 0) :
    a.allocate p size m env =
      (a.freeNodes, { a with freeNodes := nextFreeNode m a.freeNodes }, env) := by
  rw [allocate, if_neg (UInt64.not_lt.mpr hsize), if_pos h]

end FixedAllocator

end Hologine.Memory
