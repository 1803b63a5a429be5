import Hologine.Container.IntrusiveList
import Hologine.Library.Memory
import Hologine.Memory.MemoryArenaPool

/-!
# The pool allocator

Model of `pool_allocator` (`core/memory/pool_allocator.cpp:17-30, 48-175, 187-234`) over an arena
pool that any number of pool allocators share. Allocators are named by their addresses, and the
arenas, free nodes included, are in one byte memory.

* A free node is `next`, `previous` and `size`, in the first bytes of the block it is. The free
  part of an arena starts as one node for all of its blocks, and `allocate` takes the first block
  and makes the rest the next node.
* `deallocate` reduces the pointer to its remainder by the object size, to find the block it is in,
  and leaves it at that. So unless it gives the arena back, it writes through a null pointer.
* A walk along the arenas of an allocator that takes more steps than there are records goes on
  forever, which is no defined behaviour, as is an access through a null pointer.
* `PoolSystem` is all the allocators of one arena pool; its clients write in the blocks they have.
-/

namespace Hologine.Memory

open Hologine.Library Hologine.Container

/-! ## Free nodes -/

/-- `free_node::next`. -/
def nodeNext (m : Memory) (node : UInt64) : UInt64 := m.load64 node.toNat

/-- `free_node::previous`. -/
def nodePrevious (m : Memory) (node : UInt64) : UInt64 := m.load64 (node.toNat + 8)

/-- `free_node::size`. -/
def nodeSize (m : Memory) (node : UInt64) : UInt64 := m.load64 (node.toNat + 16)

/-- An assignment to the field at an offset of a free node, which must not be null. -/
def setNode (offset : Nat) (node value : UInt64) (m : Memory) : Option Memory :=
  if node = 0 then none else some (m.store64 (node.toNat + offset) value)

def setNodeNext : UInt64 → UInt64 → Memory → Option Memory := setNode 0

def setNodePrevious : UInt64 → UInt64 → Memory → Option Memory := setNode 8

def setNodeSize : UInt64 → UInt64 → Memory → Option Memory := setNode 16

/-! ## The allocator -/

/-- The links of the arena records. -/
def arenaLinks : Links MemoryArenaPool Nat where
  next pool i := (pool.getRecord i).map ArenaRecord.next
  previous pool i := (pool.getRecord i).map ArenaRecord.previous
  setNext i next pool := pool.modifyRecord i fun r => { r with next := next }
  setPrevious i previous pool := pool.modifyRecord i fun r => { r with previous := previous }

/-- `pool_allocator`. -/
structure PoolAllocator where
  arenaListHead : Option Nat
  arenaListTail : Option Nat
  objectSize : UInt64
  objectCount : UInt64
  deriving Repr, DecidableEq

/-- What the allocators of an arena pool share. -/
structure Arenas (π : Type) where
  pool : MemoryArenaPool
  memory : Memory
  env : π

namespace PoolAllocator

/-- The constructor, for a size that is not zero. The count is by the size that is asked for. -/
def create (pool : MemoryArenaPool) (objectSize : UInt64) : PoolAllocator where
  arenaListHead := none
  arenaListTail := none
  objectSize := max objectSize freeNodeSize
  objectCount := pool.arenaSize / objectSize

/-- `get_first_free_node`, in so many steps: a node, or null. -/
def getFirstFreeNode : Nat → Option Nat → MemoryArenaPool → Option (UInt64 × MemoryArenaPool)
  | 0, _, _ => none
  | _, none, pool => some (0, pool)
  | steps + 1, some i, pool => do
    let record ← pool.getRecord i
    if record.freeNodeList ≠ 0 then
      let pool ← pool.modifyRecord i fun r => { r with freeNodeCount := r.freeNodeCount - 1 }
      some (record.freeNodeList, pool)
    else getFirstFreeNode steps record.next pool

/-- The steps a walk along the records can take. -/
def steps (pool : MemoryArenaPool) : Nat := (pool.records.map RecordTable.capacity).getD 0 + 1

variable {π : Type} (p : Platform π)

/-- The part of `request_empty_arena` that puts the arena on the list. -/
def linkArena (a : PoolAllocator) (i : Nat) (pool : MemoryArenaPool) :
    Option (PoolAllocator × MemoryArenaPool) :=
  match a.arenaListTail with
  | none => some ({ a with arenaListHead := some i, arenaListTail := some i }, pool)
  | some tail => do
    -- the tail stays where it is
    let pool ← IntrusiveList.insertAfter arenaLinks i tail pool
    some (a, pool)

/-- `request_empty_arena`: a record, or null. -/
def requestEmptyArena (self : UInt64) (a : PoolAllocator) (s : Arenas π) :
    Option (Option Nat × PoolAllocator × Arenas π) := do
  let (arena, pool, env) ← s.pool.takeArena p s.env
  match arena with
  | none => some (none, a, { s with pool := pool, env := env })
  | some i => do
    let pool ← pool.modifyRecord i fun r =>
      { r with allocator := self, freeNodeCount := a.objectCount, freeNodeList := r.base }
    let record ← pool.getRecord i
    let node := record.freeNodeList
    let m ← setNodeSize node a.objectCount s.memory
    let m ← setNodeNext node node m
    let m ← setNodePrevious node node m
    let (a, pool) ← a.linkArena i pool
    some (some i, a, ⟨pool, m, env⟩)

/-- The part of `allocate` that takes a free node out of its arena. -/
def takeNode (a : PoolAllocator) (node : UInt64) (s : Arenas π) : Option (UInt64 × Arenas π) := do
  let arena ← s.pool.getArena node
  -- the rest of a span, or the next node
  let (next, m) ←
    if nodeSize s.memory node > 1 then
      let next := node + a.objectSize
      let m ← setNodeSize next (nodeSize s.memory node - 1) s.memory
      let m ← setNodeNext next node m
      some (next, m)
    else some (nodeNext s.memory node, s.memory)
  let m ← setNodePrevious next (nodePrevious m node) m
  let previous := nodePrevious m node
  let record ← s.pool.getRecord arena
  if record.freeNodeCount = 0 then
    let pool ← s.pool.modifyRecord arena fun r => { r with freeNodeList := 0 }
    some (node, { s with pool := pool, memory := m })
  else
    let m ← setNodeNext previous next m
    let pool ← s.pool.modifyRecord arena fun r => { r with freeNodeList := next }
    some (node, { s with pool := pool, memory := m })

/-- `allocate`: a block, or null. -/
def allocate (self : UInt64) (a : PoolAllocator) (size : UInt64) (s : Arenas π) :
    Option (UInt64 × PoolAllocator × Arenas π) :=
  if size > a.objectSize then
    some (0, a, { s with env := p.pushException .invalidArgument s.env })
  else do
    let (node, pool) ← getFirstFreeNode (steps s.pool) a.arenaListHead s.pool
    let s := { s with pool := pool }
    if node = 0 then
      let (arena, a, s) ← a.requestEmptyArena p self s
      if arena = none then some (0, a, s)
      else
        let (node, pool) ← getFirstFreeNode (steps s.pool) arena s.pool
        if node = 0 then none
        else
          let (node, s) ← a.takeNode node { s with pool := pool }
          some (node, a, s)
    else
      let (node, s) ← a.takeNode node s
      some (node, a, s)

/-- The part of `deallocate` that gives an arena back. -/
def returnArena (a : PoolAllocator) (arena : Nat) (pool : MemoryArenaPool) :
    Option (PoolAllocator × MemoryArenaPool) := do
  let pool ← IntrusiveList.remove arenaLinks arena pool
  let record ← pool.getRecord arena
  let head := if a.arenaListHead = some arena then record.next else a.arenaListHead
  let tail := if a.arenaListTail = some arena then record.next else a.arenaListTail
  let pool ← pool.giveArena arena
  some ({ a with arenaListHead := head, arenaListTail := tail }, pool)

/-- The part of `deallocate` that links a block into the free list of its arena. -/
def linkNode (record : ArenaRecord) (node : UInt64) (m : Memory) : Option Memory := do
  let m ← setNodeSize node 1 m
  if record.freeNodeList ≠ 0 then
    let m ← setNodeNext node record.freeNodeList m
    setNodePrevious node (nodePrevious m record.freeNodeList) m
  else
    let m ← setNodeNext node node m
    setNodePrevious node node m

/-- `deallocate`. -/
def deallocate (self : UInt64) (a : PoolAllocator) (pointer : UInt64) (s : Arenas π) :
    Option (PoolAllocator × Arenas π) := do
  let arena ← s.pool.getArena pointer
  let record ← s.pool.getRecord arena
  let pointer := (pointer - record.base) % a.objectSize
  -- the assertion
  if record.allocator ≠ self then none
  else
    let pool ← s.pool.modifyRecord arena fun r => { r with freeNodeCount := r.freeNodeCount + 1 }
    if record.freeNodeCount + 1 = a.objectCount then
      let (a, pool) ← a.returnArena arena pool
      some (a, { s with pool := pool })
    else
      let m ← linkNode record pointer s.memory
      some (a, { s with pool := pool, memory := m })

end PoolAllocator

/-! ## All the allocators of an arena pool -/

/-- The allocators by their addresses, what they share, and the allocator of each live block. -/
structure PoolSystem (π : Type) where
  arenas : Arenas π
  allocators : UInt64 → Option PoolAllocator
  live : UInt64 → Option UInt64

/-- A call of an allocator or of the arena pool, or a write of a client. -/
inductive PoolCall
  | reserve (count : UInt64)
  | allocate (allocator size : UInt64)
  | deallocate (allocator block : UInt64)
  | write (block : UInt64) (offset : Nat) (bytes : List UInt8)
  deriving Repr, DecidableEq

namespace PoolSystem

variable {π : Type} (p : Platform π)

/-- One call: the block of an allocation, or null. -/
def step (s : PoolSystem π) : PoolCall → Option (UInt64 × PoolSystem π)
  | .reserve count => do
    let (_, pool, env) ← s.arenas.pool.reserve p count s.arenas.env
    some (0, { s with arenas := { s.arenas with pool := pool, env := env } })
  | .allocate self size => do
    let a ← s.allocators self
    let (block, a, arenas) ← a.allocate p self size s.arenas
    some (block, {
      arenas := arenas
      allocators := Function.update s.allocators self (some a)
      live := if block = 0 then s.live else Function.update s.live block (some self) })
  | .deallocate self block => do
    let a ← s.allocators self
    let (a, arenas) ← a.deallocate self block s.arenas
    some (0, {
      arenas := arenas
      allocators := Function.update s.allocators self (some a)
      live := Function.update s.live block none })
  | .write block offset bytes =>
    some (0, { s with arenas := { s.arenas with
      memory := s.arenas.memory.write (block.toNat + offset) bytes } })

end PoolSystem

end Hologine.Memory
