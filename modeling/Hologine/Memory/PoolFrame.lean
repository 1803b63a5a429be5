import Hologine.Memory.PoolSafety

/-!
# What allocations write in live blocks

Runs of all the pool allocators of an arena pool, and the bytes of the blocks that were live before
each allocation.

`takeNode` links the nodes before and after the one it takes to each other. In an arena with live
blocks they are no longer free: the `previous` of the free node is the first block of the arena,
and the `next` of the last free node is the block before it.

Results:
* `ArenaState.takenMemory_iff`: the live blocks of an arena stay as they are when a node is taken
  **iff** the link that is assigned is there already.
* `PoolSystem.leavesLive_iff`: in runs whose calls are safe, every allocation leaves the live blocks
  as they are **iff** each takes no free node of an arena that has blocks, or assigns such a link.
* `PoolSystem.not_leavesLive`: a second block of an arena overwrites the first.
-/

namespace Hologine.Memory

open Hologine.Library Hologine.Library.Run MemoryArenaPool

/-! ## The property and its condition -/

/-- The link that `takeNode` assigns in a block that is not free is there already. -/
def PoolAllocator.LinkHeld (a : PoolAllocator) (m : Memory) (node : UInt64) : Prop :=
  if nodeSize m node > 1 then nodeNext m (nodePrevious m node) = node + a.objectSize
  else nodePrevious m (nodeNext m node) = nodePrevious m node

instance (a : PoolAllocator) (m : Memory) (node : UInt64) : Decidable (a.LinkHeld m node) :=
  inferInstanceAs (Decidable (if nodeSize m node > 1 then _ = _ else _ = _))

namespace PoolSystem

variable {π : Type} (p : Platform π)

/-- **What an allocation must leave**: every byte of every block that was live. -/
def LeavesLive (s : PoolSystem π) (call : PoolCall) : Prop :=
  ∀ self size, call = .allocate self size → ∃ block s', s.step p call = some (block, s') ∧
    ∀ other owner b, s.live other = some owner → s.allocators owner = some b →
      ∀ x, other.toNat ≤ x → x < other.toNat + b.objectSize.toNat →
        s'.arenas.memory x = s.arenas.memory x

/-- **The condition**: the size is refused, or no arena of the allocator has a free node, or the
link that taking the node assigns is there already. -/
def LinksHeld (s : PoolSystem π) : PoolCall → Prop
  | .allocate self size => ∀ a ∈ s.allocators self, size ≤ a.objectSize →
    ∀ r ∈ PoolAllocator.getFirstFreeNode (PoolAllocator.steps s.arenas.pool) a.arenaListHead
      s.arenas.pool, r.1 ≠ 0 → a.LinkHeld s.arenas.memory r.1
  | _ => True

instance (s : PoolSystem π) (call : PoolCall) : Decidable (s.LinksHeld call) :=
  match call with
  | .allocate self size => inferInstanceAs (Decidable (∀ a ∈ s.allocators self,
      size ≤ a.objectSize → ∀ r ∈ PoolAllocator.getFirstFreeNode
        (PoolAllocator.steps s.arenas.pool) a.arenaListHead s.arenas.pool, r.1 ≠ 0 → _))
  | .reserve _ => isTrue trivial
  | .deallocate _ _ => isTrue trivial
  | .write _ _ _ => isTrue trivial

end PoolSystem

/-! ## One arena -/

section

variable {π : Type} {p : Platform π} {pool : MemoryArenaPool} {m : Memory}
  {allocators : UInt64 → Option PoolAllocator} {live : UInt64 → Option UInt64}
  {a : PoolAllocator} {self : UInt64} {i k : Nat}

/-- **The live blocks of an arena stay as they are** when a node of it is taken, just if the link
that is assigned in one of them is there already. -/
theorem ArenaState.takenMemory_iff
    (h : ArenaState pool m a.objectSize.toNat a.objectCount.toNat i k) (hg : pool.Geometry)
    (hi : i < pool.arenaCount.toNat) (hsize : 24 ≤ a.objectSize.toNat) (hpos : 0 < k)
    (hk : k < a.objectCount.toNat)
    (hsplits : k + 1 < a.objectCount.toNat →
      (k + 2) * a.objectSize.toNat ≤ pool.arenaSize.toNat) :
    (∀ x, pool.arenaBase i ≤ x → x < pool.arenaBase i + k * a.objectSize.toNat →
        a.takenMemory m (pool.record i).freeNodeList x = m x) ↔
      a.LinkHeld m (pool.record i).freeNodeList := by
  have hend := hg.arenaEnd_lt hi
  have hnode := h.list hk
  have hprevious := h.previous hk
  have hspan := h.span hk
  have hfirst : a.objectSize.toNat ≤ k * a.objectSize.toNat := Nat.le_mul_of_pos_left _ hpos
  unfold PoolAllocator.takenMemory PoolAllocator.LinkHeld
  by_cases hmore : nodeSize m (pool.record i).freeNodeList > 1
  · -- the rest of the span is linked to the first block
    have hfit := hsplits (by
      rw [gt_iff_lt, UInt64.lt_iff_toNat_lt, UInt64.toNat_one, hspan] at hmore
      omega)
    rw [Nat.add_mul] at hfit
    have hnext : ((pool.record i).freeNodeList + a.objectSize).toNat =
        (pool.record i).freeNodeList.toNat + a.objectSize.toNat := by
      rw [UInt64.toNat_add, Nat.mod_eq_of_lt (by omega)]
    rw [if_pos hmore, if_pos hmore]
    simp only [splitMemory, Nat.add_zero]
    refine Memory.store64_eq_iff (by omega) (by omega) fun x hx hx' => ?_
    rw [Memory.store64_apply_of_outside (by omega), Memory.store64_apply_of_outside (by omega),
      Memory.store64_apply_of_outside (by omega)]
  · -- the node is the last, and the block before it is linked to the first
    have hnext := h.next hk
    have hback : k * a.objectSize.toNat = (k - 1) * a.objectSize.toNat + a.objectSize.toNat := by
      rw [← Nat.succ_mul, Nat.succ_eq_add_one, Nat.sub_add_cancel hpos]
    rw [if_neg hmore, if_neg hmore]
    exact Memory.store64_eq_iff (by omega) (by omega) fun _ _ _ => rfl

namespace PoolInv

/-- **Taking a node leaves all live blocks as they are** just if it leaves those of its arena. -/
theorem takenMemory_iff (h : PoolInv pool m allocators live none)
    (hi : i < pool.arenaCount.toNat) (hself : (pool.record i).allocator = self)
    (ha : allocators self = some a) (hlist : (pool.record i).freeNodeList ≠ 0)
    (hroom : a.HasRoom pool m i) :
    (∀ other owner b, live other = some owner → allocators owner = some b →
        ∀ x, other.toNat ≤ x → x < other.toNat + b.objectSize.toNat →
          a.takenMemory m (pool.record i).freeNodeList x = m x) ↔
      a.LinkHeld m (pool.record i).freeNodeList := by
  have hne := h.named self a ha
  have hsized := (h.regular self a ha).sized
  have hend := h.geometry.arenaEnd_lt hi
  obtain ⟨k, hstate, hpos, hk⟩ := h.arenaState hi hself ha
  have hpos : 0 < k := Nat.pos_of_ne_zero fun hzero => by simpa using hpos hzero
  have hk := hk hlist
  have hsplits := splits_of_hasRoom h.geometry hi hstate hroom
  have hfits := hstate.fits
  have hcounted := hstate.counted
  rw [← hstate.takenMemory_iff h.geometry hi hsized hpos hk hsplits]
  constructor
  · -- each byte of the first `k` blocks is in one of them
    intro hall x hx hx'
    obtain ⟨j, hj, hle, hlt⟩ : ∃ j < k, pool.arenaBase i + j * a.objectSize.toNat ≤ x ∧
        x < pool.arenaBase i + j * a.objectSize.toNat + a.objectSize.toNat := by
      have hdiv := Nat.div_add_mod' (x - pool.arenaBase i) a.objectSize.toNat
      have hmod := Nat.mod_lt (x - pool.arenaBase i) (Nat.lt_of_lt_of_le (by decide) hsized)
      exact ⟨(x - pool.arenaBase i) / a.objectSize.toNat,
        (Nat.div_lt_iff_lt_mul (by omega)).mpr (by omega), by omega, by omega⟩
    have hblock : (UInt64.ofNat (pool.arenaBase i + j * a.objectSize.toNat)).toNat =
        pool.arenaBase i + j * a.objectSize.toNat := by
      rw [UInt64.toNat_ofNat', Nat.mod_eq_of_lt (by omega)]
    refine hall _ self a ((h.blocks.live _ self).mpr ⟨i, hi, hself, hne, _, _, j, sizesOf_eq ha,
      by omega, hblock⟩) ha x (by omega) (by omega)
  · intro hall other owner b hlive hb x hx hx'
    obtain ⟨i', j, hi', ⟨howner, -⟩, hget, hj, hblock⟩ := h.exists_arena hb hlive
    have hin := h.blocks.within hi' (howner ▸ h.named owner b hb) (howner ▸ sizesOf_eq hb) hj
    rw [h.geometry.base i' hi'] at hblock
    by_cases heq : i' = i
    · subst heq
      obtain rfl : owner = self := howner.symm.trans hself
      obtain rfl := Option.some.inj (ha.symm.trans hb)
      have hle : (j + 1) * a.objectSize.toNat ≤ k * a.objectSize.toNat :=
        Nat.mul_le_mul_right _ (by omega)
      rw [Nat.succ_mul] at hle
      exact hall x (by omega) (by omega)
    · obtain ⟨-, -, houtside, -⟩ :=
        h.takeNode hi hself ha hlist hroom (by simp) ()
      refine houtside x ?_
      rcases arenas_apart pool heq with h | h
      · exact .inl (by omega)
      · exact .inr (by omega)

end PoolInv

end

namespace PoolSystem

variable {π : Type} {p : Platform π} {arenaSizeHint arenaCountHint : UInt64}
  {sizes : UInt64 → Option UInt64} {s s' : PoolSystem π} {env : π} {call : PoolCall}
  {self size block : UInt64} {a : PoolAllocator}

/-- What an allocation that is defined must leave. -/
theorem leavesLive_of_step (hstep : s.step p (.allocate self size) = some (block, s')) :
    s.LeavesLive p (.allocate self size) ↔ ∀ other owner b, s.live other = some owner →
      s.allocators owner = some b → ∀ x, other.toNat ≤ x →
        x < other.toNat + b.objectSize.toNat → s'.arenas.memory x = s.arenas.memory x := by
  constructor
  · intro hleaves
    obtain ⟨block', s'', hstep', hsame⟩ := hleaves self size rfl
    obtain ⟨-, rfl⟩ := Prod.mk.inj (Option.some.inj (hstep.symm.trans hstep'))
    exact hsame
  · rintro hsame _ _ ⟨⟩
    exact ⟨block, s', hstep, hsame⟩

/-- The condition where the walk along the arenas returns. -/
theorem linksHeld_iff {node : UInt64} {pool' : MemoryArenaPool} (ha : s.allocators self = some a)
    (hsize : size ≤ a.objectSize)
    (hrun : PoolAllocator.getFirstFreeNode (PoolAllocator.steps s.arenas.pool) a.arenaListHead
      s.arenas.pool = some (node, pool')) :
    s.LinksHeld (.allocate self size) ↔ (node ≠ 0 → a.LinkHeld s.arenas.memory node) := by
  unfold LinksHeld
  simp only [ha, hrun, Option.mem_some_iff, forall_eq', hsize, forall_const]

/-- **One call** that is safe leaves the live blocks as they are just if its condition holds. -/
theorem leavesLive_step_iff (h : s.Inv) (hlegal : s.Legal call) (hsound : s.Sound p call) :
    s.LeavesLive p call ↔ s.LinksHeld call := by
  cases call with
  | reserve count => exact iff_of_true nofun trivial
  | deallocate self block => exact iff_of_true nofun trivial
  | write block offset bytes => exact iff_of_true nofun trivial
  | allocate self size =>
    obtain ⟨a, ha⟩ := Option.isSome_iff_exists.mp hlegal
    by_cases hsize : size ≤ a.objectSize
    · obtain ⟨hroom, hrequest⟩ := hsound a ha hsize
      rcases h.walk ha with ⟨i, hi, hself, hlist, hrun⟩ | ⟨hfull, hrun⟩
      · -- a node of an arena that has live blocks
        have hroom := hroom i hi hself hlist
        obtain ⟨list, hallocate, -⟩ :=
          h.allocate_node (p := p) ha hsize hi hself hlist hrun hroom s.arenas.env
        have htaken := h.takenMemory_iff hi hself ha hlist hroom
        rw [linksHeld_iff ha hsize hrun, forall_prop_of_true hlist]
        refine (leavesLive_of_step (step_allocate ha hallocate)).trans ?_
        dsimp only
        exact htaken
      · -- an arena that had no allocator
        obtain ⟨block, a', pool', m', env', hallocate, -, -, hspares, -⟩ :=
          h.allocate_request ha hsize hfull hrun (hrequest hfull)
        rw [linksHeld_iff ha hsize hrun, forall_prop_of_false (not_not_intro rfl), iff_true]
        refine (leavesLive_of_step (step_allocate ha hallocate)).mpr ?_
        intro other owner b hlive hb x hx hx'
        obtain ⟨j, l, hj, ⟨howner, -⟩, -, hl, hother⟩ := h.exists_arena hb hlive
        have hnamed := howner ▸ h.named owner b hb
        have hin := h.blocks.within hj hnamed (howner ▸ sizesOf_eq hb) hl
        rw [h.geometry.base j hj] at hother
        exact hspares j hj hnamed x (by omega) (by omega)
    · have hrefused : a.allocate p self size s.arenas = some (0, a, { s.arenas with
          env := p.pushException .invalidArgument s.arenas.env }) :=
        if_pos (UInt64.not_le.mp hsize)
      rw [leavesLive_of_step (step_allocate ha hrefused)]
      refine iff_of_true (fun _ _ _ _ _ _ _ _ => rfl) fun b hb hle => ?_
      obtain rfl := Option.some.inj (ha.symm.trans hb)
      exact (hsize hle).elim

/-- **In runs whose calls are safe**, every allocation leaves every block that was live as it is
just if each takes no free node of an arena that has blocks, or assigns a link that is there. -/
theorem leavesLive_iff (hplaced : Placed p arenaSizeHint arenaCountHint env)
    (hsizes : ∀ self size, sizes self = some size → self ≠ 0 ∧ size ≠ 0) (m : Memory)
    (calls : List PoolCall)
    (hlegal : Along (step p) Legal (start p arenaSizeHint arenaCountHint sizes m env) calls)
    (hsound : Along (step p) (Sound p) (start p arenaSizeHint arenaCountHint sizes m env) calls) :
    Along (step p) (LeavesLive p) (start p arenaSizeHint arenaCountHint sizes m env) calls ↔
      Along (step p) LinksHeld (start p arenaSizeHint arenaCountHint sizes m env) calls :=
  along_congr Inv (fun _ _ h hcall => leavesLive_step_iff h hcall.1 hcall.2)
    (fun _ _ _ _ h hcall _ hstep => (safe_step h hcall.1 hcall.2).2 _ _ hstep)
    (inv_start hplaced hsizes m) (hlegal.and hsound)

/-- Two allocators take a block each, and the first another, for which its first block has what is
written there. -/
theorem leavesLive_iff_two_allocators :
    Along (step Platform.granting) (LeavesLive Platform.granting)
      (start Platform.granting 256 2
        (fun self => if self = 1 then some 64 else if self = 2 then some 16 else none)
        (fun _ => 0) ())
      [.allocate 1 64, .allocate 2 16, .write 0x20000 0 [0x80, 0, 2, 0, 0, 0, 0, 0],
        .allocate 1 64] := by
  exact (leavesLive_iff ⟨by decide, by decide, by decide, by decide⟩
    (fun _ _ => ne_zero_of_two (by decide) (by decide)) _ _ (by decide) (by decide)).mpr (by decide)

/-- **A second block of an arena overwrites the first**, in which its client has written. -/
theorem not_leavesLive : ¬ ∀ calls : List PoolCall,
    Along (step Platform.granting) Legal
      (start Platform.granting 256 2 (Function.update (fun _ => none) 1 (some 64)) (fun _ => 0) ())
      calls →
    Along (step Platform.granting) (LeavesLive Platform.granting)
      (start Platform.granting 256 2 (Function.update (fun _ => none) 1 (some 64)) (fun _ => 0) ())
      calls := by
  intro hall
  have h := along_iff_reached.mp (hall [.allocate 1 64, .write 0x20000 0 [1], .allocate 1 64]
    (by decide)) [.allocate 1 64, .write 0x20000 0 [1]] (.allocate 1 64) [] rfl
  have hlast : (exec (step Platform.granting) (start Platform.granting 256 2
      (Function.update (fun _ => none) 1 (some 64)) (fun _ => 0) ())
        [.allocate 1 64, .write 0x20000 0 [1]]).map (fun r =>
          (r.2.live 0x20000, sizesOf r.2.allocators 1, r.2.arenas.memory 0x20000,
            (r.2.step Platform.granting (.allocate 1 64)).map fun r => r.2.arenas.memory 0x20000)) =
      some (some 1, some (64, 4), 1, some 0x80) := by decide
  obtain ⟨⟨outputs, s⟩, hrun, heq⟩ := Option.map_eq_some_iff.mp hlast
  obtain ⟨hlive, heq⟩ := Prod.mk.inj heq
  obtain ⟨hsizes, heq⟩ := Prod.mk.inj heq
  obtain ⟨hbefore, hafter⟩ := Prod.mk.inj heq
  obtain ⟨a, ha, -⟩ := Option.map_eq_some_iff.mp hsizes
  have hsize := (Prod.mk.inj (Option.some.inj ((sizesOf_eq ha).symm.trans hsizes))).1
  obtain ⟨block, s', hstep, hsame⟩ := h outputs s hrun 1 64 rfl
  have hkept := hsame 0x20000 1 a hlive ha 0x20000 (by decide) (by rw [hsize]; decide)
  rw [hstep] at hafter
  exact absurd ((Option.some.inj hafter).symm.trans (hkept.trans hbefore)) (by decide)

end PoolSystem

end Hologine.Memory
