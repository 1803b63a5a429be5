import Hologine.Memory.BlockingAllocator
import Hologine.Memory.FixedBlocks
import Mathlib.Data.List.Nodup

/-!
# Threads with a fixed allocator

Threads call a `fixed_allocator` (`core/memory/fixed_allocator.cpp:70-101`) through a
`blocking_allocator_proxy` (`core/memory/blocking_allocator_proxy.cpp:14-32`), statement by
statement, and in between write to the blocks they hold and give them to each other without the
lock. A thread deallocates only what it holds.

* `FixedThreads.Inv.step`: what lasts from one action to the next. The calls are those of
  `FixedRun`, which `FixedRun.Inv.allocate`, `FixedRun.Inv.deallocate` and `FixedRun.Inv.write` are
  about.
* `FixedThreads.safe_interleaved`: **no two threads hold a block, only its holder changes
  it, no node is lost**, null is returned just where it must be, and some call can go on.
-/

namespace Hologine.Memory

open Hologine.Library Hologine.Library.Run Hologine.Library.Locked

variable {τ π : Type}

/-- What a client does to memory. -/
abbrev ClientWrite := Nat × List UInt8

/-- What a call does for all to see. -/
abbrev AllocatorEffect (τ : Type) := Effect τ AllocatorCall AllocatorResult ClientWrite

/-- A step of a thread: in a call or writing, or giving a block to another thread. -/
inductive FixedAction (τ : Type)
  | proxy (action : Action τ AllocatorCall ClientWrite)
  | give (t t' : τ) (block : UInt64)
  deriving Repr, DecidableEq

/-- The threads, the proxy and the allocator, and who holds which block. -/
structure FixedThreads (τ π : Type) where
  proxy : BlockingAllocatorProxy τ (FixedPlace τ) (FixedShared π)
  held : List (τ × UInt64)

namespace FixedThreads

/-- The size of the objects. -/
def objectSize (s : FixedThreads τ π) : UInt64 := s.proxy.settled.allocator.objectSize

/-- The blocks that are held. -/
def blocks (s : FixedThreads τ π) : List UInt64 := s.held.map Prod.snd

/-- Threads deallocate, write to and give away only what they hold. -/
def Legal (s : FixedThreads τ π) : FixedAction τ → Prop
  | .proxy (.call t (.deallocate pointer)) => (t, pointer) ∈ s.held
  | .proxy (.touch t (address, bytes)) => ∃ holding ∈ s.held, holding.1 = t ∧
      holding.2.toNat ≤ address ∧ address + bytes.length ≤ holding.2.toNat + s.objectSize.toNat
  | .give t _ block => (t, block) ∈ s.held
  | _ => True

/-- The calls that have returned, as a run of the allocator. -/
def returned (s : FixedThreads τ π) : FixedRun π :=
  ⟨s.proxy.settled.allocator, s.proxy.settled.bytes, s.blocks, s.proxy.settled.env⟩

/-- **What a step keeps safe**, from `s` to `s'`. -/
structure Safe (nodes : List UInt64) (s s' : FixedThreads τ π) (action : FixedAction τ)
    (effect : Option (AllocatorEffect τ)) : Prop where
  /-- No block is held by two threads, or twice. -/
  exclusive : s'.blocks.Nodup
  /-- When no thread is in the allocator the free list and the blocks partition the nodes. -/
  conserved : (∀ t call, ¬ s'.proxy.InOperation t call) → ∃ free,
    s'.proxy.shared.allocator.FreeList s'.proxy.shared.bytes free ∧ (free ++ s'.blocks).Perm nodes
  /-- What is allocated is held by no thread; it is null where the request is too large or every
  node is held. -/
  answers : ∀ t size alignment pointer,
    effect = some (.operation t (.allocate size alignment) (.allocated pointer)) →
      pointer ∉ s.blocks ∧
        (pointer = 0 ↔ s.objectSize < size ∨ ∀ node ∈ nodes, node ∈ s.blocks)
  /-- A block changes only by a write of its holder, or while its holder deallocates it. -/
  kept : ∀ t block, (t, block) ∈ s.held →
    (∃ write, action = .proxy (.touch t write)) ∨
      AllocatorCall.deallocate block ∈ s.proxy.pending t ∨
        ∀ x, block.toNat ≤ x → x < block.toNat + s.objectSize.toNat →
          s'.proxy.shared.bytes x = s.proxy.shared.bytes x

section

variable (p : τ → Platform π)

/-- **What lasts**: the calls that have returned are a run of the allocator, and what is being
deallocated is held until it is free. -/
structure Inv (nodes : List UInt64) (s : FixedThreads τ π) : Prop where
  settled : s.proxy.Settled (fixedCode p)
  returned : s.returned.Inv nodes
  deallocating : ∀ t pointer, .deallocate pointer ∈ s.proxy.pending t → (t, pointer) ∈ s.held

variable [DecidableEq τ]

/-- The blocks held after an effect: what is allocated is held by the thread that asked. -/
def heldAfter (held : List (τ × UInt64)) : Option (AllocatorEffect τ) → List (τ × UInt64)
  | some (.operation t (.allocate _ _) (.allocated pointer)) =>
    if pointer = 0 then held else (t, pointer) :: held
  | some (.operation t (.deallocate pointer) _) => held.erase (t, pointer)
  | _ => held

/-- One step. -/
def step (s : FixedThreads τ π) :
    FixedAction τ → Option (Option (AllocatorEffect τ) × FixedThreads τ π)
  | .proxy action => (State.step (fixedCode p) FixedShared.write s.proxy action).map
      fun (effect, proxy) => (effect, ⟨proxy, heldAfter s.held effect⟩)
  | .give t t' block =>
    match s.proxy.phase t with
    | .idle => some (none, { s with held := (t', block) :: s.held.erase (t, block) })
    | _ => none

/-- While a call has not returned, a thread in a call can go on. -/
def GoesOn (s : FixedThreads τ π) : Prop :=
  ∀ t, s.proxy.phase t ≠ .idle → ∃ t', s.proxy.phase t' ≠ .idle ∧
    ∃ action ∈ [Action.lock t', .statement t', .unlock t'], (s.step p (.proxy action)).isSome

instance (s : FixedThreads τ π) : (action : FixedAction τ) → Decidable (s.Legal action)
  | .proxy (.call t (.deallocate pointer)) => inferInstanceAs (Decidable ((t, pointer) ∈ s.held))
  | .proxy (.touch _ (_, _)) => List.decidableBEx _ s.held
  | .give t _ block => inferInstanceAs (Decidable ((t, block) ∈ s.held))
  | .proxy (.call _ (.allocate _ _)) | .proxy (.lock _) | .proxy (.statement _)
  | .proxy (.unlock _) => isTrue trivial

end

/-! ## Blocks and words -/

variable {p : τ → Platform π} {nodes : List UInt64} {s s' : FixedThreads τ π}
  {action : FixedAction τ} {effect : Option (AllocatorEffect τ)} {t t' : τ}
  {block block' pointer : UInt64}

theorem Inv.nodup (hinv : s.Inv p nodes) : s.blocks.Nodup := by
  obtain ⟨free, -, hperm⟩ := hinv.returned.partitioned
  exact (List.nodup_append.mp (hperm.nodup_iff.mpr hinv.returned.nodup)).2.1

theorem Inv.mem_nodes (hinv : s.Inv p nodes) (h : (t, block) ∈ s.held) : block ∈ nodes := by
  obtain ⟨free, -, hperm⟩ := hinv.returned.partitioned
  exact hperm.subset (List.mem_append_right free (List.mem_map_of_mem h))

/-- A block has one holder. -/
theorem Inv.holder_unique (hinv : s.Inv p nodes) (h : (t, block) ∈ s.held)
    (h' : (t', block) ∈ s.held) : t = t' :=
  congrArg Prod.fst (List.inj_on_of_nodup_map hinv.nodup h h' rfl)

/-- **Two blocks that are held are apart.** -/
theorem Inv.apart (hinv : s.Inv p nodes) (h : (t, block) ∈ s.held) (h' : (t', block') ∈ s.held)
    (hne : block ≠ block') : block.toNat + s.objectSize.toNat ≤ block'.toNat ∨
      block'.toNat + s.objectSize.toNat ≤ block.toNat :=
  hinv.returned.apart block (hinv.mem_nodes h) block' (hinv.mem_nodes h') hne

/-- The next free node is apart from a block that is held. -/
theorem Inv.apart_freeNodes (hinv : s.Inv p nodes) (h : (t, block) ∈ s.held) {node : UInt64}
    (hnode : ofPointer s.proxy.settled.allocator.freeNodes = some node) :
    node.toNat + s.objectSize.toNat ≤ block.toNat ∨
      block.toNat + s.objectSize.toNat ≤ node.toNat := by
  obtain ⟨free, hfree, hperm⟩ := hinv.returned.partitioned
  have hhead : node ∈ free := by
    have hchain : Chain _ (ofPointer s.proxy.settled.allocator.freeNodes) free := hfree
    rw [hnode] at hchain
    obtain ⟨rest, rfl, -⟩ := Chain.some_iff.mp hchain
    exact List.mem_cons_self
  obtain ⟨hnode', hblock, hne⟩ :=
    FixedRun.ne_of_perm hperm hinv.returned.nodup hhead (List.mem_map_of_mem h)
  exact hinv.returned.apart node hnode' block hblock hne

/-- A word fits in a block. -/
theorem Inv.word (hinv : s.Inv p nodes) : 8 ≤ s.objectSize.toNat := hinv.returned.word

/-- Who has the lock holds what it deallocates. -/
theorem Inv.holds (hinv : s.Inv p nodes) (h : s.proxy.InOperation t (.deallocate pointer)) :
    (t, pointer) ∈ s.held :=
  hinv.deallocating t pointer (by rw [h.pending]; exact List.mem_singleton_self _)

/-- When no thread is in the allocator, the nodes are partitioned. -/
theorem Inv.conserved (hinv : s.Inv p nodes) (hnone : ∀ t call, ¬ s.proxy.InOperation t call) :
    ∃ free, s.proxy.shared.allocator.FreeList s.proxy.shared.bytes free ∧
      (free ++ s.blocks).Perm nodes := by
  have hfree : s.proxy.owner = none := by
    cases howner : s.proxy.owner with
    | none => rfl
    | some t =>
      obtain ⟨call, hin⟩ := hinv.settled.owner t howner
      exact absurd hin (hnone t call)
  rw [hinv.settled.free hfree]
  exact hinv.returned.partitioned

/-- The threads are in no call and hold nothing. -/
def start (shared : FixedShared π) : FixedThreads τ π := ⟨State.start shared, []⟩

theorem inv_start {shared : FixedShared π}
    (hfree : shared.allocator.FreeList shared.bytes nodes)
    (hword : 8 ≤ shared.allocator.objectSize.toNat)
    (hapart : NodesApart shared.allocator.objectSize nodes) :
    (start shared : FixedThreads τ π).Inv p nodes := by
  refine ⟨State.settled_start shared, FixedRun.inv_start hfree rfl hword hapart, ?_⟩
  intro t pointer h
  exact nomatch h

/-- **A write to a block makes no difference to the call that has the lock.** -/
theorem Inv.respects [DecidableEq τ] (hinv : s.Inv p nodes) {a : Action τ AllocatorCall ClientWrite}
    (hlegal : s.Legal (.proxy a)) {proxy : BlockingAllocatorProxy τ (FixedPlace τ) (FixedShared π)}
    (hstep : State.step (fixedCode p) FixedShared.write s.proxy a = some (effect, proxy)) :
    Respects (fixedCode p) FixedShared.Avoids s.proxy a := by
  cases a with
  | touch t w =>
    obtain ⟨hidle, -⟩ := State.step_cases hstep
    obtain ⟨⟨t₀, block⟩, hheld, rfl, hstart, hend⟩ := hlegal
    have hword := hinv.word
    intro t' call hin node hnode
    cases call with
    | allocate size alignment =>
      have hapart := hinv.apart_freeNodes hheld hnode
      dsimp only at *
      omega
    | deallocate pointer =>
      obtain rfl : pointer = node := Option.some.inj hnode
      have hne : block ≠ pointer := by
        rintro rfl
        obtain rfl := hinv.holder_unique hheld (hinv.holds hin)
        rcases hin with ⟨l, hl⟩ | ⟨o, ho⟩
        · exact nomatch hl.symm.trans hidle
        · exact nomatch ho.symm.trans hidle
      have hapart := hinv.apart hheld (hinv.holds hin) hne
      dsimp only at *
      omega
  | _ => trivial

/-! ## What one step keeps -/

variable [DecidableEq τ] {a : Action τ AllocatorCall ClientWrite}
  {proxy : BlockingAllocatorProxy τ (FixedPlace τ) (FixedShared π)}

/-- **A block stays as it is** unless its holder writes to it or deallocates it. -/
theorem Inv.kept (hinv : s.Inv p nodes) (hlegal : s.Legal (.proxy a))
    (hstep : State.step (fixedCode p) FixedShared.write s.proxy a = some (effect, proxy))
    (hheld : (t, block) ∈ s.held) :
    (∃ write, a = .touch t write) ∨ .deallocate block ∈ s.proxy.pending t ∨
      ∀ x, block.toNat ≤ x → x < block.toNat + s.objectSize.toNat →
        proxy.shared.bytes x = s.proxy.shared.bytes x := by
  cases a with
  | call t' call =>
    obtain ⟨-, -, rfl⟩ := State.step_cases hstep
    exact .inr (.inr fun _ _ _ => rfl)
  | lock t' =>
    obtain ⟨i, -, -, -, rfl⟩ := State.step_cases hstep
    exact .inr (.inr fun _ _ _ => rfl)
  | unlock t' =>
    obtain ⟨i, o, -, -, rfl⟩ := State.step_cases hstep
    exact .inr (.inr fun _ _ _ => rfl)
  | statement t' =>
    obtain ⟨call, l, r, u, hl, hcode, -, rfl⟩ := State.step_cases hstep
    have hof := of_reaches (hinv.settled.inside t' call l hl).2
    rcases bytes_of_statement hof hcode with hsame | ⟨node, rfl, houtside⟩
    · exact .inr (.inr fun x _ _ => congrFun hsame x)
    have hin : s.proxy.InOperation t' (.deallocate node) := .inl ⟨l, hl⟩
    by_cases hne : block = node
    · subst hne
      obtain rfl := hinv.holder_unique hheld (hinv.holds hin)
      exact .inr (.inl (by rw [hin.pending]; exact List.mem_singleton_self _))
    · have hword := hinv.word
      have hapart := hinv.apart hheld (hinv.holds hin) hne
      exact .inr (.inr fun x _ _ => houtside x (by omega))
  | touch t' w =>
    obtain ⟨-, -, rfl⟩ := State.step_cases hstep
    obtain ⟨⟨t₀, block'⟩, hheld', rfl, hstart, hend⟩ := hlegal
    by_cases hne : block = block'
    · subst hne
      obtain rfl := hinv.holder_unique hheld hheld'
      exact .inl ⟨w, rfl⟩
    · have hapart := hinv.apart hheld hheld' hne
      refine .inr (.inr fun x _ _ => Memory.write_apply_of_outside ?_)
      dsimp only at *
      omega

/-- The blocks may be listed in another order. -/
theorem inv_of_perm {r : FixedRun π} (h : r.Inv nodes) {live : List UInt64}
    (hperm : live.Perm r.live) : ({ r with live := live } : FixedRun π).Inv nodes := by
  obtain ⟨free, hfree, hnodes⟩ := h.partitioned
  exact h.of_partitioned ⟨free, hfree, (hperm.append_left free).trans hnodes⟩ rfl

/-- **A call that returns is a call of the allocator.** -/
theorem Inv.returns (hinv : s.Inv p nodes) {call : AllocatorCall} {result : AllocatorResult}
    (hholds : ∀ pointer, call = .deallocate pointer → (t, pointer) ∈ s.held) {u : FixedShared π}
    (hruns : (fixedCode p).Runs t call s.proxy.settled result u) :
    FixedRun.Inv nodes (⟨u.allocator, u.bytes,
      (heldAfter s.held (some (.operation t call result))).map Prod.snd, u.env⟩ : FixedRun π) ∧
    ∀ size alignment pointer, call = .allocate size alignment → result = .allocated pointer →
      pointer ∉ s.blocks ∧
        (pointer = 0 ↔ s.objectSize < size ∨ ∀ node ∈ nodes, node ∈ s.blocks) := by
  cases call with
  | allocate size alignment =>
    obtain ⟨rfl, rfl⟩ := Prod.mk.inj (fixedCode_runs_allocate.mp hruns)
    obtain ⟨pointer, r, hstep, hinv', hfresh, hnull, -⟩ := hinv.returned.allocate (p := p t) size
    obtain ⟨hpointer, rfl⟩ := Prod.mk.inj (Option.some.inj hstep)
    obtain rfl := FixedResult.allocated.inj hpointer
    refine ⟨?_, fun size' alignment' pointer' hcall hresult => ?_⟩
    · simp only [heldAfter, apply_ite (List.map Prod.snd), List.map_cons]
      exact hinv'
    · obtain ⟨rfl, rfl⟩ := AllocatorCall.allocate.inj hcall
      obtain rfl := AllocatorResult.allocated.inj hresult
      exact ⟨hfresh, hnull⟩
  | deallocate pointer =>
    have hheld := hholds pointer rfl
    have hlive : pointer ∈ s.blocks := List.mem_map_of_mem hheld
    have hnull : pointer ≠ 0 := hinv.returned.nonnull pointer (hinv.mem_nodes hheld)
    obtain ⟨rfl, rfl⟩ := Prod.mk.inj ((fixedCode_runs_deallocate hnull).mp hruns)
    obtain ⟨r, hstep, hinv'⟩ := hinv.returned.deallocate (p := p t) hlive
    have hrun : s.returned.allocator.deallocate pointer s.returned.bytes =
        some ({ s.returned.allocator with freeNodes := pointer },
          s.returned.bytes.store64 pointer.toNat s.returned.allocator.freeNodes) := if_neg hnull
    simp only [FixedRun.step, hrun, Option.map_some] at hstep
    obtain ⟨-, rfl⟩ := Prod.mk.inj (Option.some.inj hstep)
    have hperm : ((s.held.erase (t, pointer)).map Prod.snd).Perm (s.blocks.erase pointer) :=
      List.Perm.cons_inv (((List.perm_cons_erase hheld).map Prod.snd).symm.trans
        (List.perm_cons_erase hlive))
    refine ⟨inv_of_perm hinv' hperm, fun size' alignment' pointer' hcall _ => ?_⟩
    cases hcall

/-- What is deallocated after a step is held after it. -/
theorem Inv.deallocates (hinv : s.Inv p nodes) (hlegal : s.Legal (.proxy a))
    (hstep : State.step (fixedCode p) FixedShared.write s.proxy a = some (effect, proxy))
    (h : .deallocate pointer ∈ proxy.pending t) : (t, pointer) ∈ heldAfter s.held effect := by
  have hheld : (t, pointer) ∈ s.held := by
    rcases State.mem_pending_step hstep h with hbefore | rfl
    · exact hinv.deallocating t pointer hbefore
    · exact hlegal
  cases a with
  | unlock t' =>
    obtain ⟨call, result, hleaving, rfl, rfl⟩ := State.step_cases hstep
    -- the thread whose operation returns is in none now
    have hne : t ≠ t' := by
      rintro rfl
      rw [State.pending] at h
      simp [Phase.pending] at h
    cases call with
    | allocate size alignment =>
      cases result with
      | allocated pointer' =>
        rw [heldAfter]
        split_ifs
        · exact hheld
        · exact List.mem_cons_of_mem _ hheld
      | deallocated => exact hheld
    | deallocate pointer' =>
      exact (List.mem_erase_of_ne fun heq => hne (congrArg Prod.fst heq)).mpr hheld
  | touch t' w =>
    obtain ⟨-, rfl, -⟩ := State.step_cases hstep
    exact hheld
  | call t' call =>
    obtain ⟨-, rfl, -⟩ := State.step_cases hstep
    exact hheld
  | lock t' =>
    obtain ⟨call, -, -, rfl, -⟩ := State.step_cases hstep
    exact hheld
  | statement t' =>
    obtain ⟨call, l, r, u, -, -, rfl, -⟩ := State.step_cases hstep
    exact hheld

/-- **A step of a thread in a call, or a write.** -/
theorem Inv.step_proxy (hinv : s.Inv p nodes) (hlegal : s.Legal (.proxy a))
    (hstep : s.step p (.proxy a) = some (effect, s')) :
    s'.Inv p nodes ∧ Safe nodes s s' (.proxy a) effect := by
  obtain ⟨⟨e, proxy⟩, hproxy, heq⟩ := Option.map_eq_some_iff.mp hstep
  obtain ⟨rfl, rfl⟩ := Prod.mk.inj heq
  obtain ⟨hsettled, -⟩ :=
    hinv.settled.step fixedCode_commutes (hinv.respects hlegal hproxy) hproxy
  have hdeallocating (t : τ) (pointer : UInt64) (h : .deallocate pointer ∈ proxy.pending t) :
      (t, pointer) ∈ heldAfter s.held e := hinv.deallocates hlegal hproxy h
  -- the calls that have returned, and what they are answered
  have hreturned : FixedRun.Inv nodes (FixedThreads.returned ⟨proxy, heldAfter s.held e⟩) ∧
      ∀ t size alignment pointer,
        e = some (.operation t (.allocate size alignment) (.allocated pointer)) →
          pointer ∉ s.blocks ∧
            (pointer = 0 ↔ s.objectSize < size ∨ ∀ node ∈ nodes, node ∈ s.blocks) := by
    cases a with
    | unlock t =>
      obtain ⟨call, result, hleaving, rfl, rfl⟩ := State.step_cases hproxy
      have hin : s.proxy.InOperation t call := .inr ⟨result, hleaving⟩
      obtain ⟨hrun, hanswers⟩ := hinv.returns (fun pointer hcall => hinv.holds (hcall ▸ hin))
        (hinv.settled.leaving t call result hleaving).2
      refine ⟨hrun, fun t' size alignment pointer he => ?_⟩
      obtain ⟨-, rfl, rfl⟩ := Effect.operation.inj (Option.some.inj he)
      exact hanswers size alignment pointer rfl rfl
    | touch t w =>
      obtain ⟨-, rfl, rfl⟩ := State.step_cases hproxy
      obtain ⟨⟨t₀, block⟩, hheld, rfl, hstart, hend⟩ := hlegal
      exact ⟨hinv.returned.write ⟨block, List.mem_map_of_mem hheld, hstart, hend⟩, nofun⟩
    | call t call =>
      obtain ⟨-, rfl, rfl⟩ := State.step_cases hproxy
      exact ⟨hinv.returned, nofun⟩
    | lock t =>
      obtain ⟨call, -, -, rfl, rfl⟩ := State.step_cases hproxy
      exact ⟨hinv.returned, nofun⟩
    | statement t =>
      obtain ⟨call, l, r, u, -, -, rfl, rfl⟩ := State.step_cases hproxy
      exact ⟨hinv.returned, nofun⟩
  have hinv' : Inv p nodes ⟨proxy, heldAfter s.held e⟩ :=
    Inv.mk hsettled hreturned.1 hdeallocating
  refine ⟨hinv', hinv'.nodup, hinv'.conserved, hreturned.2, fun t block hheld => ?_⟩
  rcases hinv.kept hlegal hproxy hheld with ⟨w, rfl⟩ | hrest
  · exact .inl ⟨w, rfl⟩
  · exact .inr hrest

/-- **A block is given to another thread.** -/
theorem Inv.step_give (hinv : s.Inv p nodes) (hheld : (t, block) ∈ s.held)
    (hstep : s.step p (.give t t' block) = some (effect, s')) :
    s'.Inv p nodes ∧ Safe nodes s s' (.give t t' block) effect := by
  simp only [FixedThreads.step] at hstep
  split at hstep
  · next hidle =>
    obtain ⟨rfl, rfl⟩ := Prod.mk.inj (Option.some.inj hstep)
    have hperm : (block :: (s.held.erase (t, block)).map Prod.snd).Perm s.blocks :=
      ((List.perm_cons_erase hheld).map Prod.snd).symm
    have hinv' : Inv p nodes { s with held := (t', block) :: s.held.erase (t, block) } := by
      refine ⟨hinv.settled, inv_of_perm hinv.returned hperm, fun t₁ pointer h => ?_⟩
      have hne : t₁ ≠ t := by
        rintro rfl
        rw [State.pending, hidle] at h
        exact absurd h List.not_mem_nil
      exact List.mem_cons_of_mem _ ((List.mem_erase_of_ne fun heq =>
        hne (congrArg Prod.fst heq)).mpr (hinv.deallocating t₁ pointer h))
    refine ⟨hinv', hinv'.nodup, hinv'.conserved, fun t₁ size alignment pointer heq => ?_,
      fun _ _ _ => .inr (.inr fun _ _ _ => rfl)⟩
    cases heq
  · cases hstep

/-- **What one step keeps.** -/
theorem Inv.step (hinv : s.Inv p nodes) (hlegal : s.Legal action)
    (hstep : s.step p action = some (effect, s')) :
    s'.Inv p nodes ∧ Safe nodes s s' action effect := by
  cases action with
  | proxy a => exact hinv.step_proxy hlegal hstep
  | give t t' block => exact hinv.step_give hlegal hstep

/-- **No deadlock.** -/
theorem Inv.goesOn (hinv : s.Inv p nodes) : s.GoesOn p := by
  intro t hbusy
  have hdefined (t : τ) (call : AllocatorCall) (l : FixedPlace τ)
      (hl : s.proxy.phase t = .inside call l) :
      ((fixedCode p).statement l s.proxy.shared).isSome := by
    refine isSome_statement (of_reaches (hinv.settled.inside t call l hl).2) ?_ _
    rintro rfl
    exact hinv.returned.nonnull 0 (hinv.mem_nodes (hinv.holds (.inl ⟨l, hl⟩))) rfl
  obtain ⟨t', hbusy', a, ha, hsome⟩ :=
    hinv.settled.progress FixedShared.write hdefined hbusy
  refine ⟨t', hbusy', a, ha, ?_⟩
  rw [FixedThreads.step, Option.isSome_map]
  exact hsome

/-! ## Runs -/

/-- **In every interleaving of threads that call a fixed allocator behind the proxy**, every step is
safe and no thread is left waiting for ever. -/
theorem safe_interleaved (p : τ → Platform π) {nodes : List UInt64} {shared : FixedShared π}
    (hfree : shared.allocator.FreeList shared.bytes nodes)
    (hword : 8 ≤ shared.allocator.objectSize.toNat)
    (hapart : NodesApart shared.allocator.objectSize nodes) (actions : List (FixedAction τ))
    (hlegal : Along (step p) Legal (start shared) actions) :
    Along (step p) (fun s action => s.GoesOn p ∧
      ∀ effect s', s.step p action = some (effect, s') → Safe nodes s s' action effect)
      (start shared) actions := by
  refine Along.of_legal (Inv p nodes) (fun s action hinv hlegal => ?_)
    (fun s action effect s' hinv hlegal hstep => (hinv.step hlegal hstep).1)
    (inv_start hfree hword hapart) hlegal
  exact ⟨hinv.goesOn, fun effect s' hstep => (hinv.step hlegal hstep).2⟩

/-- Two threads allocate at once; the first gets its node, writes to it and gives it to the second,
which gives it back. -/
theorem safe_interleaved_twoThreads :
    Along (step fun _ : Bool => Platform.granting) (fun s action =>
      s.GoesOn (fun _ => Platform.granting) ∧ ∀ effect s',
        s.step (fun _ => Platform.granting) action = some (effect, s') →
          Safe [0x1000, 0x1010, 0x1020] s s' action effect)
      (start ⟨⟨0x1000, 16⟩, FixedRun.threeNodes, ()⟩)
      [.proxy (.call true (.allocate 16 16)), .proxy (.call false (.allocate 8 16)),
        .proxy (.lock true), .proxy (.statement true), .proxy (.statement true),
        .proxy (.statement true), .proxy (.statement true), .proxy (.statement true),
        .proxy (.statement true), .proxy (.unlock true), .proxy (.lock false),
        .proxy (.touch true (0x1000, [1, 2, 3])), .give true false 0x1000] := by
  refine safe_interleaved _ ?_ (by decide) (by decide) _ (by decide)
  exact .cons (.cons (.cons .nil))

end FixedThreads

end Hologine.Memory
