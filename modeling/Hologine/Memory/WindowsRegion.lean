import Hologine.Memory.ArenaFailures

/-!
# Memory regions on Windows

The regions of a program over the Windows `memory_region_base`
(`windows/core/memory/memory_region_base.cpp:14-78`). The calls of the system are a parameter, and
`Documented` has what is documented of them.

* `release_pages` hands `VirtualFree` the size of the pages together with `MEM_RELEASE`, which goes
  with a size of zero only. So the call fails, and the region forgets where it was.

Results:
* `MemoryRegion.maxSize_of_reservedBytes`: a region whose size cannot be rounded up reserves
  nothing.
* `MemoryRegion.reset_mapping`: a region that is reset to be released keeps its addresses reserved.
* `RegionSystem.never_released`: **no run gives an address back**, and every region that is released
  leaves its addresses to nobody.
-/

namespace Hologine.Memory

open Hologine.Library.Align Hologine.Library.Bits Hologine.Library.Run Hologine.Math

/-! ## The system -/

def memCommit : UInt32 := 0x1000
def memReserve : UInt32 := 0x2000
def memDecommit : UInt32 := 0x4000
def memRelease : UInt32 := 0x8000
def pageNoaccess : UInt32 := 0x01
def pageReadwrite : UInt32 := 0x04

/-- Addresses that are reserved. -/
structure Reservation where
  address : UInt64
  size : UInt64
  deriving Repr, DecidableEq

/-- Two reservations have no address in common. -/
def Reservation.Apart (x y : Reservation) : Prop :=
  x.address.toNat + x.size.toNat ≤ y.address.toNat ∨
    y.address.toNat + y.size.toNat ≤ x.address.toNat

instance (x y : Reservation) : Decidable (x.Apart y) := inferInstanceAs (Decidable (_ ∨ _))

/-- The calls of the system, `false` where one fails, and what is reserved in the process. -/
structure VirtualMemory (ω : Type) where
  virtualAlloc (address size : UInt64) (allocationType protect : UInt32) : ω → UInt64 × ω
  virtualFree (address size : UInt64) (freeType : UInt32) : ω → Bool × ω
  getLastError : ω → UInt32
  reservations : ω → List Reservation

/-- **What is documented of the calls** that are made here. -/
structure VirtualMemory.Documented {ω : Type} (v : VirtualMemory ω) : Prop where
  inSpace : ∀ w, ∀ x ∈ v.reservations w,
    x.address ≠ 0 ∧ x.size ≠ 0 ∧ x.address.toNat + x.size.toNat ≤ 2 ^ 64
  apart : ∀ w, (v.reservations w).Pairwise Reservation.Apart
  /-- A range of whole pages is reserved, wherever there is one, or none is. -/
  reserve : ∀ size w, pageSize.toNat ∣ size.toNat →
    let (address, w') := v.virtualAlloc 0 size memReserve pageNoaccess w
    address = 0 ∧ v.reservations w' = v.reservations w ∨
      address ≠ 0 ∧ v.reservations w' = ⟨address, size⟩ :: v.reservations w
  /-- Pages that are committed at an address have to be reserved. -/
  commit : ∀ address size w, address ≠ 0 →
    v.reservations (v.virtualAlloc address size memCommit pageReadwrite w).2 = v.reservations w
  decommit : ∀ address size w,
    v.reservations (v.virtualFree address size memDecommit w).2 = v.reservations w
  /-- The size of what is released has to be zero. -/
  release : ∀ address size w, size ≠ 0 →
    let (freed, w') := v.virtualFree address size memRelease w
    freed = false ∧ v.reservations w' = v.reservations w

/-- The system, and the exceptions that were pushed with their platform codes, newest first. -/
structure WindowsMemory (ω : Type) where
  system : ω
  exceptions : List (ExceptionCode × UInt32)

variable {ω : Type}

/-- The exception of a call that has failed is pushed. -/
def VirtualMemory.fail (v : VirtualMemory ω) (env : WindowsMemory ω) : WindowsMemory ω :=
  { env with exceptions := (.platform, v.getLastError env.system) :: env.exceptions }

/-- What is reserved. -/
def WindowsMemory.reservations (v : VirtualMemory ω) (env : WindowsMemory ω) : List Reservation :=
  v.reservations env.system

/-- `memory_region_base`. -/
def windowsPlatform (v : VirtualMemory ω) : Platform (WindowsMemory ω) where
  pushException code env := { env with exceptions := (code, 0) :: env.exceptions }
  reservePages maxPages env :=
    let (memory, system) :=
      v.virtualAlloc 0 (maxPages * pageSize) memReserve pageNoaccess env.system
    let env := { env with system := system }
    (memory, if memory = 0 then v.fail env else env)
  releasePages base index count env :=
    let (freed, system) :=
      v.virtualFree (base + index * pageSize) (count * pageSize) memRelease env.system
    let env := { env with system := system }
    if freed then env else v.fail env
  commitPages base index count env :=
    let (address, system) := v.virtualAlloc (base + index * pageSize) (count * pageSize) memCommit
      pageReadwrite env.system
    let env := { env with system := system }
    if address = 0 then (false, v.fail env) else (true, env)
  decommitPages base index count env :=
    let (freed, system) :=
      v.virtualFree (base + index * pageSize) (count * pageSize) memDecommit env.system
    let env := { env with system := system }
    if freed then env else v.fail env

/-- **What may become of the addresses of one region**, and of all that are reserved. -/
inductive Mapping (l : List Reservation) (held : Option Reservation) :
    List Reservation → Option Reservation → Prop
  | keep : Mapping l held l held
  | reserve (x : Reservation) (hnone : held = none) (hnew : x ∉ l) :
      Mapping l held (x :: l) (some x)
  | lose (x : Reservation) (hheld : held = some x) : Mapping l held l none

/-- What a region has is reserved. -/
theorem Mapping.mem {l l' : List Reservation} {held : Option Reservation} {x : Reservation}
    (h : Mapping l held l' (some x)) (hheld : ∀ y ∈ held, y ∈ l) : x ∈ l' := by
  cases h with
  | keep => exact hheld x rfl
  | reserve => exact List.mem_cons_self

/-- A new reservation is none of those before. -/
theorem VirtualMemory.Documented.notMem {v : VirtualMemory ω} (hv : v.Documented) {w w' : ω}
    {x : Reservation} (hnew : v.reservations w' = x :: v.reservations w) :
    x ∉ v.reservations w := by
  intro hmem
  have happart := hv.apart w'
  have hspace := hv.inSpace w' x (hnew ▸ List.mem_cons_self)
  rw [hnew] at happart
  have := (List.pairwise_cons.mp happart).1 x hmem
  have hpos := toNat_pos hspace.2.1
  unfold Reservation.Apart at this
  omega

/-! ## One region -/

namespace MemoryRegion

/-- The size that the pages of a region have. -/
def reservedBytes (r : MemoryRegion) : UInt64 := r.reservedSize / pageSize * pageSize

/-- What a region has reserved. -/
def reservation (r : MemoryRegion) : Option Reservation :=
  if r.memory = 0 then none else some ⟨r.memory, r.reservedBytes⟩

variable {v : VirtualMemory ω} {r : MemoryRegion} {env : WindowsMemory ω}

theorem reservation_eq_none_iff : r.reservation = none ↔ r.memory = 0 := by simp [reservation]

theorem memory_ne_zero {x : Reservation} (h : r.reservation = some x) : r.memory ≠ 0 := by
  intro hzero
  cases (reservation_eq_none_iff.mpr hzero).symm.trans h

theorem reservation_of_ne (h : r.memory ≠ 0) :
    r.reservation = some ⟨r.memory, r.reservedBytes⟩ := if_neg h

theorem reservedPages_mul : r.reservedSize / pageSize * pageSize = r.reservedBytes := rfl

/-- **A region that reserves something can be rounded up.** -/
theorem maxSize_of_reservedBytes (h : r.reservedBytes ≠ 0) :
    r.maxSize ≠ 0 ∧ r.maxSize.toNat ≤ 2 ^ 64 - 65536 := by
  constructor
  · intro hmax
    exact h (by simp [reservedBytes, reservedSize, hmax])
  · by_contra hlt
    exact h (by simp [reservedBytes, reservedPages_eq_zero (Nat.lt_of_not_le hlt)])

theorem toNat_reservedBytes (r : MemoryRegion) :
    r.reservedBytes.toNat = (r.reservedSize / pageSize).toNat * pageSize.toNat := by
  have hle := Nat.div_mul_le_self r.reservedSize.toNat pageSize.toNat
  have hlt := r.reservedSize.toNat_lt
  rw [reservedBytes, UInt64.toNat_mul, UInt64.toNat_div]
  exact Nat.mod_eq_of_lt (Nat.lt_of_le_of_lt hle hlt)

/-- Reserving a region that has nothing. -/
theorem reserve_mapping (hv : v.Documented) (r : MemoryRegion) (env : WindowsMemory ω) :
    Mapping (env.reservations v) r.reservation
      ((r.reserve (windowsPlatform v) env).2.reservations v)
      (r.reserve (windowsPlatform v) env).1.reservation := by
  unfold reserve
  by_cases hmemory : r.memory = 0
  swap
  · rw [if_neg hmemory]
    exact .keep
  rw [if_pos hmemory]
  by_cases hmax : r.maxSize = 0
  · rw [if_pos hmax]
    exact .keep
  rw [if_neg hmax]
  have hnone := reservation_eq_none_iff.mpr hmemory
  have hreserve := hv.reserve r.reservedBytes env.system
    (r.toNat_reservedBytes ▸ Nat.dvd_mul_left _ _)
  rcases hanswer : v.virtualAlloc 0 r.reservedBytes memReserve pageNoaccess env.system with
    ⟨memory, system⟩
  rw [hanswer] at hreserve
  simp only [windowsPlatform, reservedPages_mul, hanswer]
  rcases hreserve with ⟨hzero, hsame⟩ | ⟨hne, hnew⟩
  · have hfails : ({ r with memory := memory } : MemoryRegion).reservation = r.reservation := by
      rw [hnone, reservation_eq_none_iff, hzero]
    simp only [if_pos hzero]
    rw [hfails]
    show Mapping _ _ (v.reservations system) _
    rw [hsame]
    exact .keep
  · have hholds : ({ r with memory := memory } : MemoryRegion).reservation =
        some ⟨memory, r.reservedBytes⟩ := reservation_of_ne hne
    simp only [if_neg hne]
    rw [hholds]
    show Mapping _ _ (v.reservations system) _
    rw [hnew]
    exact .reserve _ hnone (hv.notMem hnew)

/-- **Pages are committed within what is reserved**, never at an address of null. -/
theorem commitAddress_ne_zero (hv : v.Documented) (hmemory : r.memory ≠ 0)
    (hmapped : ⟨r.memory, r.reservedBytes⟩ ∈ env.reservations v) {size : UInt64}
    (hsize : size ≤ r.maxSize) (hmore : pagesOf size > pagesOf r.currentSize) :
    r.memory + pagesOf r.currentSize * pageSize ≠ 0 := by
  obtain ⟨-, hne, hspace⟩ := hv.inSpace env.system _ hmapped
  obtain ⟨hmax, hle⟩ := maxSize_of_reservedBytes hne
  have hpage : pageSize.toNat = 4096 := rfl
  have hsize' := UInt64.le_iff_toNat_le.mp hsize
  have hcount := pageCount_le_reservedPages hmax hle hsize
  have hpages := toNat_pagesOf (Nat.le_trans hsize' hle)
  have hlt : (pagesOf r.currentSize).toNat < (pagesOf size).toNat := UInt64.lt_iff_toNat_lt.mp hmore
  have hpos := toNat_pos hmemory
  have hspace' : r.memory.toNat + r.reservedBytes.toNat ≤ 2 ^ 64 := hspace
  rw [toNat_reservedBytes, hpage] at hspace'
  intro hzero
  have hnat := congrArg UInt64.toNat hzero
  rw [UInt64.toNat_add, UInt64.toNat_mul, hpage, UInt64.toNat_zero] at hnat
  omega

/-- Committing pages reserves nothing. -/
theorem commit_keeps (hv : v.Documented) (hmemory : r.memory ≠ 0)
    (hmapped : ⟨r.memory, r.reservedBytes⟩ ∈ env.reservations v) (size : UInt64) :
    (r.commit (windowsPlatform v) size env).2.2.reservations v = env.reservations v ∧
      (r.commit (windowsPlatform v) size env).2.1.reservation = r.reservation := by
  rcases r.commit_spec (windowsPlatform v) size env with ⟨-, heq⟩ | ⟨-, -, heq⟩ |
    ⟨hle, hmore, -, heq⟩ | ⟨hle, hmore, -, heq⟩
  · rw [heq]
    exact ⟨rfl, rfl⟩
  · rw [heq]
    exact ⟨rfl, rfl⟩
  all_goals
    have haddress := commitAddress_ne_zero hv hmemory hmapped hle hmore
    have hcommit := hv.commit _
      ((pagesOf (size + r.currentSize) - pagesOf r.currentSize) * pageSize) env.system haddress
    rw [heq]
    refine ⟨?_, rfl⟩
    simp only [windowsPlatform]
    split
    · exact hcommit
    · exact hcommit

theorem grow_mapping (hv : v.Documented) (hmapped : ∀ x ∈ r.reservation, x ∈ env.reservations v)
    (size : UInt64) : Mapping (env.reservations v) r.reservation
      ((r.grow (windowsPlatform v) size env).2.2.reservations v)
      (r.grow (windowsPlatform v) size env).2.1.reservation := by
  have hreserve := reserve_mapping hv r env
  unfold grow
  rcases hanswer : r.reserve (windowsPlatform v) env with ⟨r', env'⟩
  rw [hanswer] at hreserve
  dsimp only at hreserve ⊢
  by_cases hmemory : r'.memory = 0
  · rw [if_pos hmemory]
    exact hreserve
  have hholds := reservation_of_ne hmemory
  have hmapped' : ⟨r'.memory, r'.reservedBytes⟩ ∈ env'.reservations v :=
    Mapping.mem (hholds ▸ hreserve) hmapped
  obtain ⟨hsame, hkeeps⟩ := commit_keeps hv hmemory hmapped' size
  rw [if_neg hmemory, hsame, hkeeps]
  exact hreserve

theorem claim_mapping (hv : v.Documented) (hmapped : ∀ x ∈ r.reservation, x ∈ env.reservations v) :
    Mapping (env.reservations v) r.reservation
      ((r.claim (windowsPlatform v) env).2.2.reservations v)
      (r.claim (windowsPlatform v) env).2.1.reservation := by
  unfold claim
  dsimp only
  by_cases hfull : r.maxSize - r.currentSize = 0
  · rw [if_pos hfull]
    exact .keep
  · rw [if_neg hfull]
    exact grow_mapping hv hmapped _

theorem decommit_keeps (hv : v.Documented) (base index count : UInt64) (env : WindowsMemory ω) :
    ((windowsPlatform v).decommitPages base index count env).reservations v =
      env.reservations v := by
  have hdecommit := hv.decommit (base + index * pageSize) (count * pageSize) env.system
  simp only [windowsPlatform]
  split
  · exact hdecommit
  · exact hdecommit

/-- **Releasing pages fails.** -/
theorem release_fails (hv : v.Documented) (hsize : r.reservedBytes ≠ 0) (env : WindowsMemory ω) :
    let env' := (windowsPlatform v).releasePages r.memory 0 (r.reservedSize / pageSize) env
    env'.reservations v = env.reservations v ∧
      env'.exceptions = (.platform, v.getLastError env'.system) :: env.exceptions := by
  have hrelease := hv.release (r.memory + 0 * pageSize) r.reservedBytes env.system hsize
  rcases hanswer : v.virtualFree (r.memory + 0 * pageSize) r.reservedBytes memRelease
    env.system with ⟨freed, system⟩
  rw [hanswer] at hrelease
  obtain ⟨rfl, hsame⟩ := hrelease
  simp only [windowsPlatform, reservedPages_mul, hanswer]
  exact ⟨hsame, rfl⟩

/-- **A region that is reset keeps all addresses reserved**; one that is to be released has none of
them any more, and the failure is pushed last. -/
theorem reset_mapping (hv : v.Documented) (hmapped : ∀ x ∈ r.reservation, x ∈ env.reservations v)
    (release : Bool) :
    let (r', env') := r.reset (windowsPlatform v) release env
    Mapping (env.reservations v) r.reservation (env'.reservations v) r'.reservation ∧
      (release = true → r.memory ≠ 0 → r'.reservation = none ∧
        ∃ exceptions, env'.exceptions = (.platform, v.getLastError env'.system) :: exceptions) := by
  unfold reset
  by_cases hmemory : r.memory = 0
  · rw [if_pos hmemory]
    exact ⟨.keep, fun _ hne => absurd hmemory hne⟩
  have hholds := reservation_of_ne hmemory
  have hsize : r.reservedBytes ≠ 0 := (hv.inSpace env.system _ (hmapped _ hholds)).2.1
  rw [if_neg hmemory]
  by_cases hcurrent : r.currentSize > 0
  · have hkeeps := decommit_keeps hv r.memory 0 (multipleOf r.currentSize pageSize) env
    simp only [if_pos hcurrent]
    cases release with
    | false => exact ⟨hkeeps ▸ .keep, nofun⟩
    | true =>
      obtain ⟨hsame, hpushed⟩ := release_fails hv hsize
        ((windowsPlatform v).decommitPages r.memory 0 (multipleOf r.currentSize pageSize) env)
      exact ⟨(hsame.trans hkeeps) ▸ .lose _ hholds, fun _ _ => ⟨rfl, _, hpushed⟩⟩
  · simp only [if_neg hcurrent]
    cases release with
    | false => exact ⟨.keep, nofun⟩
    | true =>
      obtain ⟨hsame, hpushed⟩ := release_fails hv hsize env
      exact ⟨hsame ▸ .lose _ hholds, fun _ _ => ⟨rfl, _, hpushed⟩⟩

end MemoryRegion

/-! ## The regions of a program -/

/-- Every holder's addresses are reserved, and no other holder's. -/
structure HeldApart (l : List Reservation) (holds : ℕ → Reservation → Prop) : Prop where
  mapped : ∀ {a x}, holds a x → x ∈ l
  unique : ∀ {a b x}, holds a x → holds b x → a = b

section HeldApart

variable {l l' : List Reservation} {holds holds' : ℕ → Reservation → Prop} {id other : ℕ}
  {held held' : Option Reservation}

/-- Holders may leave addresses. -/
theorem HeldApart.mono (h : HeldApart l holds) (hholds : ∀ {a x}, holds' a x → holds a x) :
    HeldApart l holds' ∧ l <:+ l ∧ ∀ x ∈ l, (∀ a, ¬ holds a x) → ∀ a, ¬ holds' a x :=
  ⟨⟨fun ha => h.mapped (hholds ha), fun ha hb => h.unique (hholds ha) (hholds hb)⟩,
    List.suffix_rfl, fun _ _ hx a ha => hx a (hholds ha)⟩

/-- **One holder's addresses become others**, and addresses that nobody holds stay so. -/
theorem HeldApart.exchange (h : HeldApart l holds) (hmapping : Mapping l held l' held')
    (hheld : ∀ x, held = some x → holds id x)
    (hholds : ∀ {a x}, holds' a x → a = id ∧ held' = some x ∨ a ≠ id ∧ holds a x) :
    HeldApart l' holds' ∧ l <:+ l' ∧ ∀ x ∈ l, (∀ a, ¬ holds a x) → ∀ a, ¬ holds' a x := by
  cases hmapping with
  | keep =>
    refine h.mono fun {a x} ha => ?_
    rcases hholds ha with ⟨rfl, hx⟩ | ⟨-, hx⟩
    · exact hheld x hx
    · exact hx
  | reserve y hnone hnew =>
    -- what is new is nobody's before
    have hother {a x} (ha : holds' a x) : a = id ∧ x = y ∨ x ≠ y ∧ holds a x := by
      rcases hholds ha with ⟨rfl, hx⟩ | ⟨-, hx⟩
      · exact .inl ⟨rfl, (Option.some.inj hx).symm⟩
      · exact .inr ⟨fun heq => hnew (heq ▸ h.mapped hx), hx⟩
    refine ⟨⟨fun ha => ?_, fun ha hb => ?_⟩, List.suffix_cons y l, fun x hmem hx a ha => ?_⟩
    · rcases hother ha with ⟨-, rfl⟩ | ⟨-, hx⟩
      · exact List.mem_cons_self
      · exact List.mem_cons_of_mem _ (h.mapped hx)
    · rcases hother ha with ⟨rfl, rfl⟩ | ⟨hne, hx⟩
      · rcases hother hb with ⟨rfl, -⟩ | ⟨hne, -⟩
        · rfl
        · exact absurd rfl hne
      · rcases hother hb with ⟨-, rfl⟩ | ⟨-, hx'⟩
        · exact absurd rfl hne
        · exact h.unique hx hx'
    · rcases hother ha with ⟨-, rfl⟩ | ⟨-, hx'⟩
      · exact hnew hmem
      · exact hx a hx'
  | lose y hheld' =>
    refine h.mono fun {a x} ha => ?_
    rcases hholds ha with ⟨-, hx⟩ | ⟨-, hx⟩
    · cases hx
    · exact hx

/-- One holder's addresses become another's. -/
theorem HeldApart.move (h : HeldApart l holds)
    (hholds : ∀ {a x}, holds' a x → a ≠ other ∧ (a = id ∧ holds other x ∨ a ≠ id ∧ holds a x)) :
    HeldApart l holds' ∧ ∀ x, (∀ a, ¬ holds a x) → ∀ a, ¬ holds' a x := by
  refine ⟨⟨fun ha => ?_, fun ha hb => ?_⟩, fun x hx a ha => ?_⟩
  · rcases (hholds ha).2 with ⟨-, hx⟩ | ⟨-, hx⟩
    · exact h.mapped hx
    · exact h.mapped hx
  · obtain ⟨ha', ⟨hid, hx⟩ | ⟨hid, hx⟩⟩ := hholds ha
    · obtain ⟨hb', ⟨hid', -⟩ | ⟨-, hx'⟩⟩ := hholds hb
      · exact hid.trans hid'.symm
      · exact absurd (h.unique hx' hx) hb'
    · obtain ⟨-, ⟨-, hx'⟩ | ⟨-, hx'⟩⟩ := hholds hb
      · exact absurd (h.unique hx hx') ha'
      · exact h.unique hx hx'
  · rcases (hholds ha).2 with ⟨-, hx'⟩ | ⟨-, hx'⟩
    · exact hx _ hx'
    · exact hx _ hx'

end HeldApart

/-- The operation is to give the addresses of a region back. -/
def RegionOp.Releases (id : ℕ) : RegionOp → Prop
  | .reset id' release => id' = id ∧ release = true
  | .destruct id' => id' = id
  | _ => False

namespace RegionSystem

variable {v : VirtualMemory ω} {s s' : RegionSystem (WindowsMemory ω)} {id other a : ℕ}
  {x : Reservation}

/-- A region that lives has addresses reserved. -/
def Holds (s : RegionSystem (WindowsMemory ω)) (id : ℕ) (x : Reservation) : Prop :=
  id ∈ s.live ∧ (s.region id).reservation = some x

/-- **What an operation leaves reserved.** -/
structure KeepsReserved (v : VirtualMemory ω) (s s' : RegionSystem (WindowsMemory ω))
    (op : RegionOp) : Prop where
  /-- No address is given back. -/
  kept : s.env.reservations v <:+ s'.env.reservations v
  apart : HeldApart (s'.env.reservations v) s'.Holds
  /-- What nobody holds, nobody gets. -/
  forgotten : ∀ x ∈ s.env.reservations v, (∀ a, ¬ s.Holds a x) → ∀ a, ¬ s'.Holds a x
  /-- What is to be given back is nobody's, and the failure is pushed. -/
  lost : ∀ id x, op.Releases id → s.Holds id x → (∀ a, ¬ s'.Holds a x) ∧
    ∃ exceptions, s'.env.exceptions = (.platform, v.getLastError s'.env.system) :: exceptions

theorem holds_withRegion {r : MemoryRegion} {w : WindowsMemory ω} {live : List ℕ}
    (hlive : ∀ a ∈ live, a ≠ id → a ∈ s.live)
    (h : Holds { s.withRegion id r with live := live, env := w } a x) :
    a = id ∧ r.reservation = some x ∨ a ≠ id ∧ s.Holds a x := by
  obtain ⟨hmem, hx⟩ := h
  by_cases heq : a = id
  · subst heq
    exact .inl ⟨rfl, (congrArg MemoryRegion.reservation (withRegion_self s a r)).symm.trans hx⟩
  · exact .inr ⟨heq, hlive a hmem heq,
      (congrArg MemoryRegion.reservation (withRegion_of_ne s r heq)).symm.trans hx⟩

theorem holds_moveTo {live : List ℕ} (hlive : ∀ a ∈ live, a ≠ id → a ∈ s.live)
    (hother : other ∈ s.live) (h : Holds { s.moveTo id other with live := live } a x) :
    a ≠ other ∧ (a = id ∧ s.Holds other x ∨ a ≠ id ∧ s.Holds a x) := by
  obtain ⟨hmem, hx⟩ := h
  have hne : a ≠ other := by
    rintro rfl
    have hmoved := congrArg MemoryRegion.reservation
      (withRegion_self (s.withRegion id (s.region a)) a .moved)
    cases hmoved.symm.trans hx
  have hsame := congrArg MemoryRegion.reservation
    (withRegion_of_ne (s.withRegion id (s.region other)) .moved hne)
  have hx' := hsame.symm.trans hx
  refine ⟨hne, ?_⟩
  rcases holds_withRegion (r := s.region other) (w := s.env) hlive ⟨hmem, hx'⟩ with
    ⟨heq, hr⟩ | hold
  · exact .inl ⟨heq, hother, hr⟩
  · exact .inr hold

/-- A call of a region that lives. -/
theorem keepsReserved_update (h : HeldApart (s.env.reservations v) s.Holds) (hid : id ∈ s.live)
    {r : MemoryRegion} {env : WindowsMemory ω} {live : List ℕ} {op : RegionOp}
    (hlive : ∀ a ∈ live, a ≠ id → a ∈ s.live)
    (hmapping : Mapping (s.env.reservations v) (s.region id).reservation (env.reservations v)
      r.reservation)
    (hreleases : ∀ id' x, op.Releases id' → s.Holds id' x → id' = id ∧ r.reservation = none ∧
      ∃ exceptions, env.exceptions = (.platform, v.getLastError env.system) :: exceptions) :
    KeepsReserved v s { s.withRegion id r with live := live, env := env } op := by
  obtain ⟨happart, hkept, hforgotten⟩ := h.exchange hmapping (fun x hx => ⟨hid, hx⟩)
    (holds_withRegion hlive)
  refine ⟨hkept, happart, hforgotten, fun id' x hop hx => ?_⟩
  obtain ⟨rfl, hnone, hpushed⟩ := hreleases id' x hop hx
  refine ⟨fun a ha => ?_, hpushed⟩
  rcases holds_withRegion hlive ha with ⟨-, hsome⟩ | ⟨hne, hold⟩
  · cases hnone.symm.trans hsome
  · exact hne (h.unique hold hx)

/-- **One operation.** -/
theorem keepsReserved_step (hv : v.Documented) (h : HeldApart (s.env.reservations v) s.Holds)
    {op : RegionOp} {o : Option UInt64} (hstep : s.step (windowsPlatform v) op = some (o, s')) :
    KeepsReserved v s s' op := by
  have hmapped {id} (hid : id ∈ s.live) : ∀ x ∈ (s.region id).reservation,
      x ∈ s.env.reservations v := fun x hx => h.mapped ⟨hid, hx⟩
  cases effect_of_step hstep with
  | @construct id maxSize hid =>
    have hmapping : Mapping (s.env.reservations v) none (s.env.reservations v)
      (MemoryRegion.create maxSize).reservation := .keep
    obtain ⟨happart, hkept, hforgotten⟩ := h.exchange hmapping nofun
      (holds_withRegion fun a ha hne => (List.mem_cons.mp ha).resolve_left hne)
    exact ⟨hkept, happart, hforgotten, fun _ _ => False.elim⟩
  | @moveConstruct id other hid hother =>
    obtain ⟨happart, hforgotten⟩ := h.move
      (holds_moveTo (fun a ha hne => (List.mem_cons.mp ha).resolve_left hne) hother)
    exact ⟨List.suffix_rfl, happart, fun x _ => hforgotten x, fun _ _ => False.elim⟩
  | moveAssign hid hother =>
    obtain ⟨happart, hforgotten⟩ := h.move (holds_moveTo (fun a ha _ => ha) hother)
    exact ⟨List.suffix_rfl, happart, fun x _ => hforgotten x, fun _ _ => False.elim⟩
  | grow hid =>
    exact keepsReserved_update h hid (fun a ha _ => ha)
      (MemoryRegion.grow_mapping hv (hmapped hid) _) fun _ _ => False.elim
  | claim hid =>
    exact keepsReserved_update h hid (fun a ha _ => ha)
      (MemoryRegion.claim_mapping hv (hmapped hid)) fun _ _ => False.elim
  | @reset id release hid =>
    obtain ⟨hmapping, hreleases⟩ := MemoryRegion.reset_mapping hv (hmapped hid) release
    refine keepsReserved_update h hid (fun a ha _ => ha) hmapping fun id' x hop hx => ?_
    obtain ⟨rfl, hrelease⟩ := hop
    have hmemory := MemoryRegion.memory_ne_zero hx.2
    exact ⟨rfl, hreleases hrelease hmemory⟩
  | @destruct id hid =>
    obtain ⟨hmapping, hreleases⟩ := MemoryRegion.reset_mapping hv (hmapped hid) true
    refine keepsReserved_update h hid (fun a ha _ => List.mem_of_mem_erase ha) hmapping
      fun id' x hop hx => ?_
    obtain rfl := hop
    have hmemory := MemoryRegion.memory_ne_zero hx.2
    exact ⟨rfl, hreleases rfl hmemory⟩

/-- **In every run no address is given back**: the regions that live hold addresses of their own,
those that are released leave theirs reserved to nobody, and so they stay. -/
theorem never_released (hv : v.Documented) (env : WindowsMemory ω) (ops : List RegionOp) :
    Along (step (windowsPlatform v)) (fun s op => ∀ o s',
      s.step (windowsPlatform v) op = some (o, s') → KeepsReserved v s s' op) (start env) ops := by
  refine Along.of_invariant (fun s => HeldApart (s.env.reservations v) s.Holds)
    (fun s op h o s' hstep => keepsReserved_step hv h hstep)
    (fun s op o s' h hstep => (keepsReserved_step hv h hstep).apart) ?_
  exact ⟨fun ha => absurd ha.1 List.not_mem_nil, fun ha => absurd ha.1 List.not_mem_nil⟩

end RegionSystem

/-- A system of three ranges at the granularity, which are reserved one after another. -/
def VirtualMemory.sample : VirtualMemory (Fin 4) where
  virtualAlloc address size allocationType _ w :=
    if allocationType = memCommit then (address, w)
    else if h : size = granularity ∧ w.val < 3 then
      (granularity * (w.val.toUInt64 + 1), ⟨w.val + 1, Nat.succ_lt_succ h.2⟩)
    else (0, w)
  virtualFree _ _ freeType w := (freeType = memDecommit, w)
  getLastError _ := 87
  reservations w :=
    (List.range w.val).reverse.map fun i => ⟨granularity * (i.toUInt64 + 1), granularity⟩

theorem VirtualMemory.documented_sample : sample.Documented where
  inSpace := by decide
  apart := by decide
  reserve size w _ := by
    have hgranted : ∀ (w : Fin 4) (hw : w.val < 3), granularity * (w.val.toUInt64 + 1) ≠ 0 ∧
        sample.reservations ⟨w.val + 1, Nat.succ_lt_succ hw⟩ =
          ⟨granularity * (w.val.toUInt64 + 1), granularity⟩ :: sample.reservations w := by
      decide
    have hreserve : sample.virtualAlloc 0 size memReserve pageNoaccess w =
        if h : size = granularity ∧ w.val < 3 then
          (granularity * (w.val.toUInt64 + 1), ⟨w.val + 1, Nat.succ_lt_succ h.2⟩)
        else (0, w) := rfl
    rw [hreserve]
    by_cases h : size = granularity ∧ w.val < 3
    · obtain ⟨rfl, hw⟩ := h
      rw [dif_pos ⟨rfl, hw⟩]
      exact .inr (hgranted w hw)
    · rw [dif_neg h]
      exact .inl ⟨rfl, rfl⟩
  commit address size w _ := rfl
  decommit address size w := rfl
  release address size w _ := ⟨rfl, rfl⟩

namespace RegionSystem

/-- A region that is destructed and constructed again reserves a second range. -/
theorem never_released_again : Along (step (windowsPlatform .sample)) (fun s op => ∀ o s',
      s.step (windowsPlatform .sample) op = some (o, s') → KeepsReserved .sample s s' op)
    (start ⟨0, []⟩)
    [.construct 0 1, .grow 0 1, .destruct 0, .construct 0 1, .claim 0, .reset 0 true] :=
  never_released VirtualMemory.documented_sample _ _

end RegionSystem

end Hologine.Memory
