import Hologine.Library.References
import Hologine.Memory.RegionObjects

/-!
# Who owns the pages of a region

The region objects of a program over a platform whose answers are written down: the ranges of pages
that `reserve_pages` has returned, and those that `release_pages` was given.

* A move assignment (`core/memory/memory_region.cpp:27-38`) takes the members of the other region
  without a release of its own. So what the target held is not released any more.

Results:
* `RegionSystem.OneOwner.moveAssign_iff`: an assignment keeps one owner of every range iff its
  target holds none.
* `RegionSystem.run_keepsOwner_iff`: in every run each range has one owner until it is released, and
  is released once when all regions are gone, iff no assignment has a target that holds a range.
-/

namespace Hologine.Memory

open Hologine.Library Hologine.Library.Run

/-- A range of pages: the base of its reservation, its index there and its length. -/
structure PageRange where
  base : UInt64
  index : UInt64
  count : UInt64
  deriving Repr, DecidableEq

/-- The ranges that were returned by `reserve_pages`, and those that were released. -/
structure Ledger where
  reserved : List PageRange
  released : List PageRange
  deriving Repr, DecidableEq

namespace Ledger

/-- A range is returned. -/
def reserve (l : Ledger) (range : PageRange) : Ledger := { l with reserved := range :: l.reserved }

/-- A range is given back. -/
def release (l : Ledger) (range : PageRange) : Ledger := { l with released := range :: l.released }

/-- A range is not out: it was given back as often as it was returned. -/
def IsBack (l : Ledger) (range : PageRange) : Prop :=
  l.reserved.count range = l.released.count range

instance (l : Ledger) (range : PageRange) : Decidable (l.IsBack range) :=
  inferInstanceAs (Decidable (_ = _))

theorem count_reserve (l : Ledger) (range range' : PageRange) :
    (l.reserve range').reserved.count range =
      l.reserved.count range + if range' = range then 1 else 0 := by
  simp [reserve, List.count_cons]

theorem count_release (l : Ledger) (range range' : PageRange) :
    (l.release range').released.count range =
      l.released.count range + if range' = range then 1 else 0 := by
  simp [release, List.count_cons]

@[simp] theorem released_reserve (l : Ledger) (range : PageRange) :
    (l.reserve range).released = l.released := rfl

@[simp] theorem reserved_release (l : Ledger) (range : PageRange) :
    (l.release range).reserved = l.reserved := rfl

/-- **What may become of the range of one region**, and of the ledger. -/
inductive Exchange (l : Ledger) (held : Option PageRange) : Ledger → Option PageRange → Prop
  | keep : Exchange l held l held
  | reserve (range : PageRange) (hnone : held = none) (hback : l.IsBack range) :
      Exchange l held (l.reserve range) (some range)
  | release (range : PageRange) (hheld : held = some range) :
      Exchange l held (l.release range) none

end Ledger

variable {π : Type} (p : Platform π)

/-- A platform whose ranges are written down. Reserving may fail, and returns no range then. -/
def Platform.logged : Platform (π × Ledger) where
  pushException code env := (p.pushException code env.1, env.2)
  reservePages maxPages env :=
    let (base, inner) := p.reservePages maxPages env.1
    (base, inner, if base = 0 then env.2 else env.2.reserve ⟨base, 0, maxPages⟩)
  releasePages base index count env :=
    (p.releasePages base index count env.1, env.2.release ⟨base, index, count⟩)
  commitPages base index count env :=
    let (ok, inner) := p.commitPages base index count env.1
    (ok, inner, env.2)
  decommitPages base index count env := (p.decommitPages base index count env.1, env.2)

namespace MemoryRegion

/-- The range that a region holds. -/
def held (r : MemoryRegion) : Option PageRange :=
  if r.memory = 0 then none else some ⟨r.memory, 0, r.reservedSize / pageSize⟩

/-- The range that the platform returns, if it is asked to reserve a region. -/
def answered (r : MemoryRegion) (env : π) : PageRange :=
  ⟨(p.reservePages (r.reservedSize / pageSize) env).1, 0, r.reservedSize / pageSize⟩

variable {p} {r : MemoryRegion} {env : π × Ledger}

theorem held_eq_none_iff : r.held = none ↔ r.memory = 0 := by simp [held]

/-- Reserving a region that holds none gives it the range that is returned. -/
theorem reserve_exchange (hback : r.memory = 0 → env.2.IsBack (r.answered p env.1)) :
    env.2.Exchange r.held (r.reserve p.logged env).2.2 (r.reserve p.logged env).1.held := by
  unfold reserve
  by_cases hmemory : r.memory = 0
  swap
  · rw [if_neg hmemory]
    exact .keep
  rw [if_pos hmemory]
  by_cases hmax : r.maxSize = 0
  · rw [if_pos hmax]
    exact .keep
  rw [if_neg hmax]
  have hnone := held_eq_none_iff.mpr hmemory
  have hback' := hback hmemory
  unfold answered at hback'
  rcases hanswer : p.reservePages (r.reservedSize / pageSize) env.1 with ⟨base, inner⟩
  rw [hanswer] at hback'
  simp only [Platform.logged, hanswer]
  by_cases hbase : base = 0
  · have hfails : ({ r with memory := base } : MemoryRegion).held = r.held := by
      rw [hnone, held_eq_none_iff, hbase]
    rw [if_pos hbase, hfails]
    exact .keep
  · have hholds : ({ r with memory := base } : MemoryRegion).held =
        some ⟨base, 0, r.reservedSize / pageSize⟩ := if_neg hbase
    rw [if_neg hbase, hholds]
    exact .reserve _ hnone hback'

/-- Committing pages changes no range. -/
theorem commit_logged (p : Platform π) (r : MemoryRegion) (size : UInt64) (env : π × Ledger) :
    (r.commit p.logged size env).2.1.held = r.held ∧
      (r.commit p.logged size env).2.2.2 = env.2 := by
  rcases r.commit_spec p.logged size env with ⟨-, heq⟩ | ⟨-, -, heq⟩ | ⟨-, -, -, heq⟩ |
    ⟨-, -, -, heq⟩
  · rw [heq]
    exact ⟨rfl, rfl⟩
  · rw [heq]
    exact ⟨rfl, rfl⟩
  · rw [heq]
    exact ⟨rfl, rfl⟩
  · rw [heq]
    exact ⟨rfl, rfl⟩

theorem grow_exchange (size : UInt64)
    (hback : r.memory = 0 → env.2.IsBack (r.answered p env.1)) :
    env.2.Exchange r.held (r.grow p.logged size env).2.2.2 (r.grow p.logged size env).2.1.held := by
  have hreserve := reserve_exchange hback
  unfold grow
  rcases hanswer : r.reserve p.logged env with ⟨r', env'⟩
  rw [hanswer] at hreserve
  dsimp only
  by_cases hmemory : r'.memory = 0
  · rw [if_pos hmemory]
    exact hreserve
  · obtain ⟨hheld, hledger⟩ := commit_logged p r' size env'
    rw [if_neg hmemory, hheld, hledger]
    exact hreserve

theorem claim_exchange (hback : r.memory = 0 → env.2.IsBack (r.answered p env.1)) :
    env.2.Exchange r.held (r.claim p.logged env).2.2.2 (r.claim p.logged env).2.1.held := by
  unfold claim
  dsimp only
  by_cases hfull : r.maxSize - r.currentSize = 0
  · rw [if_pos hfull]
    exact .keep
  · rw [if_neg hfull]
    exact grow_exchange _ hback

/-- **`reset` with `release` gives the range of a region back**, and without it keeps it. -/
theorem reset_exchange (p : Platform π) (r : MemoryRegion) (release : Bool) (env : π × Ledger) :
    env.2.Exchange r.held (r.reset p.logged release env).2.2
      (r.reset p.logged release env).1.held ∧
        (release = true → (r.reset p.logged release env).1.held = none) := by
  unfold reset
  by_cases hmemory : r.memory = 0
  · rw [if_pos hmemory]
    exact ⟨.keep, fun _ => held_eq_none_iff.mpr hmemory⟩
  have hheld : r.held = some ⟨r.memory, 0, r.reservedSize / pageSize⟩ := if_neg hmemory
  rw [if_neg hmemory]
  by_cases hsize : r.currentSize > 0
  · simp only [if_pos hsize]
    cases release with
    | false => exact ⟨.keep, nofun⟩
    | true => exact ⟨.release _ hheld, fun _ => rfl⟩
  · simp only [if_neg hsize]
    cases release with
    | false => exact ⟨.keep, nofun⟩
    | true => exact ⟨.release _ hheld, fun _ => rfl⟩

end MemoryRegion

namespace RegionSystem

/-- The ranges that the regions hold. -/
def held (s : RegionSystem π) (id : ℕ) : Option PageRange := (s.region id).held

/-- **Every range that is out is held by one region that lives**, and no other range is. -/
def OneOwner (s : RegionSystem (π × Ledger)) : Prop := ∀ range,
  s.env.2.reserved.count range = s.env.2.released.count range + references s.live s.held range ∧
    references s.live s.held range ≤ 1

/-- The operation leaves one owner of every range, and if it leaves no region every range that was
returned has been released once. -/
def KeepsOwner (s : RegionSystem (π × Ledger)) (op : RegionOp) : Prop :=
  ∀ o s', s.step p.logged op = some (o, s') →
    s'.OneOwner ∧ (s'.live = [] → s'.env.2.released.Perm s'.env.2.reserved)

/-- What the platform promises: it returns no range that is out. -/
def Fresh (s : RegionSystem (π × Ledger)) : RegionOp → Prop
  | .grow id _ => (s.region id).memory = 0 → s.env.2.IsBack ((s.region id).answered p s.env.1)
  | .claim id => (s.region id).memory = 0 → s.env.2.IsBack ((s.region id).answered p s.env.1)
  | _ => True

/-- The target of a move assignment holds no range. -/
def AssignsToEmpty (s : RegionSystem (π × Ledger)) : RegionOp → Prop
  | .moveAssign id other => id ∈ s.live → other ∈ s.live → (s.region id).memory = 0
  | _ => True

instance (s : RegionSystem (π × Ledger)) (op : RegionOp) : Decidable (Fresh p s op) := by
  cases op <;> unfold Fresh <;> infer_instance

instance (s : RegionSystem (π × Ledger)) (op : RegionOp) : Decidable (AssignsToEmpty s op) := by
  cases op <;> unfold AssignsToEmpty <;> infer_instance

variable {p} {s s' : RegionSystem (π × Ledger)} {id other : ℕ} {range : PageRange}

theorem held_withRegion (s : RegionSystem π) (id : ℕ) (r : MemoryRegion) :
    (s.withRegion id r).held = Function.update s.held id r.held :=
  Function.comp_update MemoryRegion.held s.region id r

theorem held_moveTo (s : RegionSystem π) (id other : ℕ) :
    (s.moveTo id other).held =
      Function.update (Function.update s.held id (s.held other)) other none := by
  rw [moveTo, held_withRegion, held_withRegion]
  rfl

/-- A region that is moved to a new one has one owner as before. -/
theorem references_moveConstruct (hnodup : s.live.Nodup) (hid : id ∉ s.live)
    (hother : other ∈ s.live) (range : PageRange) :
    references (id :: s.live) (s.moveTo id other).held range =
      references s.live s.held range := by
  have hne : other ≠ id := fun heq => hid (heq ▸ hother)
  have hconstruct := @references_construct _ _ _ s.live s.held id range _ hid (s.held other)
  have hclear := @references_update _ _ _ (id :: s.live)
    (Function.update s.held id (s.held other)) other range _ (List.nodup_cons.mpr ⟨hid, hnodup⟩)
    (List.mem_cons_of_mem id hother) none
  rw [Function.update_of_ne hne, if_neg (Option.some_ne_none range).symm] at hclear
  rw [held_moveTo]
  omega

/-- **What the target of an assignment held has one owner less.** -/
theorem references_moveAssign (hnodup : s.live.Nodup) (hid : id ∈ s.live) (hother : other ∈ s.live)
    (range : PageRange) :
    references s.live (s.moveTo id other).held range + (if s.held id = some range then 1 else 0) =
      references s.live s.held range := by
  have hassign := @references_update _ _ _ s.live s.held id range _ hnodup hid (s.held other)
  have hclear := @references_update _ _ _ s.live (Function.update s.held id (s.held other)) other
    range _ hnodup hother none
  have hmoved : Function.update s.held id (s.held other) other = s.held other := by
    by_cases heq : other = id
    · rw [heq, Function.update_self]
    · rw [Function.update_of_ne heq]
  rw [hmoved, if_neg (Option.some_ne_none range).symm] at hclear
  rw [held_moveTo]
  omega

namespace OneOwner

/-- The same ranges are out and the same are held. -/
theorem congr (h : s.OneOwner) (henv : s'.env = s.env)
    (href : ∀ range, references s'.live s'.held range = references s.live s.held range) :
    s'.OneOwner := by
  intro range
  rw [henv, href]
  exact h range

/-- **One owner is kept by what may become of a range.** -/
theorem exchange (h : s.OneOwner) (hnodup : s.live.Nodup) (hid : id ∈ s.live) {r : MemoryRegion}
    {env : π × Ledger} (hexchange : s.env.2.Exchange (s.held id) env.2 r.held) :
    OneOwner { s.withRegion id r with env := env } := by
  intro range
  obtain ⟨hcount, hone⟩ := h range
  have hupdate := @references_update _ _ _ s.live s.held id range _ hnodup hid r.held
  have hheld : RegionSystem.held { s.withRegion id r with env := env } =
      Function.update s.held id r.held := held_withRegion s id r
  rw [hheld]
  show env.2.reserved.count range = env.2.released.count range +
    references s.live (Function.update s.held id r.held) range ∧
      references s.live (Function.update s.held id r.held) range ≤ 1
  generalize r.held = after at *
  generalize env.2 = ledger at *
  cases hexchange with
  | keep => omega
  | reserve range' hnone hback =>
    rw [hnone, if_neg (Option.some_ne_none range).symm] at hupdate
    rw [Ledger.count_reserve, Ledger.released_reserve]
    by_cases heq : range' = range
    · obtain rfl := heq
      rw [if_pos rfl] at hupdate
      rw [Ledger.IsBack] at hback
      rw [if_pos rfl]
      omega
    · rw [if_neg fun hsome => heq (Option.some.inj hsome)] at hupdate
      rw [if_neg heq]
      omega
  | release range' hsome =>
    rw [hsome, if_neg (Option.some_ne_none range).symm] at hupdate
    rw [Ledger.count_release, Ledger.reserved_release]
    by_cases heq : range' = range
    · rw [heq, if_pos rfl] at hupdate
      rw [if_pos heq]
      omega
    · rw [if_neg fun hsome => heq (Option.some.inj hsome)] at hupdate
      rw [if_neg heq]
      omega

/-- A region that holds no range goes. -/
theorem erase (h : s.OneOwner) (hid : id ∈ s.live) (hnone : s.held id = none) :
    OneOwner { s with live := s.live.erase id } := by
  refine h.congr rfl fun range => ?_
  have herase := references_erase s.held range hid
  rw [hnone, if_neg (Option.some_ne_none range).symm] at herase
  exact herase

/-- **An assignment keeps one owner of every range iff its target holds none.** -/
theorem moveAssign_iff (h : s.OneOwner) (hnodup : s.live.Nodup) (hid : id ∈ s.live)
    (hother : other ∈ s.live) : (s.moveTo id other).OneOwner ↔ (s.region id).memory = 0 := by
  have hempty : s.held id = none ↔ (s.region id).memory = 0 := MemoryRegion.held_eq_none_iff
  rw [← hempty]
  have hafter := references_moveAssign hnodup hid hother
  constructor
  · intro hone
    by_contra hsome
    obtain ⟨range, hrange⟩ := Option.ne_none_iff_exists'.mp hsome
    -- the range of the target is still out, and has lost its owner
    have hlost := hafter range
    rw [if_pos hrange] at hlost
    have hbefore := (h range).1
    have hout : s.env.2.reserved.count range = s.env.2.released.count range +
      references s.live (s.moveTo id other).held range := (hone range).1
    omega
  · intro hnone
    refine h.congr rfl fun range => ?_
    have hsame := hafter range
    rw [hnone, if_neg (Option.some_ne_none range).symm] at hsame
    exact hsame

/-- When no region is left every range is back. -/
theorem perm (h : s.OneOwner) (hlive : s.live = []) :
    s.env.2.released.Perm s.env.2.reserved := by
  refine List.perm_iff_count.mpr fun range => ?_
  have hcount := (h range).1
  rw [hlive] at hcount
  exact hcount.symm

end OneOwner

/-- What holds of the regions and the ledger in every state. -/
structure Owned (s : RegionSystem (π × Ledger)) : Prop where
  nodup : s.live.Nodup
  oneOwner : s.OneOwner

theorem owned_start (env : π) : (start (env, (⟨[], []⟩ : Ledger))).Owned :=
  ⟨List.nodup_nil, fun _ => ⟨rfl, Nat.zero_le _⟩⟩

/-- **What one operation keeps**: one owner of every range, unless it assigns to a region that holds
one. -/
theorem Owned.step (h : s.Owned) {op : RegionOp} (hfresh : Fresh p s op)
    (hassigns : s.AssignsToEmpty op) {o : Option UInt64}
    (hstep : s.step p.logged op = some (o, s')) : s'.Owned := by
  obtain ⟨hnodup, howner⟩ := h
  cases effect_of_step hstep with
  | construct hid =>
    refine ⟨List.nodup_cons.mpr ⟨hid, hnodup⟩, howner.congr rfl fun range => ?_⟩
    have hconstruct := @references_construct _ _ _ s.live s.held _ range _ hid none
    rw [if_neg (Option.some_ne_none range).symm, Nat.add_zero] at hconstruct
    rw [← hconstruct]
    exact congrArg (references _ · range) (held_withRegion s _ (.create _))
  | moveConstruct hid hother =>
    exact ⟨List.nodup_cons.mpr ⟨hid, hnodup⟩,
      howner.congr rfl (references_moveConstruct hnodup hid hother)⟩
  | moveAssign hid hother =>
    exact ⟨hnodup, (howner.moveAssign_iff hnodup hid hother).mpr (hassigns hid hother)⟩
  | grow hid =>
    exact ⟨hnodup, howner.exchange hnodup hid (MemoryRegion.grow_exchange _ hfresh)⟩
  | claim hid =>
    exact ⟨hnodup, howner.exchange hnodup hid (MemoryRegion.claim_exchange hfresh)⟩
  | reset hid =>
    exact ⟨hnodup, howner.exchange hnodup hid (MemoryRegion.reset_exchange p _ _ _).1⟩
  | @destruct id hid =>
    obtain ⟨hexchange, hnone⟩ := MemoryRegion.reset_exchange p (s.region id) true s.env
    refine ⟨hnodup.erase id, (howner.exchange hnodup hid hexchange).erase hid ?_⟩
    show ((s.withRegion id _).region id).held = none
    rw [withRegion_self]
    exact hnone rfl

/-- An operation keeps one owner of every range iff it assigns to none that holds one. -/
theorem Owned.keepsOwner_iff (h : s.Owned) {op : RegionOp} (hfresh : Fresh p s op) :
    KeepsOwner p s op ↔ s.AssignsToEmpty op := by
  constructor
  · intro hkeeps
    cases op with
    | moveAssign id other =>
      intro hid hother
      have hstep : s.step p.logged (.moveAssign id other) = some (none, s.moveTo id other) :=
        if_pos ⟨hid, hother⟩
      exact (h.oneOwner.moveAssign_iff h.nodup hid hother).mp (hkeeps _ _ hstep).1
    | construct id maxSize => trivial
    | moveConstruct id other => trivial
    | grow id size => trivial
    | claim id => trivial
    | reset id release => trivial
    | destruct id => trivial
  · intro hassigns o s' hstep
    have howned := h.step hfresh hassigns hstep
    exact ⟨howned.oneOwner, howned.oneOwner.perm⟩

/-- **In every run every range has one owner until it is released, and has been released once when
no region is left, iff no region that holds a range is assigned to.** -/
theorem run_keepsOwner_iff (p : Platform π) (env : π) (ops : List RegionOp)
    (hfresh : Along (step p.logged) (Fresh p) (start (env, ⟨[], []⟩)) ops) :
    Along (step p.logged) (KeepsOwner p) (start (env, ⟨[], []⟩)) ops ↔
      Along (step p.logged) AssignsToEmpty (start (env, ⟨[], []⟩)) ops :=
  along_congr Owned (fun _ _ howned hfresh => howned.keepsOwner_iff hfresh)
    (fun _ _ _ _ howned hfresh hassigns hstep => howned.step hfresh hassigns hstep)
    (owned_start env) hfresh

/-- A range that is moved twice, released and reserved again. -/
theorem run_keepsOwner_iff_moved : Along (step Platform.granting.logged)
    (KeepsOwner Platform.granting) (start ((), ⟨[], []⟩))
    [.construct 0 0x3000, .grow 0 1, .moveConstruct 1 0, .construct 2 0, .moveAssign 2 1,
      .reset 2 true, .claim 2, .destruct 1, .destruct 0, .destruct 2] :=
  (run_keepsOwner_iff Platform.granting () _ (by decide)).mpr (by decide)

/-- **A range is not released**: an empty region is assigned to the one that holds it. -/
theorem not_keepsOwner : ¬ ∀ (p : Platform Unit) (ops : List RegionOp),
    Along (step p.logged) (Fresh p) (start ((), ⟨[], []⟩)) ops →
      Along (step p.logged) (KeepsOwner p) (start ((), ⟨[], []⟩)) ops := by
  intro hall
  have h := hall Platform.granting [.construct 0 0x3000, .grow 0 1, .construct 1 0, .moveAssign 0 1]
    (by decide)
  have hlast := ((((h.2 _ _ rfl).2 _ _ rfl).2 _ _ rfl).1 _ _ rfl).1
  exact absurd (hlast ⟨granularity, 0, 0x10⟩).1 (by decide)

end RegionSystem

end Hologine.Memory
