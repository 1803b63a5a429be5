import Hologine.Library.Run
import Mathlib.Data.List.ReduceOption
import Mathlib.Logic.Function.Basic

/-!
# Objects behind a lock

The operations of an object are code: an operation enters it, and statement by statement the code
goes on or returns (`Code`). Threads call operations behind one lock in any interleaving (`step`):
a call, the lock, each statement, and the unlock, with which the call returns, are actions of their
own. A thread that is in no call may touch the object without the lock, where the code has no part
in what is touched (`Commutes`).

* `Code.Runs`: what an operation does when it is alone. `Code.runs_iff` computes it.
* `Settled.step`: while the lock is held, the thread that holds it is on its way from the object as
  it was settled; nothing happens to that but what is touched, and the unlock settles the rest.
* `Settled.exec`: **the effects of an interleaving are those of the operations one after another**,
  in the order of the unlocks.
* `pending_exec`: the operations of a thread return in the order it calls them.
* `Settled.inside_unique`, `Settled.progress`: one thread at most is inside, and one can go on.
-/

namespace Hologine.Library.Locked

open Hologine.Library.Run

variable {τ ι ο ρ σ κ : Type*}

/-! ## Code -/

/-- The code of an object: where an operation enters, and what the statement at a place does, which
leads to another place or returns. It may not be defined. -/
structure Code (τ ι ο ρ σ : Type*) where
  enter : τ → ι → ρ
  statement : ρ → σ → Option ((ρ ⊕ ο) × σ)

namespace Code

variable (code : Code τ ι ο ρ σ)

/-- The statements lead from one place to another. -/
inductive Reaches (l : ρ) (s : σ) : ρ → σ → Prop
  | refl : Reaches l s l s
  | tail {l' l'' : ρ} {s' s'' : σ} :
      Reaches l s l' s' → code.statement l' s' = some (.inl l'', s'') → Reaches l s l'' s''

/-- An operation that is alone returns. -/
def Runs (t : τ) (i : ι) (s : σ) (o : ο) (s' : σ) : Prop :=
  ∃ l u, code.Reaches (code.enter t i) s l u ∧ code.statement l u = some (.inr o, s')

/-- The first `n` statements from a place, if one of them returns. -/
def run : Nat → ρ → σ → Option (ο × σ)
  | 0, _, _ => none
  | n + 1, l, s =>
    match code.statement l s with
    | some (.inl l', s') => run n l' s'
    | some (.inr o, s') => some (o, s')
    | none => none

variable {code} {t : τ} {l l' : ρ} {s s' : σ} {o : ο} {i : ι} {n : Nat}

theorem Reaches.head {l'' : ρ} {s'' : σ} (hstep : code.statement l s = some (.inl l', s'))
    (h : code.Reaches l' s' l'' s'') : code.Reaches l s l'' s'' := by
  induction h with
  | refl => exact .tail .refl hstep
  | tail _ hlast ih => exact .tail ih hlast

theorem reaches_of_run (h : code.run n l s = some (o, s')) :
    ∃ l' t, code.Reaches l s l' t ∧ code.statement l' t = some (.inr o, s') := by
  induction n generalizing l s with
  | zero => exact nomatch h
  | succ n ih =>
    unfold run at h
    split at h
    · next l' t hstep =>
      obtain ⟨l'', t', hreaches, hlast⟩ := ih h
      exact ⟨l'', t', hreaches.head hstep, hlast⟩
    · next o' t hstep =>
      obtain ⟨rfl, rfl⟩ := Prod.mk.inj (Option.some.inj h)
      exact ⟨l, s, .refl, hstep⟩
    · exact nomatch h

/-- What is reached returns what the place it is reached from returns. -/
theorem Reaches.run_eq (h : code.Reaches l s l' s') {r : ο × σ} (hrun : code.run n l s = some r) :
    ∃ m, code.run m l' s' = some r := by
  induction h with
  | refl => exact ⟨n, hrun⟩
  | tail _ hstep ih =>
    obtain ⟨m, hm⟩ := ih
    cases m with
    | zero => exact nomatch hm
    | succ m =>
      unfold run at hm
      rw [hstep] at hm
      exact ⟨m, hm⟩

/-- **An operation that returns after `n` statements** returns that and nothing else. -/
theorem runs_iff {r : ο × σ} (hrun : code.run n (code.enter t i) s = some r) :
    code.Runs t i s o s' ↔ (o, s') = r := by
  constructor
  · rintro ⟨l, t, hreaches, hlast⟩
    obtain ⟨m, hm⟩ := hreaches.run_eq hrun
    cases m with
    | zero => exact nomatch hm
    | succ m =>
      unfold run at hm
      rw [hlast] at hm
      exact Option.some.inj hm
  · rintro rfl
    exact reaches_of_run hrun

end Code

/-! ## Threads -/

/-- Where a thread is: in no call, before the lock, at a place of the code, or before the unlock. -/
inductive Phase (ι ο ρ : Type*)
  | idle
  | waiting (i : ι)
  | inside (i : ι) (l : ρ)
  | leaving (i : ι) (o : ο)
  deriving Repr, DecidableEq

/-- The call of a phase. -/
def Phase.pending : Phase ι ο ρ → List ι
  | .idle => []
  | .waiting i | .inside i _ | .leaving i _ => [i]

/-- The threads, who has the lock, and the object. `settled` is the object as the last unlock left
it, with what has been touched since. -/
structure State (τ ι ο ρ σ : Type*) where
  owner : Option τ
  phase : τ → Phase ι ο ρ
  shared : σ
  settled : σ

/-- What a thread does. -/
inductive Action (τ ι κ : Type*)
  | call (t : τ) (i : ι)
  | lock (t : τ)
  | statement (t : τ)
  | unlock (t : τ)
  | touch (t : τ) (k : κ)
  deriving Repr, DecidableEq

/-- What an action does to the object for all to see. -/
inductive Effect (τ ι ο κ : Type*)
  | operation (t : τ) (i : ι) (o : ο)
  | touch (t : τ) (k : κ)
  deriving Repr, DecidableEq

section

variable [DecidableEq τ] (t : τ)

/-- What a thread calls with an action. -/
def Action.called : Action τ ι κ → Option ι
  | .call t' i => if t' = t then some i else none
  | _ => none

/-- What an effect is to a thread: one of its operations returns. -/
def Effect.returned : Effect τ ι ο κ → Option ι
  | .operation t' i _ => if t' = t then some i else none
  | _ => none

end

variable (code : Code τ ι ο ρ σ) (touch : κ → σ → σ)

/-- The object after an effect. -/
def Sequential (s : σ) : Effect τ ι ο κ → σ → Prop
  | .operation t i o, s' => code.Runs t i s o s'
  | .touch _ k, s' => s' = touch k s

/-- The object after an action, which may have an effect. -/
def Settles (s : σ) : Option (Effect τ ι ο κ) → σ → Prop
  | none, s' => s' = s
  | some e, s' => Sequential code touch s e s'

/-- The object after effects, one after another. -/
def History : σ → List (Effect τ ι ο κ) → σ → Prop
  | s, [], s' => s = s'
  | s, e :: es, s' => ∃ t, Sequential code touch s e t ∧ History t es s'

namespace State

/-- Every thread is in no call. -/
def start (s : σ) : State τ ι ο ρ σ := ⟨none, fun _ => .idle, s, s⟩

variable [DecidableEq τ]

/-- A thread that comes to another phase. -/
def moved (s : State τ ι ο ρ σ) (t : τ) (phase : Phase ι ο ρ) : State τ ι ο ρ σ :=
  { s with phase := Function.update s.phase t phase }

/-- One action, if it can be taken, and its effect. -/
def step (s : State τ ι ο ρ σ) : Action τ ι κ → Option (Option (Effect τ ι ο κ) × State τ ι ο ρ σ)
  | .call t i =>
    match s.phase t with
    | .idle => some (none, s.moved t (.waiting i))
    | _ => none
  | .lock t =>
    match s.phase t, s.owner with
    | .waiting i, none =>
      some (none, { s.moved t (.inside i (code.enter t i)) with owner := some t })
    | _, _ => none
  | .statement t =>
    match s.phase t with
    | .inside i l =>
      match code.statement l s.shared with
      | some (.inl l', shared) => some (none, { s.moved t (.inside i l') with shared := shared })
      | some (.inr o, shared) => some (none, { s.moved t (.leaving i o) with shared := shared })
      | none => none
    | _ => none
  | .unlock t =>
    match s.phase t with
    | .leaving i o =>
      some (some (.operation t i o), { s.moved t .idle with owner := none, settled := s.shared })
    | _ => none
  | .touch t k =>
    match s.phase t with
    | .idle => some (some (.touch t k),
        { s with shared := touch k s.shared, settled := touch k s.settled })
    | _ => none

/-- The call a thread is in. -/
def pending (s : State τ ι ο ρ σ) (t : τ) : List ι := (s.phase t).pending

/-- A thread is in an operation, with the lock. -/
def InOperation (s : State τ ι ο ρ σ) (t : τ) (i : ι) : Prop :=
  (∃ l, s.phase t = .inside i l) ∨ ∃ o, s.phase t = .leaving i o

/-- **What lasts while threads interleave**: without an owner the object is settled; the owner is
inside, on the way from there, or leaves with what its operation returns there. -/
structure Settled (s : State τ ι ο ρ σ) : Prop where
  free : s.owner = none → s.shared = s.settled
  owner : ∀ t, s.owner = some t → ∃ i, s.InOperation t i
  inside : ∀ t i l, s.phase t = .inside i l →
    s.owner = some t ∧ code.Reaches (code.enter t i) s.settled l s.shared
  leaving : ∀ t i o, s.phase t = .leaving i o →
    s.owner = some t ∧ code.Runs t i s.settled o s.shared

end State

/-- Where a touch is free to happen, it commutes with the statement, and stays free at the next. -/
structure Commutes (Free : κ → ρ → σ → Prop) : Prop where
  statement : ∀ k l s, Free k l s → ∀ r s', code.statement l s = some (r, s') →
    code.statement l (touch k s) = some (r, touch k s')
  keeps : ∀ k l s, Free k l s → ∀ l' s', code.statement l s = some (.inl l', s') → Free k l' s'

/-- What is touched is free for the operation that has the lock. -/
def Respects (Free : κ → ρ → σ → Prop) (s : State τ ι ο ρ σ) : Action τ ι κ → Prop
  | .touch _ k => ∀ t i, s.InOperation t i → Free k (code.enter t i) s.settled
  | _ => True

/-! ## One after another -/

variable {code touch} {Free : κ → ρ → σ → Prop} {s s' : State τ ι ο ρ σ} {a : Action τ ι κ}
  {e : Option (Effect τ ι ο κ)}

theorem Reaches.touched (hcommutes : Commutes code touch Free) {k : κ} {l l' : ρ} {u u' : σ}
    (h : code.Reaches l u l' u') (hfree : Free k l u) :
    code.Reaches l (touch k u) l' (touch k u') ∧ Free k l' u' := by
  induction h with
  | refl => exact ⟨.refl, hfree⟩
  | tail _ hstep ih =>
    obtain ⟨hreaches, hfree'⟩ := ih
    exact ⟨.tail hreaches (hcommutes.statement _ _ _ hfree' _ _ hstep),
      hcommutes.keeps _ _ _ hfree' _ _ hstep⟩

theorem Runs.touched (hcommutes : Commutes code touch Free) {k : κ} {t : τ} {i : ι} {o : ο}
    {u u' : σ} (h : code.Runs t i u o u') (hfree : Free k (code.enter t i) u) :
    code.Runs t i (touch k u) o (touch k u') := by
  obtain ⟨l, t, hreaches, hlast⟩ := h
  obtain ⟨hreaches', hfree'⟩ := Reaches.touched hcommutes hreaches hfree
  exact ⟨l, touch k t, hreaches', hcommutes.statement _ _ _ hfree' _ _ hlast⟩

namespace State

theorem settled_start (u : σ) : (start u : State τ ι ο ρ σ).Settled code :=
  ⟨fun _ => rfl, nofun, nofun, nofun⟩

/-- An operation has the lock. -/
theorem Settled.owner_eq (h : s.Settled code) {t : τ} {i : ι} (ht : s.InOperation t i) :
    s.owner = some t := by
  rcases ht with ⟨l, hl⟩ | ⟨o, ho⟩
  · exact (h.inside t i l hl).1
  · exact (h.leaving t i o ho).1

/-- **One thread at most is in an operation.** -/
theorem Settled.inside_unique (h : s.Settled code) {t t' : τ} {i i' : ι} (ht : s.InOperation t i)
    (ht' : s.InOperation t' i') : t = t' :=
  Option.some.inj ((h.owner_eq ht).symm.trans (h.owner_eq ht'))

theorem InOperation.pending {t : τ} {i : ι} (h : s.InOperation t i) : s.pending t = [i] := by
  rcases h with ⟨l, hl⟩ | ⟨o, ho⟩
  · rw [State.pending, hl, Phase.pending]
  · rw [State.pending, ho, Phase.pending]

/-- What is touched while an operation has the lock is touched where the operation began. -/
theorem Settled.touches (hcommutes : Commutes code touch Free) (h : s.Settled code) {k : κ}
    (hrespects : ∀ t i, s.InOperation t i → Free k (code.enter t i) s.settled) :
    ({ s with shared := touch k s.shared, settled := touch k s.settled } :
      State τ ι ο ρ σ).Settled code := by
  refine ⟨fun hnone => congrArg (touch k) (h.free hnone), h.owner, fun t i l hl => ?_,
    fun t i o ho => ?_⟩
  · obtain ⟨howner, hreaches⟩ := h.inside t i l hl
    exact ⟨howner,
      (Reaches.touched hcommutes hreaches (hrespects t i (.inl ⟨l, hl⟩))).1⟩
  · obtain ⟨howner, hruns⟩ := h.leaving t i o ho
    exact ⟨howner, Runs.touched hcommutes hruns (hrespects t i (.inr ⟨o, ho⟩))⟩

variable [DecidableEq τ] {t t' : τ} {i : ι} {phase : Phase ι ο ρ}

@[simp] theorem moved_phase_self (s : State τ ι ο ρ σ) (t : τ) (phase : Phase ι ο ρ) :
    (s.moved t phase).phase t = phase := Function.update_self ..

theorem moved_phase_of_ne (h : t' ≠ t) : (s.moved t phase).phase t' = s.phase t' :=
  Function.update_of_ne h ..

/-- **All that an action can do.** -/
theorem step_cases (hstep : State.step code touch s a = some (e, s')) :
    match a with
    | .call t i => s.phase t = .idle ∧ e = none ∧ s' = s.moved t (.waiting i)
    | .lock t => ∃ i, s.phase t = .waiting i ∧ s.owner = none ∧ e = none ∧
        s' = { s.moved t (.inside i (code.enter t i)) with owner := some t }
    | .statement t => ∃ i l r u, s.phase t = .inside i l ∧
        code.statement l s.shared = some (r, u) ∧ e = none ∧
        s' = { s.moved t (r.elim (.inside i) (.leaving i)) with shared := u }
    | .unlock t => ∃ i o, s.phase t = .leaving i o ∧ e = some (.operation t i o) ∧
        s' = { s.moved t .idle with owner := none, settled := s.shared }
    | .touch t k => s.phase t = .idle ∧ e = some (.touch t k) ∧
        s' = { s with shared := touch k s.shared, settled := touch k s.settled } := by
  cases a with
  | call t i =>
    simp only [State.step] at hstep
    split at hstep
    · next hidle =>
      obtain ⟨rfl, rfl⟩ := Prod.mk.inj (Option.some.inj hstep)
      exact ⟨hidle, rfl, rfl⟩
    · exact nomatch hstep
  | lock t =>
    simp only [State.step] at hstep
    split at hstep
    · next i hwait hnone =>
      obtain ⟨rfl, rfl⟩ := Prod.mk.inj (Option.some.inj hstep)
      exact ⟨i, hwait, hnone, rfl, rfl⟩
    · exact nomatch hstep
  | statement t =>
    simp only [State.step] at hstep
    split at hstep
    · next i l hl =>
      split at hstep
      · next l' u hcode =>
        obtain ⟨rfl, rfl⟩ := Prod.mk.inj (Option.some.inj hstep)
        exact ⟨i, l, .inl l', u, hl, hcode, rfl, rfl⟩
      · next o u hcode =>
        obtain ⟨rfl, rfl⟩ := Prod.mk.inj (Option.some.inj hstep)
        exact ⟨i, l, .inr o, u, hl, hcode, rfl, rfl⟩
      · exact nomatch hstep
    · exact nomatch hstep
  | unlock t =>
    simp only [State.step] at hstep
    split at hstep
    · next i o ho =>
      obtain ⟨rfl, rfl⟩ := Prod.mk.inj (Option.some.inj hstep)
      exact ⟨i, o, ho, rfl, rfl⟩
    · exact nomatch hstep
  | touch t k =>
    simp only [State.step] at hstep
    split at hstep
    · next hidle =>
      obtain ⟨rfl, rfl⟩ := Prod.mk.inj (Option.some.inj hstep)
      exact ⟨hidle, rfl, rfl⟩
    · exact nomatch hstep

/-- A thread that comes before the lock. -/
theorem Settled.waits (h : s.Settled code) (hidle : s.phase t = .idle) :
    (s.moved t (.waiting i)).Settled code := by
  have hphase (t' : τ) (p : Phase ι ο ρ) (hp : p ≠ .waiting i) (hp' : p ≠ .idle) :
      (s.moved t (.waiting i)).phase t' = p ↔ s.phase t' = p := by
    by_cases ht : t' = t
    · subst ht
      rw [moved_phase_self, hidle]
      exact ⟨fun heq => absurd heq.symm hp, fun heq => absurd heq.symm hp'⟩
    · rw [moved_phase_of_ne ht]
  refine ⟨h.free, fun t' ht' => ?_, fun t' j l hl => ?_, fun t' j o ho => ?_⟩
  · obtain ⟨j, ⟨l, hl⟩ | ⟨o, ho⟩⟩ := h.owner t' ht'
    · exact ⟨j, .inl ⟨l, (hphase t' (.inside j l) nofun nofun).mpr hl⟩⟩
    · exact ⟨j, .inr ⟨o, (hphase t' (.leaving j o) nofun nofun).mpr ho⟩⟩
  · exact h.inside t' j l ((hphase t' (.inside j l) nofun nofun).mp hl)
  · exact h.leaving t' j o ((hphase t' (.leaving j o) nofun nofun).mp ho)

/-- What the thread with the lock does, when no other is in an operation. -/
theorem settled_moved {owner : Option τ} {u v : σ}
    (hothers : ∀ t' j, t' ≠ t → ¬ s.InOperation t' j) (hfree : owner = none → u = v)
    (howner : ∀ t', owner = some t' →
      t' = t ∧ ∃ j, (∃ l, phase = .inside j l) ∨ ∃ o, phase = .leaving j o)
    (hinside : ∀ j l, phase = .inside j l →
      owner = some t ∧ code.Reaches (code.enter t j) v l u)
    (hleaving : ∀ j o, phase = .leaving j o → owner = some t ∧ code.Runs t j v o u) :
    ({ s.moved t phase with owner := owner, shared := u, settled := v } :
      State τ ι ο ρ σ).Settled code := by
  refine ⟨hfree, fun t' ht' => ?_, fun t' j l hl => ?_, fun t' j o ho => ?_⟩
  · obtain ⟨rfl, j, ⟨l, hl⟩ | ⟨o, ho⟩⟩ := howner t' ht'
    · exact ⟨j, .inl ⟨l, (moved_phase_self ..).trans hl⟩⟩
    · exact ⟨j, .inr ⟨o, (moved_phase_self ..).trans ho⟩⟩
  · by_cases ht : t' = t
    · subst ht
      exact hinside j l ((moved_phase_self ..).symm.trans hl)
    · exact absurd (.inl ⟨l, (moved_phase_of_ne ht).symm.trans hl⟩) (hothers t' j ht)
  · by_cases ht : t' = t
    · subst ht
      exact hleaving j o ((moved_phase_self ..).symm.trans ho)
    · exact absurd (.inr ⟨o, (moved_phase_of_ne ht).symm.trans ho⟩) (hothers t' j ht)

/-- **A step**: an effect happens to the object as it was settled, and nothing else does. -/
theorem Settled.step (hcommutes : Commutes code touch Free) (h : s.Settled code)
    (hrespects : Respects code Free s a) (hstep : State.step code touch s a = some (e, s')) :
    s'.Settled code ∧ Settles code touch s.settled e s'.settled := by
  cases a with
  | call t i =>
    obtain ⟨hidle, rfl, rfl⟩ := step_cases hstep
    exact ⟨h.waits hidle, rfl⟩
  | lock t =>
    obtain ⟨i, hwait, hnone, rfl, rfl⟩ := step_cases hstep
    have hothers (t' : τ) (j : ι) (_ : t' ≠ t) (hin : s.InOperation t' j) : False :=
      nomatch hnone.symm.trans (h.owner_eq hin)
    refine ⟨settled_moved hothers nofun (fun t' ht' => ?_) (fun j l hl => ?_) nofun, rfl⟩
    · exact ⟨(Option.some.inj ht').symm, i, .inl ⟨_, rfl⟩⟩
    · obtain ⟨rfl, rfl⟩ := Phase.inside.inj hl
      have hsettled : s.shared = s.settled := h.free hnone
      exact ⟨rfl, hsettled ▸ .refl⟩
  | statement t =>
    obtain ⟨i, l, r, u, hl, hcode, rfl, rfl⟩ := step_cases hstep
    obtain ⟨howner, hreaches⟩ := h.inside t i l hl
    have hothers (t' : τ) (j : ι) (ht' : t' ≠ t) (hin : s.InOperation t' j) : False :=
      ht' (h.inside_unique hin (.inl ⟨l, hl⟩))
    have hsame (t' : τ) (ht' : s.owner = some t') : t' = t :=
      Option.some.inj (ht'.symm.trans howner)
    have hlocked (hnone : s.owner = none) : False := nomatch howner.symm.trans hnone
    refine ⟨?_, rfl⟩
    cases r with
    | inl l' =>
      refine settled_moved hothers (fun hnone => (hlocked hnone).elim) (fun t' ht' => ?_)
        (fun j l'' hl'' => ?_) nofun
      · exact ⟨hsame t' ht', i, .inl ⟨l', rfl⟩⟩
      · obtain ⟨rfl, rfl⟩ := Phase.inside.inj hl''
        exact ⟨howner, .tail hreaches hcode⟩
    | inr o =>
      refine settled_moved hothers (fun hnone => (hlocked hnone).elim) (fun t' ht' => ?_)
        nofun (fun j o' ho' => ?_)
      · exact ⟨hsame t' ht', i, .inr ⟨o, rfl⟩⟩
      · obtain ⟨rfl, rfl⟩ := Phase.leaving.inj ho'
        exact ⟨howner, l, s.shared, hreaches, hcode⟩
  | unlock t =>
    obtain ⟨i, o, ho, rfl, rfl⟩ := step_cases hstep
    have hothers (t' : τ) (j : ι) (ht' : t' ≠ t) (hin : s.InOperation t' j) : False :=
      ht' (h.inside_unique hin (.inr ⟨o, ho⟩))
    exact ⟨settled_moved hothers (fun _ => rfl) nofun nofun nofun, (h.leaving t i o ho).2⟩
  | touch t k =>
    obtain ⟨-, rfl, rfl⟩ := step_cases hstep
    exact ⟨h.touches hcommutes hrespects, rfl⟩

/-- **Threads behind a lock do what their operations do one after another**, in the order of the
unlocks. -/
theorem Settled.exec (hcommutes : Commutes code touch Free) :
    ∀ {as : List (Action τ ι κ)} {s s' : State τ ι ο ρ σ} {es : List (Option (Effect τ ι ο κ))},
      s.Settled code → Along (State.step code touch) (Respects code Free) s as →
      Run.exec (State.step code touch) s as = some (es, s') →
      s'.Settled code ∧ History code touch s.settled es.reduceOption s'.settled
  | [], s, s', es, h, _, hrun => by
    obtain ⟨rfl, rfl⟩ : [] = es ∧ s = s' := by simpa [Run.exec] using hrun
    exact ⟨h, rfl⟩
  | _ :: _, s, s', es, h, ⟨hrespects, hrest⟩, hrun => by
    obtain ⟨e, es', t, hstep, hexec, rfl⟩ := exec_cons_eq_some.mp hrun
    obtain ⟨hsettled, heffect⟩ := h.step hcommutes hrespects hstep
    obtain ⟨hlast, hhistory⟩ := hsettled.exec hcommutes (hrest e t hstep) hexec
    cases e with
    | none =>
      have hsame : t.settled = s.settled := heffect
      exact ⟨hlast, by rwa [List.reduceOption_cons_of_none, ← hsame]⟩
    | some f =>
      rw [List.reduceOption_cons_of_some]
      exact ⟨hlast, t.settled, heffect, hhistory⟩

@[simp] theorem pending_moved_self (s : State τ ι ο ρ σ) (t : τ) (phase : Phase ι ο ρ) :
    (s.moved t phase).pending t = phase.pending := by
  rw [pending, moved_phase_self]

theorem pending_moved_of_ne (h : t' ≠ t) : (s.moved t phase).pending t' = s.pending t' := by
  rw [pending, moved_phase_of_ne h, pending]

/-- A thread that stays in its call. -/
theorem pending_moved (h : phase.pending = s.pending t) (t' : τ) :
    (s.moved t phase).pending t' = s.pending t' := by
  by_cases ht : t' = t
  · rw [ht, pending_moved_self, h]
  · exact pending_moved_of_ne ht

/-- **A step calls or returns** one operation of the thread that takes it, or neither. -/
theorem pending_step (hstep : State.step code touch s a = some (e, s')) (t : τ) :
    s.pending t ++ (a.called t).toList =
      (e.bind (Effect.returned t)).toList ++ s'.pending t := by
  cases a with
  | call t' i =>
    obtain ⟨hidle, rfl, rfl⟩ := step_cases hstep
    by_cases ht : t' = t
    · subst ht
      simp [pending, hidle, Action.called, Phase.pending]
    · simp [pending_moved_of_ne (Ne.symm ht), Action.called, ht]
  | lock t' =>
    obtain ⟨i, hwait, -, rfl, rfl⟩ := step_cases hstep
    have hsame : (s.moved t' (.inside i (code.enter t' i))).pending t = s.pending t :=
      pending_moved (by rw [pending, hwait]; rfl) t
    exact (List.append_nil _).trans hsame.symm
  | statement t' =>
    obtain ⟨i, l, r, u, hl, -, rfl, rfl⟩ := step_cases hstep
    have hsame : (s.moved t' (r.elim (.inside i) (.leaving i))).pending t = s.pending t :=
      pending_moved (by rw [pending, hl]; cases r <;> rfl) t
    exact (List.append_nil _).trans hsame.symm
  | unlock t' =>
    obtain ⟨i, o, ho, rfl, rfl⟩ := step_cases hstep
    by_cases ht : t' = t
    · subst ht
      simp [pending, ho, Action.called, Effect.returned, Phase.pending]
    · have hother : (s.moved t' .idle).pending t = s.pending t := pending_moved_of_ne (Ne.symm ht)
      have hnone : (if t' = t then some i else none) = none := if_neg ht
      simp only [Action.called, Effect.returned, Option.bind_some, hnone]
      exact (List.append_nil _).trans hother.symm
  | touch t' k =>
    obtain ⟨-, rfl, rfl⟩ := step_cases hstep
    simp [pending, Action.called, Effect.returned]

/-- A thread is only in an operation that it was in, or that it calls. -/
theorem mem_pending_step (hstep : State.step code touch s a = some (e, s')) {t : τ} {i : ι}
    (h : i ∈ s'.pending t) : i ∈ s.pending t ∨ a = .call t i := by
  have hmem : i ∈ s.pending t ++ (a.called t).toList :=
    pending_step hstep t ▸ List.mem_append_right _ h
  rcases List.mem_append.mp hmem with hbefore | hcalled
  · exact .inl hbefore
  · right
    cases a with
    | call t' i' =>
      by_cases ht : t' = t
      · obtain rfl : i = i' := by simpa [Action.called, ht] using hcalled
        rw [ht]
      · simp [Action.called, ht] at hcalled
    | lock t' | statement t' | unlock t' | touch t' k => simp [Action.called] at hcalled

/-- **No call is lost, doubled or overtaken**: the operations of a thread return in the order it
calls them, all but the one it is in. -/
theorem pending_exec (t : τ) :
    ∀ {as : List (Action τ ι κ)} {s s' : State τ ι ο ρ σ} {es : List (Option (Effect τ ι ο κ))},
      Run.exec (State.step code touch) s as = some (es, s') →
      s.pending t ++ as.filterMap (Action.called t) =
        es.reduceOption.filterMap (Effect.returned t) ++ s'.pending t
  | [], s, s', es, hrun => by
    obtain ⟨rfl, rfl⟩ : [] = es ∧ s = s' := by simpa [Run.exec] using hrun
    exact List.append_nil _
  | a :: as, s, s', es, hrun => by
    obtain ⟨e, es', u, hstep, hexec, rfl⟩ := exec_cons_eq_some.mp hrun
    have hhead := pending_step hstep t
    have htail := pending_exec t hexec
    have hcalled : (a :: as).filterMap (Action.called t) =
        (a.called t).toList ++ as.filterMap (Action.called t) := by
      cases hcall : a.called t <;> simp [hcall]
    have hreturned : (e :: es').reduceOption.filterMap (Effect.returned t) =
        (e.bind (Effect.returned t)).toList ++ es'.reduceOption.filterMap (Effect.returned t) := by
      cases e with
      | none => simp
      | some f => cases hret : f.returned t <;> simp [hret]
    rw [hcalled, hreturned, ← List.append_assoc, hhead, List.append_assoc, htail,
      List.append_assoc]

/-- **No deadlock**: while a call has not returned, a thread in a call can go on, if the code is
defined where its operations are. -/
theorem Settled.progress (h : s.Settled code) (touch : κ → σ → σ)
    (hdefined : ∀ t i l, s.phase t = .inside i l → (code.statement l s.shared).isSome)
    (hbusy : s.phase t ≠ .idle) :
    ∃ t', s.phase t' ≠ .idle ∧ ∃ a : Action τ ι κ,
      a ∈ [.lock t', .statement t', .unlock t'] ∧ (State.step code touch s a).isSome := by
  cases howner : s.owner with
  | some t' =>
    obtain ⟨i, ⟨l, hl⟩ | ⟨o, ho⟩⟩ := h.owner t' howner
    · refine ⟨t', by simp [hl], .statement t', by simp, ?_⟩
      obtain ⟨⟨r, shared⟩, hr⟩ :=
        Option.isSome_iff_exists.mp (hdefined t' i l hl)
      cases r <;> simp [State.step, hl, hr]
    · exact ⟨t', by simp [ho], .unlock t', by simp, by simp [State.step, ho]⟩
  | none =>
    refine ⟨t, hbusy, .lock t, by simp, ?_⟩
    cases hphase : s.phase t with
    | idle => exact absurd hphase hbusy
    | waiting i => simp [State.step, hphase, howner]
    | inside i l => exact nomatch howner.symm.trans (h.inside t i l hphase).1
    | leaving i o => exact nomatch howner.symm.trans (h.leaving t i o hphase).1

end State

end Hologine.Library.Locked
