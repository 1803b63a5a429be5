import Hologine.Library.Run
import Mathlib.Logic.Function.Basic

/-!
# Machines side by side

Each thread has a machine of its own, and an operation is one of a thread (`interleaved`).

* `exec_interleaved`: **what a thread gets in an interleaving is what it gets alone**.
* `isSome_exec_interleaved`: and the interleaving is defined just when each thread is, alone.
-/

namespace Hologine.Library.Threads

open Hologine.Library.Run

variable {τ σ ι ο α : Type*} [DecidableEq τ]

/-- A step of the machine of one thread. -/
def interleaved (step : σ → ι → Option (ο × σ)) (s : τ → σ) (op : τ × ι) :
    Option ((τ × ο) × (τ → σ)) :=
  (step (s op.1) op.2).map fun r => ((op.1, r.1), Function.update s op.1 r.2)

/-- What is a thread's own. -/
def own (t : τ) (x : τ × α) : Option α := if x.1 = t then some x.2 else none

variable {step : σ → ι → Option (ο × σ)} {s s' : τ → σ} {t t' : τ}

@[simp] theorem own_self (t : τ) (x : α) : own t (t, x) = some x := if_pos rfl

theorem own_of_ne (h : t' ≠ t) (x : α) : own t (t', x) = none := if_neg h

theorem filterMap_own_self (x : α) (xs : List (τ × α)) :
    ((t, x) :: xs).filterMap (own t) = x :: xs.filterMap (own t) :=
  List.filterMap_cons_some (own_self t x)

theorem filterMap_own_of_ne (h : t' ≠ t) (x : α) (xs : List (τ × α)) :
    ((t', x) :: xs).filterMap (own t) = xs.filterMap (own t) :=
  List.filterMap_cons_none (own_of_ne h x)

theorem interleaved_eq_some {i : ι} {o : τ × ο} :
    interleaved step s (t, i) = some (o, s') ↔
      ∃ r u, step (s t) i = some (r, u) ∧ o = (t, r) ∧ s' = Function.update s t u := by
  constructor
  · intro h
    obtain ⟨⟨r, u⟩, hstep, heq⟩ := Option.map_eq_some_iff.mp h
    obtain ⟨rfl, rfl⟩ := Prod.mk.inj heq
    exact ⟨r, u, hstep, rfl, rfl⟩
  · rintro ⟨r, u, hstep, rfl, rfl⟩
    rw [interleaved, hstep, Option.map_some]

/-- **A thread gets what it gets alone.** -/
theorem exec_interleaved (t : τ) :
    ∀ {ops : List (τ × ι)} {s s' : τ → σ} {os : List (τ × ο)},
      exec (interleaved step) s ops = some (os, s') →
        exec step (s t) (ops.filterMap (own t)) = some (os.filterMap (own t), s' t)
  | [], s, s', os, hrun => by
    obtain ⟨rfl, rfl⟩ : [] = os ∧ s = s' := by simpa [exec] using hrun
    rfl
  | (t', i) :: ops, s, s', os, hrun => by
    obtain ⟨o, os', u, hstep, hexec, rfl⟩ := exec_cons_eq_some.mp hrun
    obtain ⟨r, v, hr, rfl, rfl⟩ := interleaved_eq_some.mp hstep
    have htail := exec_interleaved t hexec
    by_cases ht : t' = t
    · subst ht
      rw [Function.update_self] at htail
      rw [filterMap_own_self, filterMap_own_self]
      exact exec_cons_eq_some.mpr ⟨r, _, v, hr, htail, rfl⟩
    · rw [Function.update_of_ne (Ne.symm ht)] at htail
      rw [filterMap_own_of_ne ht, filterMap_own_of_ne ht]
      exact htail

/-- **An interleaving is defined just when every thread is, alone.** -/
theorem isSome_exec_interleaved :
    ∀ {ops : List (τ × ι)} {s : τ → σ},
      (exec (interleaved step) s ops).isSome ↔
        ∀ t, (exec step (s t) (ops.filterMap (own t))).isSome
  | [], s => iff_of_true rfl fun _ => rfl
  | (t, i) :: ops, s => by
    cases hstep : step (s t) i with
    | none =>
      have hall : exec (interleaved step) s ((t, i) :: ops) = none := by
        rw [exec, interleaved, hstep]
        rfl
      have hown : exec step (s t) (((t, i) :: ops).filterMap (own t)) = none := by
        rw [filterMap_own_self, exec, hstep]
        rfl
      rw [hall]
      refine iff_of_false (by simp) fun h => ?_
      have hsome := h t
      rw [hown] at hsome
      cases hsome
    | some r =>
      obtain ⟨o, u⟩ := r
      have hall := interleaved_eq_some.mpr ⟨o, u, hstep, rfl, rfl⟩
      rw [exec_cons hall, Option.isSome_map, isSome_exec_interleaved]
      refine forall_congr' fun t' => ?_
      by_cases ht : t = t'
      · subst ht
        rw [Function.update_self, filterMap_own_self, exec_cons hstep, Option.isSome_map]
      · rw [Function.update_of_ne (Ne.symm ht), filterMap_own_of_ne ht]

end Hologine.Library.Threads
