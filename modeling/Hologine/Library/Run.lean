import Mathlib.Data.Option.Basic

/-!
# Runs of a machine

A machine takes an operation in a state and answers with an output and the next state, or with
`none` where the behaviour of the program it models is not defined.

* `exec` runs a list of operations; `Along` states a property of every operation of a run, of the
  state it is issued in.
* `Along.of_invariant` and `along_congr` are the two induction rules: an invariant gives a property
  of every run, and makes two properties of runs equivalent when they are so step by step.
  `Along.of_defined` is the first where every legal operation is defined.
* `exec_invariant`, `exec_of_defined`: the same for the state a run ends in.
* `along_iff_reached`: a property holds along a run iff it holds in every state the run reaches.
* `refines_of_step` is the rule of refinement by a machine that answers alike. `refines_recorded` is
  the same for one whose operations say what was met in the run (`recorded`).
* `Steps` are the runs of a nondeterministic specification and `simulates` is the rule of forward
  simulation into it.
-/

namespace Hologine.Library.Run

variable {σ ι ο α : Type*}

/-- The operations in order: their outputs and the last state. -/
def exec (step : σ → ι → Option (ο × σ)) : σ → List ι → Option (List ο × σ)
  | s, [] => some ([], s)
  | s, i :: is => (step s i).bind fun (o, s') => (exec step s' is).map fun (os, t) => (o :: os, t)

/-- `P` holds of every operation of the run and the state it is issued in. A run ends where its
behaviour is not defined. -/
def Along (step : σ → ι → Option (ο × σ)) (P : σ → ι → Prop) : σ → List ι → Prop
  | _, [] => True
  | s, i :: is => P s i ∧ ∀ o s', step s i = some (o, s') → Along step P s' is

variable {step : σ → ι → Option (ο × σ)} {P Q : σ → ι → Prop} {s : σ}

/-- Along a run, a property that can be decided of each operation can be. -/
instance decidableAlong [∀ s i, Decidable (P s i)] :
    ∀ (is : List ι) (s : σ), Decidable (Along step P s is)
  | [], _ => isTrue trivial
  | i :: is, s =>
    match h : step s i with
    | none => decidable_of_iff (P s i)
        ⟨fun hP => ⟨hP, fun _ _ hs => absurd (h.symm.trans hs) (by simp)⟩, And.left⟩
    | some (o, s') =>
      have := decidableAlong is s'
      decidable_of_iff (P s i ∧ Along step P s' is)
        ⟨fun hP => ⟨hP.1, fun _ _ hs => by
            obtain ⟨-, rfl⟩ := Prod.mk.inj (Option.some.inj (h.symm.trans hs))
            exact hP.2⟩,
          fun hP => ⟨hP.1, hP.2 o s' h⟩⟩

theorem exec_cons {i : ι} {is : List ι} {o : ο} {s' : σ} (h : step s i = some (o, s')) :
    exec step s (i :: is) = (exec step s' is).map fun r => (o :: r.1, r.2) := by
  rw [exec, h, Option.bind_some]

/-- A run that is defined takes its first operation and then the others. -/
theorem exec_cons_eq_some {i : ι} {is : List ι} {os : List ο} {s'' : σ} :
    exec step s (i :: is) = some (os, s'') ↔
      ∃ o os' s', step s i = some (o, s') ∧ exec step s' is = some (os', s'') ∧ os = o :: os' := by
  constructor
  · intro h
    cases hi : step s i with
    | none => simp [exec, hi] at h
    | some r =>
      obtain ⟨o, s'⟩ := r
      rw [exec_cons hi, Option.map_eq_some_iff] at h
      obtain ⟨⟨os', t⟩, hrest, heq⟩ := h
      obtain ⟨rfl, rfl⟩ := Prod.mk.inj heq
      exact ⟨o, os', s', rfl, hrest, rfl⟩
  · rintro ⟨o, os', s', hi, hrest, rfl⟩
    rw [exec_cons hi, hrest, Option.map_some]

theorem exec_cons_eq_cons {i : ι} {is : List ι} {o : ο} {os : List ο} {s'' : σ} :
    exec step s (i :: is) = some (o :: os, s'') ↔
      ∃ s', step s i = some (o, s') ∧ exec step s' is = some (os, s'') := by
  rw [exec_cons_eq_some]
  constructor
  · rintro ⟨o', os', s', hi, hrest, heq⟩
    obtain ⟨rfl, rfl⟩ := List.cons.inj heq
    exact ⟨s', hi, hrest⟩
  · rintro ⟨s', hi, hrest⟩
    exact ⟨o, os, s', hi, hrest, rfl⟩

theorem exec_nil_eq_nil {s' : σ} : exec step s [] = some ([], s') ↔ s = s' := by simp [exec]

/-- A property of a run whose first operation is defined. -/
theorem along_cons {i : ι} {is : List ι} {o : ο} {s' : σ} (h : step s i = some (o, s')) :
    Along step P s (i :: is) ↔ P s i ∧ Along step P s' is := by
  rw [Along]
  refine and_congr_right fun _ => ⟨fun hrest => hrest o s' h, fun hrest o' t ht => ?_⟩
  obtain ⟨-, rfl⟩ := Prod.mk.inj (Option.some.inj (h.symm.trans ht))
  exact hrest

theorem Along.mono (hPQ : ∀ s i, P s i → Q s i) :
    ∀ {is : List ι} {s : σ}, Along step P s is → Along step Q s is
  | [], _, _ => trivial
  | _ :: _, _, ⟨h, hrest⟩ => ⟨hPQ _ _ h, fun o s' hs => Along.mono hPQ (hrest o s' hs)⟩

theorem Along.and : ∀ {is : List ι} {s : σ}, Along step P s is → Along step Q s is →
    Along step (fun s i => P s i ∧ Q s i) s is
  | [], _, _, _ => trivial
  | _ :: _, _, ⟨hP, hrest⟩, ⟨hQ, hrest'⟩ =>
    ⟨⟨hP, hQ⟩, fun o s' hs => (hrest o s' hs).and (hrest' o s' hs)⟩

/-- A property of the operations, whatever the states. -/
theorem Along.of_forall_mem : ∀ {is : List ι} {s : σ}, (∀ i ∈ is, ∀ s, P s i) → Along step P s is
  | [], _, _ => trivial
  | i :: _, _, h =>
    ⟨h i List.mem_cons_self _, fun _ _ _ =>
      Along.of_forall_mem fun j hj => h j (List.mem_cons_of_mem _ hj)⟩

/-- **An invariant gives a property of every run.** -/
theorem Along.of_invariant (Inv : σ → Prop) (hP : ∀ s i, Inv s → P s i)
    (hInv : ∀ s i o s', Inv s → step s i = some (o, s') → Inv s') :
    ∀ {is : List ι} {s : σ}, Inv s → Along step P s is
  | [], _, _ => trivial
  | _ :: _, _, h =>
    ⟨hP _ _ h, fun o s' hs => Along.of_invariant Inv hP hInv (hInv _ _ o s' h hs)⟩

/-- The same, for runs all of whose operations are legal. -/
theorem Along.of_legal (Inv : σ → Prop) {Legal : σ → ι → Prop}
    (hP : ∀ s i, Inv s → Legal s i → P s i)
    (hInv : ∀ s i o s', Inv s → Legal s i → step s i = some (o, s') → Inv s') :
    ∀ {is : List ι} {s : σ}, Inv s → Along step Legal s is → Along step P s is
  | [], _, _, _ => trivial
  | _ :: _, _, h, ⟨hlegal, hrest⟩ =>
    ⟨hP _ _ h hlegal, fun o s' hs =>
      Along.of_legal Inv hP hInv (hInv _ _ o s' h hlegal hs) (hrest o s' hs)⟩

/-- **The same, where every legal operation is defined**: one statement about an operation says what
it keeps and what holds of it. -/
theorem Along.of_defined (Inv : σ → Prop) {Legal : σ → ι → Prop}
    (h : ∀ s i, Inv s → Legal s i → ∃ o s', step s i = some (o, s') ∧ Inv s' ∧ P s i)
    {is : List ι} {s : σ} (hinv : Inv s) (hlegal : Along step Legal s is) : Along step P s is := by
  refine Along.of_legal Inv (fun s i hinv hlegal => ?_) (fun s i o s' hinv hlegal hstep => ?_)
    hinv hlegal
  · obtain ⟨o, s', -, -, hP⟩ := h s i hinv hlegal
    exact hP
  · obtain ⟨o', s'', hstep', hinv', -⟩ := h s i hinv hlegal
    obtain ⟨-, rfl⟩ := Prod.mk.inj (Option.some.inj (hstep'.symm.trans hstep))
    exact hinv'

/-- **An invariant of legal operations holds of the state a legal run ends in.** -/
theorem exec_invariant (Inv : σ → Prop) {Legal : σ → ι → Prop}
    (hInv : ∀ s i o s', Inv s → Legal s i → step s i = some (o, s') → Inv s') :
    ∀ {is : List ι} {s : σ} {os : List ο} {s' : σ}, Inv s → Along step Legal s is →
      exec step s is = some (os, s') → Inv s'
  | [], s, os, s', h, _, hrun => by
    obtain ⟨rfl, rfl⟩ : [] = os ∧ s = s' := by simpa [exec] using hrun
    exact h
  | _ :: _, _, _, _, h, ⟨hlegal, hrest⟩, hrun => by
    obtain ⟨o, os', t, hstep, hexec, rfl⟩ := exec_cons_eq_some.mp hrun
    exact exec_invariant Inv hInv (hInv _ _ o t h hlegal hstep) (hrest o t hstep) hexec

/-- **Runs of legal operations that are defined are defined**, and keep the invariant. -/
theorem exec_of_defined (Inv : σ → Prop) {Legal : σ → ι → Prop}
    (h : ∀ s i, Inv s → Legal s i → ∃ o s', step s i = some (o, s') ∧ Inv s') :
    ∀ {is : List ι} {s : σ}, Inv s → Along step Legal s is →
      ∃ os s', exec step s is = some (os, s') ∧ Inv s'
  | [], s, hinv, _ => ⟨[], s, rfl, hinv⟩
  | i :: _, s, hinv, ⟨hlegal, hrest⟩ => by
    obtain ⟨o, t, hstep, hinv'⟩ := h s i hinv hlegal
    obtain ⟨os, s', hexec, hlast⟩ := exec_of_defined Inv h hinv' (hrest o t hstep)
    exact ⟨o :: os, s', exec_cons_eq_some.mpr ⟨o, os, t, hstep, hexec, rfl⟩, hlast⟩

/-- **Two properties that agree step by step, while an invariant lasts, agree on runs.** The
invariant need only last while the second property holds. -/
theorem along_congr (Inv : σ → Prop) {Legal : σ → ι → Prop}
    (hPQ : ∀ s i, Inv s → Legal s i → (P s i ↔ Q s i))
    (hInv : ∀ s i o s', Inv s → Legal s i → Q s i → step s i = some (o, s') → Inv s') :
    ∀ {is : List ι} {s : σ}, Inv s → Along step Legal s is →
      (Along step P s is ↔ Along step Q s is)
  | [], _, _, _ => Iff.rfl
  | i :: is, s, h, ⟨hlegal, hrest⟩ => by
    rw [Along, Along, hPQ s i h hlegal]
    refine and_congr_right fun hQ => ?_
    refine forall_congr' fun o => forall_congr' fun s' => forall_congr' fun hs => ?_
    exact along_congr Inv hPQ hInv (hInv s i o s' h hlegal hQ hs) (hrest o s' hs)

/-- **A property holds along a run iff it holds in every state the run reaches**, of the operation
issued there. -/
theorem along_iff_reached {is : List ι} : Along step P s is ↔
    ∀ before i after, is = before ++ i :: after →
      ∀ os s', exec step s before = some (os, s') → P s' i := by
  induction is generalizing s with
  | nil => simp [Along]
  | cons j js ih =>
    constructor
    · rintro ⟨hj, hrest⟩ before i after heq os s' hrun
      cases before with
      | nil =>
        obtain ⟨rfl, rfl⟩ := List.cons.inj heq
        obtain ⟨rfl, rfl⟩ : [] = os ∧ s = s' := by simpa [exec] using hrun
        exact hj
      | cons k before =>
        obtain ⟨rfl, rfl⟩ := List.cons.inj heq
        obtain ⟨o, os', t, hstep, hexec, rfl⟩ := exec_cons_eq_some.mp hrun
        exact ih.mp (hrest o t hstep) before i after rfl os' s' hexec
    · intro h
      refine ⟨h [] j js rfl [] s rfl, fun o s' hs => ih.mpr ?_⟩
      intro before i after heq os t hrun
      exact h (j :: before) i after (by rw [heq, List.cons_append]) (o :: os) t
        (exec_cons_eq_some.mpr ⟨o, os, s', hs, hrun, rfl⟩)

/-- A run whose every operation is defined is defined. -/
theorem exec_isSome : ∀ {is : List ι} {s : σ},
    Along step (fun s i => (step s i).isSome) s is → (exec step s is).isSome
  | [], _, _ => rfl
  | i :: is, s, ⟨h, hrest⟩ => by
    obtain ⟨⟨o, s'⟩, hi⟩ := Option.isSome_iff_exists.mp h
    rw [exec_cons hi, Option.isSome_map]
    exact exec_isSome (hrest o s' hi)

/-- The runs of a specification that relates a state, an operation, an output and the next
state. -/
inductive Steps (spec : α → ι → ο → α → Prop) : α → List ι → List ο → α → Prop
  | nil (a : α) : Steps spec a [] [] a
  | cons {a a' a'' : α} {i : ι} {is : List ι} {o : ο} {os : List ο} :
      spec a i o a' → Steps spec a' is os a'' → Steps spec a (i :: is) (o :: os) a''

/-- **Refinement**: machines that answer alike, step by step while their states are related, answer
alike in every run of legal operations, and one is defined where the other is. -/
theorem refines_of_step {step' : α → ι → Option (ο × α)} {R : σ → α → Prop} {Legal : σ → ι → Prop}
    (h : ∀ s a i, R s a → Legal s i →
      (step s i = none ∧ step' a i = none) ∨
        ∃ o s' a', step s i = some (o, s') ∧ step' a i = some (o, a') ∧ R s' a') :
    ∀ {is : List ι} {s : σ} {a : α}, R s a → Along step Legal s is →
      (exec step s is = none ∧ exec step' a is = none) ∨
        ∃ os s' a', exec step s is = some (os, s') ∧ exec step' a is = some (os, a') ∧ R s' a'
  | [], s, a, hR, _ => .inr ⟨[], s, a, rfl, rfl, hR⟩
  | i :: is, s, a, hR, ⟨hlegal, hrest⟩ => by
    rcases h s a i hR hlegal with ⟨hnone, hnone'⟩ | ⟨o, s', a', hs, ha, hR'⟩
    · exact .inl ⟨by rw [exec, hnone]; rfl, by rw [exec, hnone']; rfl⟩
    rcases refines_of_step h hR' (hrest o s' hs) with
      ⟨hnone, hnone'⟩ | ⟨os, s'', a'', hrun, hrun', hR''⟩
    · exact .inl ⟨by rw [exec_cons hs, hnone]; rfl, by rw [exec_cons ha, hnone']; rfl⟩
    · exact .inr ⟨o :: os, s'', a'', exec_cons_eq_some.mpr ⟨o, os, s', hs, hrun, rfl⟩,
        exec_cons_eq_some.mpr ⟨o, os, a', ha, hrun', rfl⟩, hR''⟩

/-- The operations of a run, each as `f` records it of the state it is issued in. -/
def recorded {κ : Type*} (step : σ → ι → Option (ο × σ)) (f : σ → ι → κ) : σ → List ι → List κ
  | _, [] => []
  | s, i :: is => f s i :: ((step s i).map fun r => recorded step f r.2 is).getD []

/-- **Refinement of what was recorded.** -/
theorem refines_recorded {κ : Type*} {step' : α → κ → Option (ο × α)} {f : σ → ι → κ}
    {R : σ → α → Prop} {Legal : σ → ι → Prop}
    (h : ∀ s a i, R s a → Legal s i →
      (step s i = none ∧ step' a (f s i) = none) ∨
        ∃ o s' a', step s i = some (o, s') ∧ step' a (f s i) = some (o, a') ∧ R s' a') :
    ∀ {is : List ι} {s : σ} {a : α}, R s a → Along step Legal s is →
      (exec step s is = none ∧ exec step' a (recorded step f s is) = none) ∨
        ∃ os s' a', exec step s is = some (os, s') ∧
          exec step' a (recorded step f s is) = some (os, a') ∧ R s' a'
  | [], s, a, hR, _ => .inr ⟨[], s, a, rfl, rfl, hR⟩
  | i :: is, s, a, hR, ⟨hlegal, hrest⟩ => by
    rcases h s a i hR hlegal with ⟨hnone, hnone'⟩ | ⟨o, s', a', hs, ha, hR'⟩
    · exact .inl ⟨by rw [exec, hnone]; rfl, by rw [recorded, exec, hnone']; rfl⟩
    have hrecorded : recorded step f s (i :: is) = f s i :: recorded step f s' is := by
      rw [recorded, hs, Option.map_some, Option.getD_some]
    rw [hrecorded]
    rcases refines_recorded h hR' (hrest o s' hs) with
      ⟨hnone, hnone'⟩ | ⟨os, s'', a'', hrun, hrun', hR''⟩
    · exact .inl ⟨by rw [exec_cons hs, hnone]; rfl, by rw [exec_cons ha, hnone']; rfl⟩
    · exact .inr ⟨o :: os, s'', a'', exec_cons_eq_some.mpr ⟨o, os, s', hs, hrun, rfl⟩,
        exec_cons_eq_some.mpr ⟨o, os, a', ha, hrun', rfl⟩, hR''⟩

/-- **Forward simulation**: a machine whose every step is defined and allowed by a specification
runs without end of definedness, and as the specification allows. -/
theorem simulates {spec : α → ι → ο → α → Prop} {R : σ → α → Prop}
    (h : ∀ s a i, R s a → ∃ o s' a', step s i = some (o, s') ∧ spec a i o a' ∧ R s' a') :
    ∀ (is : List ι) {s : σ} {a : α}, R s a →
      ∃ os s' a', exec step s is = some (os, s') ∧ Steps spec a is os a' ∧ R s' a'
  | [], s, a, hR => ⟨[], s, a, rfl, .nil a, hR⟩
  | i :: is, s, a, hR => by
    obtain ⟨o, s', a', hs, hspec, hR'⟩ := h s a i hR
    obtain ⟨os, s'', a'', hrun, hsteps, hR''⟩ := simulates h is hR'
    exact ⟨o :: os, s'', a'', exec_cons_eq_some.mpr ⟨o, os, s', hs, hrun, rfl⟩,
      .cons hspec hsteps, hR''⟩

end Hologine.Library.Run
