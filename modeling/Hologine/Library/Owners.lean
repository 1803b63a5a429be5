import Mathlib.Logic.Function.Basic

/-!
# Objects with one owner each

Every thread has a pointer, which may be null, to an object of its own.

* `update_eq_some`: what is in a partial map that was changed.
* `Owned.create`, `Owned.modify`, `Owned.remove`: an object comes, changes or goes with its owner,
  and every other owner keeps its object.
-/

namespace Hologine.Library.Owners

variable {τ α β : Type*}

/-- What a partial map is after a change at one place. -/
theorem update_eq_some [DecidableEq α] {f : α → Option β} {o : Option β} {a a' : α} {b : β} :
    Function.update f a o a' = some b ↔ a' = a ∧ o = some b ∨ a' ≠ a ∧ f a' = some b := by
  by_cases h : a' = a
  · subst h
    simp
  · simp [h]

variable (null : α)

/-- **Each object that there is has one owner**, and each pointer that is not null has an object. -/
structure Owned (pointer : τ → α) (objects : α → Option β) : Prop where
  live : ∀ t, pointer t ≠ null → (objects (pointer t)).isSome
  unique : ∀ t t', pointer t ≠ null → pointer t = pointer t' → t = t'
  owned : ∀ a, (objects a).isSome → a ≠ null ∧ ∃ t, pointer t = a

variable [DecidableEq α]

/-- The object that a thread has. -/
def objectOf (pointer : τ → α) (objects : α → Option β) (t : τ) : Option β :=
  if pointer t = null then none else objects (pointer t)

variable {null} {pointer : τ → α} {objects : α → Option β} {t : τ} {a : α}

theorem objectOf_of_null (h : pointer t = null) : objectOf null pointer objects t = none := if_pos h

theorem objectOf_of_ne (h : pointer t ≠ null) :
    objectOf null pointer objects t = objects (pointer t) := if_neg h

theorem Owned.exists_object (h : Owned null pointer objects) (ht : pointer t ≠ null) :
    ∃ b, objects (pointer t) = some b ∧ objectOf null pointer objects t = some b := by
  obtain ⟨b, hb⟩ := Option.isSome_iff_exists.mp (h.live t ht)
  exact ⟨b, hb, (objectOf_of_ne ht).trans hb⟩

variable [DecidableEq τ]

/-- **An object changes.** -/
theorem Owned.modify (h : Owned null pointer objects) (ht : pointer t ≠ null) (b : β) :
    Owned null pointer (Function.update objects (pointer t) (some b)) ∧
      objectOf null pointer (Function.update objects (pointer t) (some b)) =
        Function.update (objectOf null pointer objects) t (some b) := by
  refine ⟨⟨fun t' ht' => ?_, h.unique, fun a ha => ?_⟩, ?_⟩
  · by_cases heq : pointer t' = pointer t
    · rw [heq, Function.update_self]
      rfl
    · rw [Function.update_of_ne heq]
      exact h.live t' ht'
  · by_cases heq : a = pointer t
    · exact ⟨heq ▸ ht, t, heq.symm⟩
    · rw [Function.update_of_ne heq] at ha
      exact h.owned a ha
  · funext t'
    by_cases heq : t' = t
    · subst heq
      rw [objectOf_of_ne ht, Function.update_self, Function.update_self]
    · rw [Function.update_of_ne heq]
      by_cases ht' : pointer t' = null
      · rw [objectOf_of_null ht', objectOf_of_null ht']
      · have hne : pointer t' ≠ pointer t := fun hp => heq (h.unique t' t ht' hp)
        rw [objectOf_of_ne ht', objectOf_of_ne ht', Function.update_of_ne hne]

/-- **An object comes** to a thread that has none, where there is none. -/
theorem Owned.create (h : Owned null pointer objects) (ht : pointer t = null) (ha : a ≠ null)
    (hfresh : objects a = none) (b : β) :
    Owned null (Function.update pointer t a) (Function.update objects a (some b)) ∧
      objectOf null (Function.update pointer t a) (Function.update objects a (some b)) =
        Function.update (objectOf null pointer objects) t (some b) := by
  have hother (t' : τ) (hp : pointer t' ≠ null) : pointer t' ≠ a := fun heq => by
    have hlive := h.live t' hp
    rw [heq, hfresh] at hlive
    exact nomatch hlive
  refine ⟨⟨fun t' hp => ?_, fun t₁ t₂ hp heq => ?_, fun a' ha' => ?_⟩, ?_⟩
  · by_cases heq : t' = t
    · rw [heq, Function.update_self, Function.update_self]
      rfl
    · rw [Function.update_of_ne heq] at hp ⊢
      rw [Function.update_of_ne (hother t' hp)]
      exact h.live t' hp
  · by_cases h₁ : t₁ = t
    · subst h₁
      by_cases h₂ : t₂ = t₁
      · exact h₂.symm
      · rw [Function.update_self, Function.update_of_ne h₂] at heq
        exact absurd heq.symm (hother t₂ (heq ▸ ha))
    · rw [Function.update_of_ne h₁] at hp heq
      by_cases h₂ : t₂ = t
      · rw [h₂, Function.update_self] at heq
        exact absurd heq (hother t₁ hp)
      · rw [Function.update_of_ne h₂] at heq
        exact h.unique t₁ t₂ hp heq
  · by_cases heq : a' = a
    · exact ⟨heq ▸ ha, t, by rw [heq, Function.update_self]⟩
    · rw [Function.update_of_ne heq] at ha'
      obtain ⟨hne, t', ht'⟩ := h.owned a' ha'
      have hne' : t' ≠ t := fun hsame => hne (ht'.symm.trans (hsame ▸ ht))
      exact ⟨hne, t', by rw [Function.update_of_ne hne', ht']⟩
  · funext t'
    by_cases heq : t' = t
    · subst heq
      rw [objectOf_of_ne (by rwa [Function.update_self]), Function.update_self,
        Function.update_self, Function.update_self]
    · rw [Function.update_of_ne heq]
      by_cases ht' : pointer t' = null
      · rw [objectOf_of_null (by rwa [Function.update_of_ne heq]), objectOf_of_null ht']
      · rw [objectOf_of_ne (by rwa [Function.update_of_ne heq]), objectOf_of_ne ht',
          Function.update_of_ne heq, Function.update_of_ne (hother t' ht')]

/-- **An object goes.** -/
theorem Owned.remove (h : Owned null pointer objects) (ht : pointer t ≠ null) :
    Owned null (Function.update pointer t null) (Function.update objects (pointer t) none) ∧
      objectOf null (Function.update pointer t null) (Function.update objects (pointer t) none) =
        Function.update (objectOf null pointer objects) t none := by
  have hother (t' : τ) (heq : t' ≠ t) (hp : pointer t' ≠ null) : pointer t' ≠ pointer t :=
    fun hsame => heq (h.unique t' t hp hsame)
  refine ⟨⟨fun t' hp => ?_, fun t₁ t₂ hp heq => ?_, fun a ha => ?_⟩, ?_⟩
  · have heq : t' ≠ t := fun heq => hp (by rw [heq, Function.update_self])
    rw [Function.update_of_ne heq] at hp ⊢
    rw [Function.update_of_ne (hother t' heq hp)]
    exact h.live t' hp
  · have h₁ : t₁ ≠ t := fun h₁ => hp (by rw [h₁, Function.update_self])
    have h₂ : t₂ ≠ t := fun h₂ => hp (by rw [heq, h₂, Function.update_self])
    rw [Function.update_of_ne h₁] at hp heq
    rw [Function.update_of_ne h₂] at heq
    exact h.unique t₁ t₂ hp heq
  · have hne : a ≠ pointer t := fun heq => by
      rw [heq, Function.update_self] at ha
      exact nomatch ha
    rw [Function.update_of_ne hne] at ha
    obtain ⟨hnull, t', ht'⟩ := h.owned a ha
    have hne' : t' ≠ t := fun heq => hne (ht'.symm.trans (congrArg pointer heq))
    exact ⟨hnull, t', by rw [Function.update_of_ne hne', ht']⟩
  · funext t'
    by_cases heq : t' = t
    · subst heq
      rw [objectOf_of_null (by rw [Function.update_self]), Function.update_self]
    · rw [Function.update_of_ne heq]
      by_cases ht' : pointer t' = null
      · rw [objectOf_of_null (by rwa [Function.update_of_ne heq]), objectOf_of_null ht']
      · rw [objectOf_of_ne (by rwa [Function.update_of_ne heq]), objectOf_of_ne ht',
          Function.update_of_ne heq, Function.update_of_ne (hother t' heq ht')]

end Hologine.Library.Owners
