import Mathlib.Data.List.Basic
import Mathlib.Data.List.Nodup
import Mathlib.Logic.Function.Basic

/-!
# Doubly linked lists

Nodes of any type with links both ways, which may be fields of them. `Path next l e` says that the
links of the nodes of `l` lead each to the one after it, and the last to `e`; `Linked` is that in
both directions, to null.

* `Path.append_iff`: the links of a concatenation are those of its parts.
* `Path.relink`: what the last node of a path leads to is assigned.
* `Linked.insert`, `Linked.remove`: a node is linked in between two parts of a list, and taken out
  from between them.
* `Linked.next_eq_some_iff`: one node is the next of another iff that is its previous one.
-/

namespace Hologine.Library

variable {α : Type*}

/-- The link of a node is assigned, if there is one. -/
def setLink [DecidableEq α] (link : α → Option α) (a : Option α) (b : Option α) : α → Option α :=
  match a with
  | some a => Function.update link a b
  | none => link

theorem setLink_of_ne [DecidableEq α] {link : α → Option α} {a : Option α} {b : α}
    (h : a ≠ some b) (c : Option α) : setLink link a c b = link b := by
  cases a with
  | none => rfl
  | some a => exact Function.update_of_ne (fun heq => h (congrArg some heq.symm)) _ _

@[simp] theorem setLink_self [DecidableEq α] (link : α → Option α) (a : α) (b : Option α) :
    setLink link (some a) b a = b := Function.update_self _ _ _

/-- The links of the nodes lead each to the one after it, and the last to `e`. -/
def Path (next : α → Option α) : List α → Option α → Prop
  | [], _ => True
  | a :: l, e => next a = l.head?.or e ∧ Path next l e

namespace Path

variable {next next' : α → Option α} {l before after : List α} {a : α} {e e' : Option α}

theorem append_iff : Path next (before ++ after) e ↔
    Path next before (after.head?.or e) ∧ Path next after e := by
  induction before with
  | nil => simp [Path]
  | cons a before ih => simp [Path, ih, and_assoc, Option.or_assoc]

/-- Links that agree on the nodes of a path have that path. -/
theorem congr (h : Path next l e) (hnext : ∀ a ∈ l, next' a = next a) : Path next' l e := by
  induction l with
  | nil => trivial
  | cons a l ih =>
    refine ⟨(hnext a List.mem_cons_self).trans h.1, ih h.2 fun b hb => ?_⟩
    exact hnext b (List.mem_cons_of_mem _ hb)

/-- **What the last node of a path leads to is assigned.** -/
theorem relink [DecidableEq α] (h : Path next l e) (hl : l.Nodup) (e' : Option α) :
    Path (setLink next l.getLast? e') l e' := by
  rcases List.eq_nil_or_concat l with rfl | ⟨l, a, rfl⟩
  · trivial
  rw [List.concat_eq_append] at *
  have ha : a ∉ l := fun hmem => (List.nodup_append.mp hl).2.2 a hmem a (by simp) rfl
  rw [append_iff] at h ⊢
  rw [List.getLast?_concat]
  refine ⟨h.1.congr fun b hb => setLink_of_ne ?_ _, ?_, trivial⟩
  · rintro ⟨rfl⟩
    exact ha hb
  · simp

end Path

/-- **A doubly linked list**: the links lead through the nodes in order and, the other way, in
reverse. -/
structure Linked (next previous : α → Option α) (l : List α) : Prop where
  forward : Path next l none
  backward : Path previous l.reverse none
  nodup : l.Nodup

namespace Linked

variable {next previous next' previous' : α → Option α} {l before after : List α} {a b : α}

theorem reverse (h : Linked next previous l) : Linked previous next l.reverse :=
  ⟨h.backward, by rw [List.reverse_reverse]; exact h.forward, List.nodup_reverse.mpr h.nodup⟩

/-- Links that agree on the nodes of a list have that list. -/
theorem congr (h : Linked next previous l) (hnext : ∀ a ∈ l, next' a = next a)
    (hprevious : ∀ a ∈ l, previous' a = previous a) : Linked next' previous' l :=
  ⟨h.forward.congr hnext, h.backward.congr fun a ha => hprevious a (List.mem_reverse.mp ha),
    h.nodup⟩

/-- The node after another. -/
theorem next_eq (h : Linked next previous (before ++ a :: after)) : next a = after.head? := by
  have hpath := (Path.append_iff.mp h.forward).2.1
  rwa [Option.or_none] at hpath

/-- The node before another. -/
theorem previous_eq (h : Linked next previous (before ++ a :: after)) :
    previous a = before.getLast? := by
  have hreverse := h.reverse
  rw [List.reverse_append, List.reverse_cons, List.append_assoc, List.singleton_append] at hreverse
  rw [hreverse.next_eq, List.head?_reverse]

/-- **One node is the next of another iff that is its previous one.** -/
theorem next_eq_some_iff (h : Linked next previous l) (ha : a ∈ l) (hb : b ∈ l) :
    next a = some b ↔ previous b = some a := by
  have hforward : ∀ {next previous : α → Option α} {l : List α} {a b : α},
      Linked next previous l → a ∈ l → next a = some b → previous b = some a := by
    intro next previous l a b h ha hab
    obtain ⟨before, after, rfl⟩ := List.append_of_mem ha
    rw [h.next_eq] at hab
    obtain ⟨after', rfl⟩ : ∃ after', after = b :: after' := by
      cases after with
      | nil => exact nomatch hab
      | cons c after =>
        obtain rfl : c = b := Option.some.inj hab
        exact ⟨after, rfl⟩
    have h' : Linked next previous ((before ++ [a]) ++ b :: after') := by simpa using h
    rw [h'.previous_eq]
    simp
  exact ⟨hforward h ha, hforward h.reverse (List.mem_reverse.mpr hb)⟩

variable [DecidableEq α]

/-- The forward links of a node that is linked in. -/
theorem path_insert (h : Path next (before ++ after) none) (hnodup : (before ++ after).Nodup)
    (ha : a ∉ before ++ after) :
    Path (Function.update (setLink next before.getLast? (some a)) a after.head?)
      (before ++ a :: after) none := by
  obtain ⟨hbefore, hafter⟩ := Path.append_iff.mp h
  obtain ⟨hnodupBefore, -, hdisjoint⟩ := List.nodup_append.mp hnodup
  rw [List.mem_append, not_or] at ha
  refine Path.append_iff.mpr ⟨?_, ?_, ?_⟩
  · refine (hbefore.relink hnodupBefore (some a)).congr fun b hb => Function.update_of_ne ?_ _ _
    rintro rfl
    exact ha.1 hb
  · rw [Function.update_self, Option.or_none]
  · refine hafter.congr fun b hb => ?_
    have hne : b ≠ a := by
      rintro rfl
      exact ha.2 hb
    rw [Function.update_of_ne hne]
    refine setLink_of_ne (fun hlast => ?_) _
    exact hdisjoint b (List.mem_of_getLast? hlast) b hb rfl

/-- The forward links of a node that is taken out. -/
theorem path_remove (h : Path next (before ++ a :: after) none)
    (hnodup : (before ++ a :: after).Nodup) :
    Path (setLink next before.getLast? after.head?) (before ++ after) none := by
  obtain ⟨hbefore, -, hafter⟩ := Path.append_iff.mp h
  obtain ⟨hnodupBefore, -, hdisjoint⟩ := List.nodup_append.mp hnodup
  refine Path.append_iff.mpr ⟨?_, ?_⟩
  · rw [Option.or_none]
    exact hbefore.relink hnodupBefore after.head?
  · refine hafter.congr fun b hb => ?_
    refine setLink_of_ne (fun hlast => ?_) _
    exact hdisjoint b (List.mem_of_getLast? hlast) b (List.mem_cons_of_mem _ hb) rfl

/-- **A node is linked in** between two parts of a list. -/
theorem insert (h : Linked next previous (before ++ after)) (ha : a ∉ before ++ after) :
    Linked (Function.update (setLink next before.getLast? (some a)) a after.head?)
      (Function.update (setLink previous after.head? (some a)) a before.getLast?)
      (before ++ a :: after) := by
  refine ⟨path_insert h.forward h.nodup ha, ?_, ?_⟩
  · have hreverse := h.reverse
    rw [List.reverse_append] at hreverse
    have hpath := path_insert (a := a) hreverse.forward hreverse.nodup
      (by simpa [or_comm] using ha)
    simpa using hpath
  · rw [List.nodup_middle]
    exact List.nodup_cons.mpr ⟨ha, h.nodup⟩

/-- **A node is taken out** from between two parts of a list. -/
theorem remove (h : Linked next previous (before ++ a :: after)) :
    Linked (setLink next before.getLast? after.head?)
      (setLink previous after.head? before.getLast?) (before ++ after) := by
  refine ⟨path_remove h.forward h.nodup, ?_, (List.nodup_middle.mp h.nodup).of_cons⟩
  have hreverse := h.reverse
  rw [List.reverse_append, List.reverse_cons, List.append_assoc, List.singleton_append] at hreverse
  have hpath := path_remove hreverse.forward hreverse.nodup
  simpa using hpath

end Linked

end Hologine.Library
