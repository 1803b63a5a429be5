import Mathlib.Data.Option.Basic

/-!
# Intrusive lists

Model of `intrusive_list::remove`, `intrusive_list::unlink`, `intrusive_list::insert_before` and
`intrusive_list::insert_after` (`core/container/intrusive_list.hpp:141-251`), for nodes of any type.
`Links` is how the links of a node are read and assigned; either may have no defined behaviour,
which is `none`.
-/

namespace Hologine.Container

/-- The links of nodes `ν` that are kept in a state `σ`. -/
structure Links (σ ν : Type) where
  next : σ → ν → Option (Option ν)
  previous : σ → ν → Option (Option ν)
  setNext : ν → Option ν → σ → Option σ
  setPrevious : ν → Option ν → σ → Option σ

namespace Links

variable {σ ν : Type} (links : Links σ ν)

/-- The `next` of a node is assigned, unless the node is null. -/
def assignNext (node next : Option ν) (s : σ) : Option σ :=
  match node with
  | some node => links.setNext node next s
  | none => some s

/-- The `previous` of a node is assigned, unless the node is null. -/
def assignPrevious (node previous : Option ν) (s : σ) : Option σ :=
  match node with
  | some node => links.setPrevious node previous s
  | none => some s

end Links

namespace IntrusiveList

variable {σ ν : Type} (links : Links σ ν)

/-- `remove`. The links of the node are left as they are. -/
def remove (node : ν) (s : σ) : Option σ := do
  let previous ← links.previous s node
  let next ← links.next s node
  let s ← links.assignNext previous next s
  links.assignPrevious next previous s

/-- `unlink`. -/
def unlink (node : ν) (s : σ) : Option σ := do
  let s ← remove links node s
  let s ← links.setNext node none s
  links.setPrevious node none s

/-- `insert_before`. -/
def insertBefore (node position : ν) (s : σ) : Option σ := do
  let previous ← links.previous s position
  let s ← links.assignNext previous (some node) s
  let s ← links.setPrevious position (some node) s
  let s ← links.setNext node (some position) s
  links.setPrevious node previous s

/-- `insert_after`. If the position has a next node, it is the position whose `previous` is set. -/
def insertAfter (node position : ν) (s : σ) : Option σ := do
  let next ← links.next s position
  let s ← (if next.isSome then links.setPrevious position (some node) s else some s)
  let previous ← links.previous s position
  let s ← links.assignNext previous (some node) s
  let s ← links.setNext position (some node) s
  let s ← links.setNext node next s
  links.setPrevious node (some position) s

end IntrusiveList

end Hologine.Container
