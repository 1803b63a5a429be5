import Hologine.Text.StringEquality
import Hologine.Text.StringIterator

/-!
# Constructing a string from characters

Model of the range constructor of `holo::string` (`core/text/string.hpp:259-276`), beside the two
that take a C string (`core/text/string.cpp:24-40`), and of what the three make of one sequence of
characters.

The slip of the source is that the range constructor sets every member but `storage_mode`, which
stays what the memory had. The union then has the buffer, whatever the mode says: in the unmanaged
mode the address of the record passes for that of characters, and in no mode at all the first copy
fails an assertion, so that there is no string to speak of.

Results:
* `copyRange_managed`: where the memory has the managed mode the range constructor is the other one
  with an allocator.
* `codePoints_congr`: strings with the same characters are iterated over alike.
* `constructorsAgree_iff`: the three strings agree, and the last two own a buffer each, **iff** the
  memory has the managed mode.
-/

namespace Hologine.Text

open Hologine.Library Hologine.Library.Run

/-! ## The range constructor -/

namespace StorageMode

def managed : Int := 0
def unmanaged : Int := 1

end StorageMode

/-- What a mode makes of a union that has a pointer to a record: `address` says where the records
are. -/
def Storage.ofMode (address : Nat → UInt64) (mode : Int) (buffer : Option Nat) : Option Storage :=
  if mode = StorageMode.managed then some (.managed buffer)
  else if mode = StorageMode.unmanaged then some (.unmanaged ((buffer.map address).getD 0))
  else none

namespace Strings

variable (chars : UInt64 → List UInt8) (address : Nat → UInt64)

/-- `string::string(holo::allocator*, ForwardIterator, ForwardIterator)`, over a range of the
characters `text`. `mode` is what the memory has in `storage_mode`. -/
def copyRange (s : Strings) (target allocator : UInt64) (text : List UInt8)
    (grantsRecord grantsData : Bool) (mode : Int) : Option Strings := do
  let (buffer, heap) := s.heap.constructBuffer allocator text grantsRecord grantsData
  let storage ← Storage.ofMode address mode buffer
  let s := { s with heap := heap }
  if buffer ≠ none then do
    let record ← heap.getBuffer buffer
    some (s.construct target ⟨storage, 0, record.length⟩)
  else some (s.construct target ⟨storage, 0, 0⟩)

/-- What the loop `for (auto i = s.begin(); i != s.end(); ++i)` sees of a string: the exceptions
that `begin` pushed, the code points, and whether it ends with a valid iterator. -/
def codePoints (s : Strings) (string : UInt64) (uninitialized : UInt32) (fuel : Nat) :
    Option (List ExceptionCode × List UInt32 × Bool) := do
  let (pushed, i) ← s.begin chars string uninitialized
  let (visited, final) ← s.traverse chars string uninitialized fuel i
  some (pushed, visited.map IteratorState.dereference, final.isValid)

/-- The three strings of the characters at `data`, each at an address of its own. -/
def constructThree (s : Strings) (data allocator allocator' first second third : UInt64)
    (mode : Int) : Option Strings := do
  let s := s.construct first ⟨.unmanaged data, 0, .ofNat (chars data).length⟩
  let s ← s.copyChars second allocator (chars data) true true
  s.copyRange address third allocator' (chars data) true true mode

variable {chars address} {s s' : Strings} {target allocator : UInt64} {text : List UInt8}

/-- **The range constructor is the other one where the memory has the managed mode.** -/
theorem copyRange_managed (hcoh : s.heap.Coherent) (target allocator : UInt64)
    (text : List UInt8) :
    s.copyRange address target allocator text true true StorageMode.managed =
      s.copyChars target allocator text true true := by
  rw [copyChars_eq hcoh]
  unfold copyRange
  simp only [BufferHeap.constructBuffer_eq, BufferHeap.getBuffer_withBuffer hcoh, Storage.ofMode,
    if_true, Option.bind_eq_bind, Option.bind_some, ne_eq, reduceCtorEq, not_false_eq_true]

/-- In another mode a string holds no buffer. -/
theorem buffer_copyRange {grantsRecord grantsData : Bool} {mode : Int}
    (hmode : mode ≠ StorageMode.managed)
    (hrun : s.copyRange address target allocator text grantsRecord grantsData mode = some s') :
    (s'.string target).buffer = none := by
  have hstorage : ∀ {buffer storage}, Storage.ofMode address mode buffer = some storage →
      ∃ c, storage = .unmanaged c := by
    intro buffer storage h
    rw [Storage.ofMode, if_neg hmode] at h
    split_ifs at h
    exact ⟨_, (Option.some.inj h).symm⟩
  unfold copyRange at hrun
  generalize s.heap.constructBuffer allocator text grantsRecord grantsData = built at hrun
  obtain ⟨buffer, heap⟩ := built
  obtain ⟨storage, hof, hrun⟩ := Option.bind_eq_some_iff.mp hrun
  obtain ⟨c, rfl⟩ := hstorage hof
  dsimp only at hrun
  split_ifs at hrun
  · obtain ⟨record, -, hrun⟩ := Option.bind_eq_some_iff.mp hrun
    obtain rfl := Option.some.inj hrun
    simp only [construct, Function.update_self, StringObject.buffer]
  · obtain rfl := Option.some.inj hrun
    simp only [construct, Function.update_self, StringObject.buffer]

/-! ## Strings with the same characters -/

end Strings

/-- The iterator, on another string. -/
def IteratorState.on (i : IteratorState) (a : UInt64) : IteratorState := { i with string := a }

/-- A string is all of the characters `text`: those of its buffer or those it wraps. -/
def BufferHeap.Carries (chars : UInt64 → List UInt8) (h : BufferHeap) (o : StringObject)
    (text : List UInt8) : Prop :=
  o.offset = 0 ∧ o.length = .ofNat text.length ∧
    match o.storage with
    | .managed buffer => ∃ b record, buffer = some b ∧ h.buffers b = some record ∧
        h.bytes record.data = text
    | .unmanaged constString => constString ≠ 0 ∧ chars constString = text

namespace Strings

open BufferHeap

variable {chars : UInt64 → List UInt8} {address : Nat → UInt64} {s s' : Strings}
  {target allocator a a' : UInt64} {text : List UInt8}

theorem carries_keeps {h h' : BufferHeap} {o : StringObject} (hkeep : h.Keeps h')
    (ho : h.Carries chars o text) : h'.Carries chars o text := by
  obtain ⟨hoffset, hlength, hstorage⟩ := ho
  refine ⟨hoffset, hlength, ?_⟩
  cases hs : o.storage with
  | managed buffer =>
    rw [hs] at hstorage
    obtain ⟨b, record, rfl, hb, hbytes⟩ := hstorage
    obtain ⟨record', hb', hdata, hsame⟩ := hkeep b record hb
    exact ⟨b, record', rfl, hb', by rw [hdata, hsame, hbytes]⟩
  | unmanaged constString =>
    rw [hs] at hstorage
    exact hstorage

/-- A live string that is all of some characters: where they are. -/
theorem Inv.denotes (hinv : s.Inv) (ha : a ∈ s.live)
    (ho : s.heap.Carries chars (s.string a) text) :
    ∃ pointer, s.heap.Denotes chars (s.string a) pointer text ∧
      s.heap.findBuffer (s.string a) = some (some pointer) := by
  obtain ⟨hoffset, hlength, hstorage⟩ := ho
  have hfits : (s.string a).offset.toNat + (s.string a).length.toNat ≤ text.length := by
    rw [hoffset, hlength, UInt64.toNat_zero, UInt64.toNat_ofNat', Nat.zero_add]
    exact Nat.mod_le _ _
  cases hs : (s.string a).storage with
  | managed buffer =>
    rw [hs] at hstorage
    obtain ⟨b, record, rfl, hb, hbytes⟩ := hstorage
    obtain ⟨b', record', hbuffer, hb', hget, hlive⟩ := hinv.getBuffer ha hs
    obtain rfl := Option.some.inj hbuffer
    obtain rfl := Option.some.inj (hb.symm.trans hb')
    refine ⟨.data record.data, ⟨?_, ?_, hfits⟩, ?_⟩
    · simp only [dataPointer, hs, hget, Option.bind_eq_bind, Option.bind_some]
    · rw [charactersAt, if_pos hlive, hbytes]
    · simp only [findBuffer, hs, hget, Option.bind_eq_bind, Option.bind_some]
  | unmanaged constString =>
    rw [hs] at hstorage
    obtain ⟨hne, hchars⟩ := hstorage
    refine ⟨.constString constString, ⟨?_, ?_, hfits⟩, ?_⟩
    · simp only [dataPointer, hs]
    · rw [charactersAt, hchars]
    · simp only [findBuffer, hs, if_pos hne]

/-- **Strings that are all of the same characters compare equal.** -/
theorem equal_of_carries {h : BufferHeap} {left right : StringObject} {p q : DataPointer}
    (hl : h.Denotes chars left p text) (hr : h.Denotes chars right q text)
    (hlo : left.offset = 0) (hro : right.offset = 0) (hlength : left.length = right.length) :
    ∃ count, h.equal chars left right = some (true, count) := by
  have hfits := hl.fits
  rw [equal_eq hl hr, hlo, hro, UInt64.sub_zero, UInt64.sub_zero, if_neg (not_not_intro hlength)]
  split_ifs
  · exact ⟨0, rfl⟩
  · refine ⟨left.length.toNat, ?_⟩
    rw [memcmpEqual, if_pos (by omega), Option.map_some, beq_self_eq_true]

/-- The strings at two addresses have the same characters, in two places. -/
structure Alike (chars : UInt64 → List UInt8) (s : Strings) (a a' : UInt64) : Prop where
  nonnull : a ≠ 0 ∧ a' ≠ 0
  offset : (s.string a).offset = (s.string a').offset
  length : (s.string a).length = (s.string a').length
  characters : ∃ pointer pointer' data, s.heap.findBuffer (s.string a) = some (some pointer) ∧
    s.heap.findBuffer (s.string a') = some (some pointer') ∧
    s.heap.charactersAt chars pointer = some data ∧ s.heap.charactersAt chars pointer' = some data

/-- A step forward is the same on strings that are alike. -/
theorem Alike.increment (h : s.Alike chars a a') {i : IteratorState} (hi : i.string = a) :
    s.increment chars (i.on a') = (s.increment chars i).map fun r => (r.1, r.2.on a') := by
  obtain ⟨pointer, pointer', data, hfind, hfind', hdata, hdata'⟩ := h.characters
  have hon : (i.on a').string = a' := rfl
  rw [Strings.increment, Strings.increment, hon, hi, if_pos h.nonnull.1, if_pos h.nonnull.2]
  by_cases hvalid : i.isValid
  · rw [if_pos hvalid, if_pos (show (i.on a').isValid from hvalid)]
    simp only [hfind, hfind', hdata, hdata', ← h.offset, ← h.length, Option.bind_eq_bind,
      Option.bind_some]
    change (utf8Increment _ _ i.nextOffset i.cachedCodePointValue).bind _ = _
    cases utf8Increment (data.drop (s.string a).offset.toNat) (s.string a).length i.nextOffset
        i.cachedCodePointValue with
    | none => rfl
    | some r =>
      simp only [Option.bind_some]
      split_ifs <;> rfl
  · rw [if_neg hvalid, if_neg (show ¬ (i.on a').isValid from hvalid)]
    rfl

/-- What strings that are alike give out is alike. -/
theorem Alike.stringIterator (h : s.Alike chars a a') (offset : UInt64) (uninitialized : UInt32) :
    s.stringIterator chars a' offset uninitialized =
      (s.stringIterator chars a offset uninitialized).map fun r => (r.1, r.2.on a') := by
  obtain ⟨pointer, pointer', data, hfind, hfind', -, -⟩ := h.characters
  have hfirst : a ≠ 0 ∧ ((s.string a).hasBuffer = true ∨ offset = 0) :=
    ⟨h.nonnull.1, .inl (hasBuffer_of_findBuffer hfind)⟩
  have hsecond : a' ≠ 0 ∧ ((s.string a').hasBuffer = true ∨ offset = 0) :=
    ⟨h.nonnull.2, .inl (hasBuffer_of_findBuffer hfind')⟩
  rw [Strings.stringIterator, Strings.stringIterator, if_pos hfirst, if_pos hsecond, ← h.length]
  dsimp only
  split_ifs
  · exact h.increment (i := ⟨⟨a, offset⟩, offset, uninitialized, true⟩) rfl
  · rfl

/-- An iterator stays on its string. -/
theorem string_of_increment {i i' : IteratorState} {pushed : List ExceptionCode}
    (hrun : s.increment chars i = some (pushed, i')) : i'.string = i.string := by
  rcases increment_leaves hrun with (rfl | ⟨hstays, -⟩) | ⟨_, _, -, -, -, hstring, -⟩
  · rfl
  · exact congrArg StringIterator.string hstays
  · exact hstring

theorem string_of_stringIterator {offset : UInt64} {uninitialized : UInt32} {i : IteratorState}
    {pushed : List ExceptionCode}
    (hrun : s.stringIterator chars a offset uninitialized = some (pushed, i)) : i.string = a := by
  unfold Strings.stringIterator at hrun
  split_ifs at hrun
  · exact string_of_increment hrun
  · obtain ⟨-, rfl⟩ := Prod.mk.inj (Option.some.inj hrun)
    rfl

theorem equal_on {i j : IteratorState} (h : i.string = j.string) (a : UInt64) :
    (i.on a).equal (j.on a) = i.equal j := by
  simp only [IteratorState.equal, IteratorState.on, h, beq_self_eq_true]

/-- The loop is the same over strings that are alike. -/
theorem Alike.traverse (h : s.Alike chars a a') (uninitialized : UInt32) {fuel : Nat}
    {i : IteratorState} (hi : i.string = a) :
    s.traverse chars a' uninitialized fuel (i.on a') =
      (s.traverse chars a uninitialized fuel i).map fun r =>
        (r.1.map fun i => i.on a', r.2.on a') := by
  induction fuel generalizing i with
  | zero => rfl
  | succ fuel ih =>
    rw [Strings.traverse, Strings.traverse, Strings.end, Strings.end, ← h.length,
      h.stringIterator]
    cases hend : s.stringIterator chars a (s.string a).length uninitialized with
    | none => rfl
    | some last =>
      obtain ⟨pushed, last⟩ := last
      have hequal := equal_on (hi.trans (string_of_stringIterator hend).symm) a'
      simp only [Option.map_some, Option.bind_eq_bind, Option.bind_some, hequal]
      split_ifs
      · rfl
      · rw [h.increment hi]
        cases hnext : s.increment chars i with
        | none => rfl
        | some next =>
          obtain ⟨pushed', next⟩ := next
          simp only [Option.map_some, Option.bind_some]
          rw [ih ((string_of_increment hnext).trans hi)]
          cases s.traverse chars a uninitialized fuel next <;> rfl

/-- **Strings that are alike are iterated over alike.** -/
theorem codePoints_congr (h : s.Alike chars a a') (uninitialized : UInt32) (fuel : Nat) :
    s.codePoints chars a' uninitialized fuel = s.codePoints chars a uninitialized fuel := by
  rw [codePoints, codePoints, begin, begin, h.stringIterator]
  cases hbegin : s.stringIterator chars a 0 uninitialized with
  | none => rfl
  | some r =>
    obtain ⟨pushed, i⟩ := r
    simp only [Option.map_some, Option.bind_eq_bind, Option.bind_some]
    rw [h.traverse uninitialized (string_of_stringIterator hbegin)]
    cases s.traverse chars a uninitialized fuel i with
    | none => rfl
    | some r =>
      simp only [Option.map_some, Option.bind_some, List.map_map]
      rfl

/-! ## Agreement -/

/-- A legal copy, assignment or destruction of strings that were not there in `s₀`. -/
def FamilyLegal (s₀ s : Strings) (call : StringCall) : Prop :=
  s.Legal call ∧
    match call with
    | .copy _ other => other ∉ s₀.live
    | .assign target other => target ∉ s₀.live ∧ other ∉ s₀.live
    | .destroy target => target ∉ s₀.live
    | _ => False

/-- The live strings that were not there in `s₀` compare equal and have the same code points, and
every buffer is released, once, when no string holds it. -/
def Agree (chars : UInt64 → List UInt8) (s₀ s : Strings) : Prop :=
  s.Counted ∧ ∀ a ∈ s.live, a ∉ s₀.live → ∀ a' ∈ s.live, a' ∉ s₀.live →
    (∃ count, s.heap.equal chars (s.string a) (s.string a') = some (true, count)) ∧
      ∀ uninitialized fuel, s.codePoints chars a uninitialized fuel =
        s.codePoints chars a' uninitialized fuel

/-- **The three strings agree**, and so do their copies in every run of copies, assignments and
destructions; the second and the third have a new buffer each, and these are the only new ones. -/
def ConstructorsAgree (chars : UInt64 → List UInt8) (address : Nat → UInt64) (s : Strings)
    (data allocator allocator' first second third : UInt64) (mode : Int) : Prop :=
  ∃ s' b b', s.constructThree chars address data allocator allocator' first second third mode =
      some s' ∧
    (s'.string second).buffer = some b ∧ (s'.string third).buffer = some b' ∧ b ≠ b' ∧
    s'.holders b = 1 ∧ s'.holders b' = 1 ∧
    (∀ buffer, (s'.heap.buffers buffer).isSome ↔
      (s.heap.buffers buffer).isSome ∨ buffer = b ∨ buffer = b') ∧
    s.heap.buffers b = none ∧ s.heap.buffers b' = none ∧
    ∀ calls, Along (step chars) (FamilyLegal s) s' calls →
      ∃ outputs s'', exec (step chars) s' calls = some (outputs, s'') ∧ Agree chars s s''

/-- What the runs keep: the strings that were there are, and the others are all of the text. -/
structure Family (chars : UInt64 → List UInt8) (s₀ : Strings) (text : List UInt8) (s : Strings) :
    Prop where
  inv : s.Inv
  live : ∀ a ∈ s₀.live, a ∈ s.live
  carries : ∀ a ∈ s.live, a ∉ s₀.live → s.heap.Carries chars (s.string a) text

variable {s₀ : Strings}

theorem Family.agree (h : Family chars s₀ text s) : Agree chars s₀ s := by
  refine ⟨h.inv.toCounted, fun a ha hnew a' ha' hnew' => ?_⟩
  have hcarries := h.carries a ha hnew
  have hcarries' := h.carries a' ha' hnew'
  obtain ⟨pointer, hdenotes, hfind⟩ := h.inv.denotes ha hcarries
  obtain ⟨pointer', hdenotes', hfind'⟩ := h.inv.denotes ha' hcarries'
  have hoffset := hcarries.1.trans hcarries'.1.symm
  have hlength := hcarries.2.1.trans hcarries'.2.1.symm
  refine ⟨equal_of_carries hdenotes hdenotes' hcarries.1 hcarries'.1 hlength, fun u fuel => ?_⟩
  have hnonnull : ∀ a ∈ s.live, a ≠ 0 := fun a ha hzero => h.inv.nonnull (hzero ▸ ha)
  exact (codePoints_congr ⟨⟨hnonnull a ha, hnonnull a' ha'⟩, hoffset, hlength, pointer, pointer',
    text, hfind, hfind', hdenotes.data, hdenotes'.data⟩ u fuel).symm

/-- **What every call keeps** of a family. -/
theorem Family.step (h : Family chars s₀ text s) {call : StringCall}
    (hlegal : FamilyLegal s₀ s call) :
    ∃ s', s.step chars call = some ((), s') ∧ Family chars s₀ text s' := by
  obtain ⟨hlegal, hfamily⟩ := hlegal
  obtain ⟨s', hrun, hinv⟩ := h.inv.step chars hlegal
  have hcall := map_mk_eq_some.mp hrun
  refine ⟨s', hrun, hinv, ?_, ?_⟩
  · intro a ha
    cases call with
    | copy target other =>
      obtain ⟨-, hlive, -⟩ := copyConstruct_leaves hcall
      exact hlive ▸ List.mem_cons_of_mem _ (h.live a ha)
    | assign target other =>
      obtain ⟨-, hlive, -⟩ := assign_leaves hcall
      exact hlive ▸ h.live a ha
    | destroy target =>
      obtain ⟨-, hlive, -⟩ := destruct_leaves hcall
      have hne : a ≠ target := by
        rintro rfl
        exact hfamily ha
      rw [hlive, List.mem_erase_of_ne hne]
      exact h.live a ha
    | _ => exact hfamily.elim
  · intro a ha hnew
    cases call with
    | copy target other =>
      obtain ⟨hcount, hlive, hstring⟩ := copyConstruct_leaves hcall
      rw [hstring]
      by_cases heq : a = target
      · rw [heq, Function.update_self]
        exact carries_keeps hcount.keeps (h.carries other hlegal.2 hfamily)
      · rw [Function.update_of_ne heq]
        have hold := (List.mem_cons.mp (hlive ▸ ha)).resolve_left heq
        exact carries_keeps hcount.keeps (h.carries a hold hnew)
    | assign target other =>
      obtain ⟨hcount, hlive, hstring⟩ := assign_leaves hcall
      rw [hstring]
      by_cases heq : a = target
      · rw [heq, Function.update_self]
        exact carries_keeps hcount.keeps (h.carries other hlegal.2 hfamily.2)
      · rw [Function.update_of_ne heq]
        exact carries_keeps hcount.keeps (h.carries a (hlive ▸ ha) hnew)
    | destroy target =>
      obtain ⟨hcount, hlive, hstring⟩ := destruct_leaves hcall
      rw [hstring]
      exact carries_keeps hcount.keeps (h.carries a (List.mem_of_mem_erase (hlive ▸ ha)) hnew)
    | _ => exact hfamily.elim

/-! ### The three constructors -/

theorem Family.refl (hinv : s.Inv) : Family chars s text s :=
  ⟨hinv, fun _ ha => ha, fun _ ha hnew => absurd ha hnew⟩

/-- A string that is made of the text, in a heap that keeps what was there. -/
theorem Family.construct (h : Family chars s₀ text s) {heap : BufferHeap}
    (hkeep : s.heap.Keeps heap) {value : StringObject} (hvalue : heap.Carries chars value text)
    (hinv : ({ s with heap := heap }.construct target value).Inv) :
    Family chars s₀ text ({ s with heap := heap }.construct target value) := by
  refine ⟨hinv, fun a ha => List.mem_cons_of_mem _ (h.live a ha), fun a ha hnew => ?_⟩
  change heap.Carries chars (Function.update s.string target value a) text
  by_cases heq : a = target
  · rw [heq, Function.update_self]
    exact hvalue
  · rw [Function.update_of_ne heq]
    have hold := (List.mem_cons.mp ha).resolve_left heq
    exact carries_keeps hkeep (h.carries a hold hnew)

theorem Family.wrap {data : UInt64} (h : Family chars s₀ (chars data) s) (hdata : data ≠ 0)
    (hvacant : s.Vacant target) : Family chars s₀ (chars data)
      (s.construct target ⟨.unmanaged data, 0, .ofNat (chars data).length⟩) :=
  h.construct (Keeps.refl s.heap) ⟨rfl, rfl, hdata, rfl⟩ (h.inv.constructUnmanaged hvacant ..)

theorem Family.copyChars (h : Family chars s₀ text s) (hvacant : s.Vacant target)
    (allocator : UInt64) :
    ∃ s', s.copyChars target allocator text true true = some s' ∧ Family chars s₀ text s' ∧
      s'.heap = s.heap.withBuffer allocator text ∧ s'.live = target :: s.live ∧
      s'.string = Function.update s.string target
        ⟨.managed (some s.heap.owners.length), 0, .ofNat text.length⟩ := by
  have hcoh := h.inv.counted.toCoherent
  obtain ⟨s', hrun, hinv⟩ := h.inv.copyChars hvacant allocator text
  have heq := copyChars_eq hcoh target allocator text
  obtain rfl := Option.some.inj (heq.symm.trans hrun)
  refine ⟨_, heq, h.construct (Keeps.withBuffer hcoh.allocated allocator text) ?_ hinv, rfl, rfl,
    rfl⟩
  refine ⟨rfl, rfl, s.heap.owners.length,
    ⟨s.heap.owners.length + 1, .ofNat text.length, 1, allocator⟩, rfl, ?_, ?_⟩
  · rw [withBuffer_buffers, Function.update_self]
  · exact Function.update_self ..

/-- **The three strings are a family, and the last two have the two buffers that come next.** -/
theorem constructThree_managed (hinv : s.Inv) {data : UInt64} (hdata : data ≠ 0)
    {first second third : UInt64} (hfirst : s.Vacant first) (hsecond : s.Vacant second)
    (hthird : s.Vacant third) (hapart : [first, second, third].Nodup)
    (allocator allocator' : UInt64) :
    ∃ s', s.constructThree chars address data allocator allocator' first second third
        StorageMode.managed = some s' ∧ Family chars s (chars data) s' ∧
      (s'.string second).buffer = some s.heap.owners.length ∧
      (s'.string third).buffer = some (s.heap.owners.length + 2) ∧
      s'.heap.buffers = Function.update (Function.update s.heap.buffers s.heap.owners.length
          (some ⟨s.heap.owners.length + 1, .ofNat (chars data).length, 1, allocator⟩))
        (s.heap.owners.length + 2)
          (some ⟨s.heap.owners.length + 3, .ofNat (chars data).length, 1, allocator'⟩) := by
  simp only [List.nodup_cons, List.mem_cons, List.not_mem_nil, or_false, not_or] at hapart
  obtain ⟨⟨h₁₂, h₁₃⟩, h₂₃, -⟩ := hapart
  have hfamily₀ : Family chars s (chars data) s := Family.refl hinv
  have hfamily₁ := hfamily₀.wrap hdata hfirst
  have hvacant₁ : (s.construct first ⟨.unmanaged data, 0, .ofNat (chars data).length⟩).Vacant
      second := ⟨hsecond.1, List.not_mem_cons_of_ne_of_not_mem (Ne.symm h₁₂) hsecond.2⟩
  obtain ⟨s₂, hrun₂, hfamily₂, hheap₂, hlive₂, hstring₂⟩ := hfamily₁.copyChars hvacant₁ allocator
  have hvacant₂ : s₂.Vacant third := by
    refine ⟨hthird.1, ?_⟩
    rw [hlive₂]
    exact List.not_mem_cons_of_ne_of_not_mem (Ne.symm h₂₃)
      (List.not_mem_cons_of_ne_of_not_mem (Ne.symm h₁₃) hthird.2)
  obtain ⟨s₃, hrun₃, hfamily₃, hheap₃, -, hstring₃⟩ := hfamily₂.copyChars hvacant₂ allocator'
  have hcount₂ : s₂.heap.owners.length = s.heap.owners.length + 2 := by
    rw [hheap₂]
    exact List.length_append
  refine ⟨s₃, ?_, hfamily₃, ?_, ?_, ?_⟩
  · unfold constructThree
    simp only [hrun₂, Option.bind_eq_bind, Option.bind_some]
    rw [copyRange_managed hfamily₂.inv.counted.toCoherent, hrun₃]
  · rw [hstring₃, Function.update_of_ne h₂₃, hstring₂, Function.update_self]
    rfl
  · rw [hstring₃, Function.update_self, hcount₂]
    rfl
  · rw [hheap₃, withBuffer_buffers, hcount₂, hheap₂]
    rfl

/-- **The three strings agree iff the memory the range constructor finds has the managed mode.** -/
theorem constructorsAgree_iff (hinv : s.Inv) {data allocator allocator' first second third : UInt64}
    (hdata : data ≠ 0) (hfirst : s.Vacant first) (hsecond : s.Vacant second)
    (hthird : s.Vacant third) (hapart : [first, second, third].Nodup) (mode : Int) :
    ConstructorsAgree chars address s data allocator allocator' first second third mode ↔
      mode = StorageMode.managed := by
  constructor
  · rintro ⟨s', b, b', hrun, -, hbuffer, -⟩
    by_contra hmode
    obtain ⟨s₂, -, hrun⟩ := Option.bind_eq_some_iff.mp hrun
    rw [buffer_copyRange hmode hrun] at hbuffer
    exact absurd hbuffer (by simp)
  · rintro rfl
    obtain ⟨s', hrun, hfamily, hsecond, hthird, hbuffers⟩ :=
      @constructThree_managed chars address s hinv data hdata first second third hfirst hsecond
        hthird hapart allocator allocator'
    have hnew : ∀ b, s.heap.owners.length ≤ b → s.heap.buffers b = none := by
      intro b hle
      by_contra hsome
      obtain ⟨record, hb⟩ := Option.ne_none_iff_exists'.mp hsome
      exact Nat.not_lt.mpr hle (hinv.counted.toCoherent.lt_length hb).1
    have hbuffer : s'.heap.buffers s.heap.owners.length =
        some ⟨s.heap.owners.length + 1, .ofNat (chars data).length, 1, allocator⟩ := by
      rw [hbuffers, Function.update_of_ne (by omega), Function.update_self]
    have hbuffer' : s'.heap.buffers (s.heap.owners.length + 2) =
        some ⟨s.heap.owners.length + 3, .ofNat (chars data).length, 1, allocator'⟩ := by
      rw [hbuffers, Function.update_self]
    refine ⟨s', _, _, hrun, hsecond, hthird, by omega,
      (hfamily.inv.counted.count _ _ hbuffer).symm, (hfamily.inv.counted.count _ _ hbuffer').symm,
      fun b => ?_, hnew _ (Nat.le_refl _), hnew _ (Nat.le_add_right _ 2), fun calls hlegal => ?_⟩
    · rw [hbuffers, Function.update_apply, Function.update_apply]
      split_ifs with hlast hfirst
      · exact iff_of_true rfl (.inr (.inr hlast))
      · exact iff_of_true rfl (.inr (.inl hfirst))
      · exact ⟨.inl, fun h => h.resolve_right fun h => h.elim hfirst hlast⟩
    · have hexec := exec_of_defined (Family chars s (chars data))
        (fun s' call hfamily (hcall : FamilyLegal s s' call) => ?_) hfamily hlegal
      · obtain ⟨outputs, s'', hexec, hfamily⟩ := hexec
        exact ⟨outputs, s'', hexec, hfamily.agree⟩
      · obtain ⟨s'', hstep, hfamily'⟩ := hfamily.step hcall
        exact ⟨(), s'', hstep, hfamily'⟩

/-- The three strings of `"hi"`. -/
theorem constructorsAgree_iff_sample :
    ConstructorsAgree (fun _ => [0x68, 0x69]) (fun _ => 0x1000) start 0x20 0x10 0x11 1 2 3
        StorageMode.managed ↔ StorageMode.managed = StorageMode.managed :=
  constructorsAgree_iff inv_start (by decide) (by decide) (by decide) (by decide) (by decide) _

/-- **A string that is constructed where the memory has the unmanaged mode has no buffer**, and the
one that is made for it is never released. -/
theorem not_constructorsAgree : ¬ ∀ (chars : UInt64 → List UInt8) (address : Nat → UInt64)
    (s : Strings) (data allocator allocator' first second third : UInt64) (mode : Int),
    s.Inv → data ≠ 0 → s.Vacant first → s.Vacant second → s.Vacant third →
      [first, second, third].Nodup →
      ConstructorsAgree chars address s data allocator allocator' first second third mode := by
  intro h
  obtain ⟨s', b, b', hrun, -, hbuffer, -⟩ := h (fun _ => [0x68, 0x69]) (fun _ => 0x1000) start 0x20
    0x10 0x11 1 2 3 StorageMode.unmanaged inv_start (by decide) (by decide) (by decide) (by decide)
    (by decide)
  obtain rfl := Option.some.inj hrun
  have hnone : none = some b' := hbuffer
  exact absurd hnone (by simp)

end Strings

end Hologine.Text
