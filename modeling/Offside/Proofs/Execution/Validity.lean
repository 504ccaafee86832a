import Offside.Execution.State

/-!
# Valid values

A value is valid if the class or the instance that it holds exists, and if it is not on
its way out of a method.  A state is sound if every value in it is valid, in its scope
and in the fields of its instances, and if every instance has a class that exists.

Classes and instances are never removed, so a valid value stays valid while they grow in
number (`Handle.IsValid.mono`).  Scopes are looked at entry by entry: what is bound to a
name is then valid in whatever way it is found.
-/

namespace Offside

/-- An object whose class or instance exists. -/
def Object.IsValid (classes : Classes) (heap : Heap) : Object → Prop
  | number .. | text .. | flag .. => True
  | ofClass id => id < classes.count
  | ofInstance id => id < heap.instances.size

/-- A value that is not on its way out of a method, and whose object is valid. -/
def Handle.IsValid (classes : Classes) (heap : Heap) : Handle → Prop
  | empty => True
  | holding object _ => object.IsValid classes heap
  | returned _ => False

/-- A scope all of whose values are valid. -/
def Scope.IsValid (classes : Classes) (heap : Heap) (scope : Scope) : Prop :=
  ∀ entry ∈ scope.entries, entry.2.IsValid classes heap

/-- A heap all of whose instances have classes that exist and fields that are valid. -/
def Heap.IsValid (classes : Classes) (heap : Heap) : Prop :=
  ∀ (id : InstanceId) (target : Instance), heap.instances[id]? = some target →
    target.cls < classes.count ∧ Scope.IsValid classes heap target.fields

/-- A state in which every value is valid. -/
structure State.IsSound (classes : Classes) (state : State) : Prop where
  heap : state.heap.IsValid classes
  scope : Scope.IsValid classes state.heap state.scope

variable {classes : Classes} {heap : Heap}

/-! ## More classes and instances -/

section

variable {more : Classes} {later : Heap} (hclasses : classes.count ≤ more.count)
  (hheap : heap.instances.size ≤ later.instances.size)
include hclasses hheap

theorem Handle.IsValid.mono {value : Handle} (h : value.IsValid classes heap) :
    value.IsValid more later := by
  cases value with
  | empty => trivial
  | holding object owning =>
      cases object with
      | number | text | flag => trivial
      | ofClass id => exact Nat.lt_of_lt_of_le h hclasses
      | ofInstance id => exact Nat.lt_of_lt_of_le h hheap
  | returned value => exact h

theorem Scope.IsValid.mono {scope : Scope} (h : Scope.IsValid classes heap scope) :
    Scope.IsValid more later scope := by
  intro entry hentry
  exact (h entry hentry).mono hclasses hheap

end

/-- More classes leave a sound state sound. -/
theorem State.IsSound.mono {more : Classes} (hclasses : classes.count ≤ more.count)
    {state : State} (h : state.IsSound classes) : state.IsSound more := by
  refine ⟨?_, h.scope.mono hclasses (Nat.le_refl _)⟩
  intro id target htarget
  obtain ⟨hcls, hfields⟩ := h.heap id target htarget
  exact ⟨Nat.lt_of_lt_of_le hcls hclasses, hfields.mono hclasses (Nat.le_refl _)⟩

/-! ## Scopes -/

namespace Scope

variable {scope : Scope}

theorem isValid_empty : Scope.IsValid classes heap .empty := by
  intro entry hentry
  cases hentry

theorem IsValid.set (h : Scope.IsValid classes heap scope) (name : String) {value : Handle}
    (hvalue : value.IsValid classes heap) : Scope.IsValid classes heap (scope.set name value) := by
  intro entry hentry
  rcases Bindings.mem_entries_set hentry with hold | hnew
  · exact h entry hold
  · rw [hnew]
    exact hvalue

theorem IsValid.setAll (h : Scope.IsValid classes heap scope) {pairs : List (String × Handle)}
    (hpairs : ∀ pair ∈ pairs, pair.2.IsValid classes heap) :
    Scope.IsValid classes heap (scope.setAll pairs) := by
  intro entry hentry
  rcases Bindings.mem_entries_setAll hentry with hold | ⟨pair, hpair, hnew⟩
  · exact h entry hold
  · rw [hnew]
    exact hpairs pair hpair

theorem IsValid.get? (h : Scope.IsValid classes heap scope) {name : String} {value : Handle}
    (hvalue : scope.get? name = some value) : value.IsValid classes heap := by
  obtain ⟨entry, hentry, rfl⟩ := Bindings.mem_entries_of_get? hvalue
  exact h entry hentry

/-- The names of a valid scope mean classes that exist. -/
theorem IsValid.lt_count (h : Scope.IsValid classes heap scope) {name : String} {cls : ClassId}
    (hcls : (Scope.classes scope).get? name = some cls) : cls < classes.count := by
  obtain ⟨entry, hentry, rfl⟩ := Bindings.mem_entries_of_get? hcls
  obtain ⟨bound, hbound, hkeep⟩ := List.mem_filterMap.mp hentry
  obtain ⟨found, hfound, rfl⟩ := Option.map_eq_some_iff.mp hkeep
  have hvalid := h bound hbound
  cases hhandle : bound.2 with
  | empty =>
      rw [hhandle] at hfound
      cases hfound
  | returned value =>
      rw [hhandle] at hfound
      cases hfound
  | holding object owning =>
      rw [hhandle] at hfound hvalid
      cases object with
      | ofClass id =>
          cases hfound
          exact hvalid
      | number | text | flag | ofInstance => cases hfound

end Scope

/-! ## The heap -/

namespace Heap

theorem IsValid.fields (h : heap.IsValid classes) (id : InstanceId) :
    Scope.IsValid classes heap (heap.fields id) := by
  unfold Heap.fields
  cases htarget : heap.instances[id]? with
  | none => exact Scope.isValid_empty
  | some target => exact (h id target htarget).2

@[simp] theorem size_setField (heap : Heap) (id : InstanceId) (name : String) (value : Handle) :
    (heap.setField id name value).instances.size = heap.instances.size :=
  Array.size_modify

theorem IsValid.setField (h : heap.IsValid classes) (id : InstanceId) (name : String)
    {value : Handle} (hvalue : value.IsValid classes heap) :
    (heap.setField id name value).IsValid classes := by
  have hsize := Nat.le_of_eq (size_setField heap id name value).symm
  intro other target htarget
  rw [Heap.setField, Array.getElem?_modify] at htarget
  split at htarget
  · obtain ⟨old, hold, rfl⟩ := Option.map_eq_some_iff.mp htarget
    obtain ⟨hcls, hfields⟩ := h other old hold
    exact ⟨hcls, (hfields.set name hvalue).mono (Nat.le_refl _) hsize⟩
  · obtain ⟨hcls, hfields⟩ := h other target htarget
    exact ⟨hcls, hfields.mono (Nat.le_refl _) hsize⟩

@[simp] theorem size_create (heap : Heap) (cls : ClassId) :
    (heap.create cls).2.instances.size = heap.instances.size + 1 :=
  Array.size_push _

theorem IsValid.create (h : heap.IsValid classes) {cls : ClassId} (hcls : cls < classes.count) :
    (heap.create cls).2.IsValid classes := by
  have hsize : heap.instances.size ≤ (heap.create cls).2.instances.size := by
    rw [size_create]
    exact Nat.le_succ _
  intro id target htarget
  have hpush : (heap.instances.push ⟨cls, Bindings.empty.set selfName
      (.share (.ofInstance heap.instances.size))⟩)[id]? = some target := htarget
  rw [Array.getElem?_push] at hpush
  split at hpush
  · cases hpush
    refine ⟨hcls, Scope.isValid_empty.set selfName ?_⟩
    show heap.instances.size < (heap.create cls).2.instances.size
    rw [size_create]
    exact Nat.lt_succ_self _
  · obtain ⟨hcls', hfields⟩ := h id target hpush
    exact ⟨hcls', hfields.mono (Nat.le_refl _) hsize⟩

end Heap

end Offside
