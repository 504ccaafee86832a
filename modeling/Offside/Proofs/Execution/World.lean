import Mathlib.Data.Set.Insert
import Offside.Execution.State
import Offside.Proofs.Tree.Statement

/-!
# What there is when a program runs

While a program runs, things are added to a state and nothing is taken away: instances, their
fields, variables and output (`State.Extends`).

Numbers, texts and flags stand in the values themselves, and what tells two of them apart is
where they come from.  So "no such object changes" is said of a set of objects: an inventory
has one object for every origin (`IsInventory`), and the values of a state are in it
(`State.IsIn`).  If later values are in an inventory that holds the old one, then whatever
comes from the same place is the same still.
-/

namespace Offside

/-! ## Objects that stand in values -/

/-- Where a number, a text or a flag comes from. -/
def Object.origin? : Object → Option Origin
  | number origin _ | text origin _ | flag origin _ => some origin
  | ofClass _ | ofInstance _ => none

/-- If the object is a number, a text or a flag, it is one of these. -/
def Object.IsIn (object : Object) (objects : Set Object) : Prop :=
  object.origin?.isSome → object ∈ objects

/-- The object that the value holds, or is to return, is one of these. -/
def Handle.IsIn : Handle → Set Object → Prop
  | empty, _ => True
  | holding object _, objects => object.IsIn objects
  | returned value, objects => value.IsIn objects

/-- All values in the scope are of these objects. -/
def Scope.IsIn (scope : Scope) (objects : Set Object) : Prop :=
  ∀ entry ∈ scope.entries, entry.2.IsIn objects

/-- There are these objects: the literals, and those of all values in the state. -/
structure State.IsIn (state : State) (literals objects : Set Object) : Prop where
  literals : literals ⊆ objects
  scope : Scope.IsIn state.scope objects
  fields : ∀ id, Scope.IsIn (state.heap.fields id) objects

/-- Every origin belongs to one object at most, and none that is made belongs to an origin that
is still to come. -/
structure IsInventory (objects : Set Object) (made : Nat) : Prop where
  eq : ∀ one ∈ objects, ∀ other ∈ objects, ∀ origin, one.origin? = some origin →
    other.origin? = some origin → one = other
  lt : ∀ object ∈ objects, ∀ serial, object.origin? = some (.made serial) → serial < made

/-- There is nothing that is not among all objects. -/
theorem Handle.isIn_univ (value : Handle) : value.IsIn Set.univ := by
  induction value with
  | empty => trivial
  | holding object owning => exact fun _ => trivial
  | returned value ih => exact ih

theorem State.isIn_univ (state : State) : state.IsIn Set.univ Set.univ :=
  ⟨Set.Subset.rfl, fun entry _ => entry.2.isIn_univ, fun _ entry _ => entry.2.isIn_univ⟩

/-! ### More objects -/

section

variable {objects later : Set Object} (h : objects ⊆ later)
include h

theorem Object.IsIn.mono {object : Object} (hobject : object.IsIn objects) : object.IsIn later :=
  fun horigin => h (hobject horigin)

theorem Handle.IsIn.mono {value : Handle} (hvalue : value.IsIn objects) : value.IsIn later := by
  induction value with
  | empty => trivial
  | holding object owning => exact Object.IsIn.mono h hvalue
  | returned value ih => exact ih hvalue

theorem Scope.IsIn.mono {scope : Scope} (hscope : Scope.IsIn scope objects) :
    Scope.IsIn scope later :=
  fun entry hentry => (hscope entry hentry).mono h

end

/-- The object of a literal is an inventory by itself. -/
theorem isInventory_singleton {object : Object} {source index : Nat}
    (h : object.origin? = some (.literal source index)) (made : Nat) :
    IsInventory {object} made := by
  refine ⟨fun one hone other hother _ _ _ => ?_, fun other hother serial horigin => ?_⟩
  · rw [Set.mem_singleton_iff.mp hone, Set.mem_singleton_iff.mp hother]
  · rw [Set.mem_singleton_iff.mp hother, h] at horigin
    cases horigin

/-- An object that is made is a new one. -/
theorem IsInventory.insert {objects : Set Object} {made : Nat} (h : IsInventory objects made)
    {object : Object} (hobject : object.origin? = some (.made made)) :
    IsInventory (insert object objects) (made + 1) := by
  -- nothing that there was comes from where the new object comes from
  have hnew {other : Object} (hother : other ∈ objects) : other.origin? ≠ some (.made made) :=
    fun horigin => Nat.lt_irrefl made (h.lt other hother made horigin)
  refine ⟨fun one hone other hother origin horigin horigin' => ?_,
    fun other hother serial horigin => ?_⟩
  · obtain rfl | hold := Set.mem_insert_iff.mp hone
    · obtain rfl | hold' := Set.mem_insert_iff.mp hother
      · rfl
      · exact absurd (horigin'.trans (horigin.symm.trans hobject)) (hnew hold')
    · obtain rfl | hold' := Set.mem_insert_iff.mp hother
      · exact absurd (horigin.trans (horigin'.symm.trans hobject)) (hnew hold)
      · exact h.eq one hold other hold' origin horigin horigin'
  · obtain rfl | hold := Set.mem_insert_iff.mp hother
    · cases hobject.symm.trans horigin
      exact Nat.lt_succ_self made
    · exact Nat.lt_succ_of_lt (h.lt other hold serial horigin)

/-- Objects of other origins may be added. -/
theorem IsInventory.union {objects others : Set Object} {made : Nat} (h : IsInventory objects made)
    (hothers : IsInventory others made)
    (hapart : ∀ object ∈ objects, ∀ other ∈ others, ∀ origin, object.origin? = some origin →
      other.origin? ≠ some origin) : IsInventory (objects ∪ others) made := by
  refine ⟨fun one hone other hother origin horigin horigin' => ?_,
    fun object hobject serial horigin => ?_⟩
  · obtain hone | hone := hone <;> obtain hother | hother := hother
    · exact h.eq one hone other hother origin horigin horigin'
    · exact absurd horigin' (hapart one hone other hother origin horigin)
    · exact absurd horigin (hapart other hother one hone origin horigin')
    · exact hothers.eq one hone other hother origin horigin horigin'
  · obtain hobject | hobject := hobject
    · exact h.lt object hobject serial horigin
    · exact hothers.lt object hobject serial horigin

/-- Literals may be added. -/
theorem State.IsIn.union {state : State} {literals objects : Set Object}
    (h : state.IsIn literals objects) (more : Set Object) :
    state.IsIn (literals ∪ more) (objects ∪ more) :=
  ⟨Set.union_subset_union_left more h.literals, h.scope.mono Set.subset_union_left,
    fun id => (h.fields id).mono Set.subset_union_left⟩

/-! ### Scopes and fields -/

namespace Scope

variable {scope : Scope} {objects : Set Object}

theorem isIn_empty (objects : Set Object) : Scope.IsIn .empty objects := by
  intro entry hentry
  cases hentry

theorem IsIn.set (h : Scope.IsIn scope objects) (name : String) {value : Handle}
    (hvalue : value.IsIn objects) : Scope.IsIn (scope.set name value) objects := by
  intro entry hentry
  obtain hold | hnew := Bindings.mem_entries_set hentry
  · exact h entry hold
  · exact hnew ▸ hvalue

theorem IsIn.setAll (h : Scope.IsIn scope objects) {pairs : List (String × Handle)}
    (hpairs : ∀ pair ∈ pairs, pair.2.IsIn objects) : Scope.IsIn (scope.setAll pairs) objects := by
  intro entry hentry
  obtain hold | ⟨pair, hpair, hnew⟩ := Bindings.mem_entries_setAll hentry
  · exact h entry hold
  · exact hnew ▸ hpairs pair hpair

theorem IsIn.get? (h : Scope.IsIn scope objects) {name : String} {value : Handle}
    (hvalue : scope.get? name = some value) : value.IsIn objects := by
  obtain ⟨entry, hentry, rfl⟩ := Bindings.mem_entries_of_get? hvalue
  exact h entry hentry

end Scope

@[simp] theorem Bindings.mem_names_set {α : Type} {bindings : Bindings α} {name bound : String}
    {value : α} :
    name ∈ (bindings.set bound value).names ↔ bound = name ∨ name ∈ bindings.names := by
  rw [mem_names, mem_names, get?_set]
  by_cases heq : bound = name <;> simp [heq]

namespace Heap

/-- Binding a field concerns the fields of one instance at most. -/
theorem fields_setField_cases (heap : Heap) (id other : InstanceId) (name : String)
    (value : Handle) :
    (heap.setField id name value).fields other = heap.fields other ∨
      (heap.setField id name value).fields other = (heap.fields other).set name value := by
  by_cases hother : id = other
  · subst hother
    by_cases hid : id < heap.instances.size
    · rw [fields_setField heap id name value hid, if_pos rfl]
      exact .inr rfl
    · have hnone : heap.instances[id]? = none := Array.getElem?_eq_none (Nat.le_of_not_lt hid)
      refine .inl ?_
      simp [fields, setField, hnone, Array.getElem?_modify]
  · refine .inl ?_
    simp [fields, setField, hother, Array.getElem?_modify]

/-- Only the new instance has other fields than before. -/
theorem fields_create_cases (heap : Heap) (cls : ClassId) (id : InstanceId) :
    (heap.create cls).2.fields id = heap.fields id ∨
      heap.fields id = .empty ∧ (heap.create cls).2.fields id =
        Bindings.empty.set selfName (.share (.ofInstance heap.instances.size)) := by
  by_cases hid : id = heap.instances.size
  · subst hid
    refine .inr ⟨?_, ?_⟩ <;> simp [fields, create]
  · refine .inl ?_
    simp [fields, create, hid, Array.getElem?_push]

end Heap

/-! ## Literals -/

namespace Node

/-- The object of a literal. -/
def literal? : Node → Option Object
  | number origin value => some (.number origin value)
  | text origin content => some (.text origin content)
  | flag origin value => some (.flag origin value)
  | _ => none

/-- The objects of all literals in the node are among these. -/
def LiteralsIn (node : Node) (literals : Set Object) : Prop :=
  ∀ literal object, PartOf literal node → literal.literal? = some object → object ∈ literals

variable {node part : Node} {literals : Set Object}

theorem LiteralsIn.operand (h : node.LiteralsIn literals) (hpart : part ∈ node.operands) :
    part.LiteralsIn literals :=
  fun literal object hliteral => h literal object (.operand hliteral hpart)

theorem LiteralsIn.branch (h : node.LiteralsIn literals) (hpart : part ∈ node.branches) :
    part.LiteralsIn literals :=
  fun literal object hliteral => h literal object (.branch hliteral hpart)

theorem literalsIn_of_parts (h : ∀ object, node.literal? = some object → object ∈ literals)
    (hoperands : ∀ part ∈ node.operands, part.LiteralsIn literals)
    (hbranches : ∀ part ∈ node.branches, part.LiteralsIn literals) : node.LiteralsIn literals := by
  intro literal object hliteral hobject
  cases hliteral with
  | self => exact h object hobject
  | operand hliteral hpart => exact hoperands _ hpart literal object hliteral hobject
  | branch hliteral hpart => exact hbranches _ hpart literal object hliteral hobject

/-- What a literal gives is one of these objects. -/
theorem LiteralsIn.mem (h : node.LiteralsIn literals) {object : Object}
    (hliteral : node.literal? = some object) : object ∈ literals :=
  h node object .self hliteral

end Node

/-- The objects of all literals in methods are among these. -/
def Classes.LiteralsIn (classes : Classes) (literals : Set Object) : Prop :=
  ∀ id record, classes.get? id = some record →
    ∀ method ∈ record.methods, method.body.LiteralsIn literals

/-! ## States that have grown -/

/-- Nothing that there was before is missing, and every instance has the class that it had. -/
structure State.Extends (before after : State) : Prop where
  class? : ∀ id cls, before.heap.classOf? id = some cls → after.heap.classOf? id = some cls
  fields : ∀ id, ∀ name ∈ (before.heap.fields id).names, name ∈ (after.heap.fields id).names
  scope : ∀ name ∈ before.scope.names, name ∈ after.scope.names
  output : ∃ text, after.output = before.output ++ text

namespace State.Extends

variable {before between after : State}

theorem refl (state : State) : state.Extends state :=
  ⟨fun _ _ h => h, fun _ _ h => h, fun _ h => h, "", String.append_empty.symm⟩

theorem trans (h : before.Extends between) (hafter : between.Extends after) :
    before.Extends after := by
  refine ⟨fun id cls hcls => hafter.class? id cls (h.class? id cls hcls),
    fun id name hname => hafter.fields id name (h.fields id name hname),
    fun name hname => hafter.scope name (h.scope name hname), ?_⟩
  obtain ⟨text, htext⟩ := h.output
  obtain ⟨more, hmore⟩ := hafter.output
  exact ⟨text ++ more, by rw [hmore, htext, String.append_assoc]⟩

theorem write (state : State) (text : String) :
    state.Extends { state with output := state.output ++ text } :=
  ⟨fun _ _ h => h, fun _ _ h => h, fun _ h => h, text, rfl⟩

theorem assign (state : State) (name : String) (value : Handle) :
    state.Extends { state with scope := state.scope.set name value } :=
  ⟨fun _ _ h => h, fun _ _ h => h, fun _ h => Bindings.mem_names_set.mpr (.inr h), "",
    String.append_empty.symm⟩

theorem setField (state : State) (id : InstanceId) (name : String) (value : Handle) :
    state.Extends { state with heap := state.heap.setField id name value } := by
  refine ⟨fun other cls hcls => ?_, fun other bound hbound => ?_, fun _ h => h, "",
    String.append_empty.symm⟩
  · rwa [Heap.classOf?_setField]
  · obtain heq | heq := state.heap.fields_setField_cases id other name value
    · rwa [heq]
    · rw [heq]
      exact Bindings.mem_names_set.mpr (.inr hbound)

theorem create (state : State) (cls : ClassId) :
    state.Extends { state with heap := (state.heap.create cls).2 } := by
  refine ⟨fun id found hfound => ?_, fun id name hname => ?_, fun _ h => h, "",
    String.append_empty.symm⟩
  · -- the number of the new instance belongs to no other
    have hid : id ≠ state.heap.instances.size := by
      intro heq
      simp [heq, Heap.classOf?] at hfound
    rwa [Heap.classOf?_create, if_neg hid]
  · obtain heq | ⟨hempty, -⟩ := state.heap.fields_create_cases cls id
    · rwa [heq]
    · rw [hempty] at hname
      cases hname

end State.Extends

end Offside
