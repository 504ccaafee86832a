import Mathlib.Data.List.Forall2
import Offside.Execution.State

/-!
# States that are alike

Two states are alike if they hold the same values under the same names, up to two things that
running does not look at: the serial numbers of the numbers, texts and flags that were made, and
the marks that say which values own their objects.  A `Likeness` says how far these may differ.
`Likeness.Values`, `Likeness.Scopes`, `Likeness.Heaps` and `Likeness.States` lift it to states,
and for everything that is read from a state or written to it there is one lemma.

What is made next in both states always has to be alike (`Likeness.Heaps.made`); that is the only
thing that ties the serial numbers to the heaps.
-/

namespace Offside

/-- How far two states may differ. -/
structure Likeness where
  /-- Which serial numbers may stand for one another. -/
  serials : Nat → Nat → Prop
  /-- Which marks may stand for one another. -/
  marks : Bool → Bool → Prop
  /-- Every mark may stand for itself. -/
  marks_self : ∀ owning, marks owning owning

namespace Likeness

variable (likeness : Likeness)

/-- Origins that may stand for one another. -/
inductive Origins : Origin → Origin → Prop
  | literal (source index : Nat) : Origins (.literal source index) (.literal source index)
  | made {serial other : Nat} (h : likeness.serials serial other) :
      Origins (.made serial) (.made other)

/-- Objects that are the same up to their origins. -/
inductive Objects : Object → Object → Prop
  | number {origin other : Origin} (h : likeness.Origins origin other) (value : Int) :
      Objects (.number origin value) (.number other value)
  | text {origin other : Origin} (h : likeness.Origins origin other) (content : String) :
      Objects (.text origin content) (.text other content)
  | flag {origin other : Origin} (h : likeness.Origins origin other) (value : Bool) :
      Objects (.flag origin value) (.flag other value)
  | ofClass (id : ClassId) : Objects (.ofClass id) (.ofClass id)
  | ofInstance (id : InstanceId) : Objects (.ofInstance id) (.ofInstance id)

/-- Values that are the same up to origins and marks. -/
inductive Values : Handle → Handle → Prop
  | empty : Values .empty .empty
  | holding {object other : Object} {owning mark : Bool} (h : likeness.Objects object other)
      (hmark : likeness.marks owning mark) : Values (.holding object owning) (.holding other mark)
  | returned {value other : Handle} (h : Values value other) :
      Values (.returned value) (.returned other)

/-- The same name with values that are alike. -/
def Entries (entry other : String × Handle) : Prop :=
  entry.1 = other.1 ∧ likeness.Values entry.2 other.2

/-- Scopes that bind the same names, in the same order, to values that are alike. -/
def Scopes (scope other : Scope) : Prop :=
  List.Forall₂ likeness.Entries scope.entries other.entries

/-- Instances of the same class whose fields are alike. -/
structure Instances (one other : Instance) : Prop where
  cls : one.cls = other.cls
  fields : likeness.Scopes one.fields other.fields

/-- Heaps of as many instances that are alike, where what is made next is alike too. -/
structure Heaps (heap other : Heap) : Prop where
  size : heap.instances.size = other.instances.size
  instances : ∀ id : InstanceId, Option.Rel likeness.Instances heap.instances[id]?
    other.instances[id]?
  made : ∀ count, likeness.serials (heap.made + count) (other.made + count)
  address : heap.address = other.address

/-- States that are alike; what was written in them is the same. -/
structure States (state other : State) : Prop where
  heap : likeness.Heaps state.heap other.heap
  scope : likeness.Scopes state.scope other.scope
  output : state.output = other.output

variable {likeness}

/-! ## Values -/

/-- A value that holds an object that belongs to no origin is like itself. -/
theorem Values.ofInstance (id : InstanceId) (owning : Bool) :
    likeness.Values (.holding (.ofInstance id) owning) (.holding (.ofInstance id) owning) :=
  .holding (.ofInstance id) (likeness.marks_self owning)

/-! ## Scopes -/

theorem scopes_empty : likeness.Scopes .empty .empty :=
  .nil

/-- A name that is bound in one scope is bound in the other, to a value that is alike. -/
theorem Scopes.get? {scope other : Scope} (h : likeness.Scopes scope other) (name : String) :
    Option.Rel likeness.Values (scope.get? name) (other.get? name) := by
  obtain ⟨entries⟩ := scope
  obtain ⟨others⟩ := other
  simp only [Scopes] at h
  simp only [Bindings.get?]
  induction h with
  | nil => exact .none
  | @cons entry twin entries others hentry _ ih =>
      obtain ⟨hname, hvalue⟩ := hentry
      rw [Bindings.find?, Bindings.find?, hname]
      split
      · exact .some hvalue
      · exact ih

/-- Binding a name to values that are alike leaves scopes alike. -/
theorem Scopes.set {scope other : Scope} (h : likeness.Scopes scope other) (name : String)
    {value twin : Handle} (hvalue : likeness.Values value twin) :
    likeness.Scopes (scope.set name value) (other.set name twin) := by
  obtain ⟨entries⟩ := scope
  obtain ⟨others⟩ := other
  simp only [Scopes, Bindings.set] at h ⊢
  induction h with
  | nil => exact .cons ⟨rfl, hvalue⟩ .nil
  | cons hentry hrest ih =>
      rw [Bindings.replace, Bindings.replace, hentry.1]
      split
      · exact .cons ⟨rfl, hvalue⟩ hrest
      · exact .cons ⟨rfl, hentry.2⟩ ih

/-- Binding names to values that are alike leaves scopes alike. -/
theorem Scopes.setAll {scope other : Scope} (h : likeness.Scopes scope other)
    {names : List String} {values twins : List Handle}
    (hvalues : List.Forall₂ likeness.Values values twins) :
    likeness.Scopes (scope.setAll (names.zip values)) (other.setAll (names.zip twins)) := by
  induction hvalues generalizing names scope other with
  | nil =>
      rw [List.zip_nil_right]
      exact h
  | cons hvalue _ ih =>
      cases names with
      | nil => exact h
      | cons name names => exact ih (h.set name hvalue)

/-! ## Heaps -/

namespace Heaps

variable {heap other : Heap} (h : likeness.Heaps heap other)
include h

/-- An instance has the same class in both heaps. -/
theorem classOf?_eq (id : InstanceId) : heap.classOf? id = other.classOf? id := by
  have hinstances := h.instances id
  unfold Heap.classOf?
  generalize heap.instances[id]? = one, other.instances[id]? = two at hinstances ⊢
  cases hinstances with
  | none => rfl
  | some hinstance => exact congrArg some hinstance.cls

theorem fields (id : InstanceId) : likeness.Scopes (heap.fields id) (other.fields id) := by
  have hinstances := h.instances id
  unfold Heap.fields
  generalize heap.instances[id]? = one, other.instances[id]? = two at hinstances ⊢
  cases hinstances with
  | none => exact scopes_empty
  | some hinstance => exact hinstance.fields

/-- Binding a field to values that are alike leaves heaps alike. -/
theorem setField (id : InstanceId) (name : String) {value twin : Handle}
    (hvalue : likeness.Values value twin) :
    likeness.Heaps (heap.setField id name value) (other.setField id name twin) := by
  refine ⟨?_, fun index => ?_, h.made, h.address⟩
  · simp only [Heap.setField, Array.size_modify, h.size]
  · simp only [Heap.setField, Array.getElem?_modify]
    split
    · have hinstances := h.instances index
      generalize heap.instances[index]? = one, other.instances[index]? = two at hinstances ⊢
      cases hinstances with
      | none => exact .none
      | some hinstance => exact .some ⟨hinstance.cls, hinstance.fields.set name hvalue⟩
    · exact h.instances index

/-- Both heaps give the next instance the same number. -/
theorem create (cls : ClassId) :
    (heap.create cls).1 = (other.create cls).1 ∧
      likeness.Heaps (heap.create cls).2 (other.create cls).2 := by
  refine ⟨h.size, ?_, fun index => ?_, h.made, h.address⟩
  · simp only [Heap.create, Array.size_push, h.size]
  · simp only [Heap.create, Array.getElem?_push, h.size]
    split
    · exact .some ⟨rfl, scopes_empty.set Heap.selfName (.ofInstance _ _)⟩
    · exact h.instances index

/-- What both heaps make next is alike. -/
theorem make {build : Origin → Object}
    (hbuild : ∀ {origin twin : Origin}, likeness.Origins origin twin →
      likeness.Objects (build origin) (build twin)) :
    likeness.Objects (heap.make build).1 (other.make build).1 ∧
      likeness.Heaps (heap.make build).2 (other.make build).2 := by
  refine ⟨hbuild (.made (h.made 0)), h.size, h.instances, fun count => ?_, h.address⟩
  simpa only [Heap.make, Nat.add_assoc, Nat.add_comm 1] using h.made (count + 1)

end Heaps

/-! ## Reflexivity -/

section

variable (hserials : ∀ serial, likeness.serials serial serial)
include hserials

theorem origins_refl (origin : Origin) : likeness.Origins origin origin := by
  cases origin with
  | literal source index => exact .literal source index
  | made serial => exact .made (hserials serial)

/-- If serial numbers stand for themselves, every object is like itself. -/
theorem objects_refl (object : Object) : likeness.Objects object object := by
  cases object with
  | number origin value => exact .number (origins_refl hserials origin) value
  | text origin content => exact .text (origins_refl hserials origin) content
  | flag origin value => exact .flag (origins_refl hserials origin) value
  | ofClass id => exact .ofClass id
  | ofInstance id => exact .ofInstance id

theorem values_refl (value : Handle) : likeness.Values value value := by
  induction value with
  | empty => exact .empty
  | holding object owning =>
      exact .holding (objects_refl hserials object) (likeness.marks_self owning)
  | returned value ih => exact .returned ih

theorem scopes_refl (scope : Scope) : likeness.Scopes scope scope :=
  List.forall₂_same.mpr fun entry _ => ⟨rfl, values_refl hserials entry.2⟩

/-- If serial numbers stand for themselves, every state is like itself. -/
theorem states_refl (state : State) : likeness.States state state := by
  refine ⟨⟨rfl, fun id => ?_, fun count => hserials _, rfl⟩, scopes_refl hserials state.scope, rfl⟩
  cases state.heap.instances[id]? with
  | none => exact .none
  | some found => exact .some ⟨rfl, scopes_refl hserials found.fields⟩

end

end Likeness

end Offside
