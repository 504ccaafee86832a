import Offside.Proofs.Execution.Pairing
import Offside.Proofs.Tree.Inheritance
import Offside.Proofs.Tree.Shape

/-!
# Running does not look at origins

Two readings of one program give trees that differ in the origins of their literals, so the values
that they compute with differ in their origins too.  `Handle.Alike` and `State.Alike` say that
nothing else differs.

A `Likeness` does not cover this, because its two runs are runs of one tree, whose literals stand
for themselves.  But origins do not matter to a pairing either (`Pairing.upToOrigins`), and for a
pairing the two trees may have literals of their own: trees of one shape run alike with class
tables of one shape (`execute_coincides`).
-/

namespace Offside

/-! ## Without origins -/

/-- The object without its origin. -/
def Object.bare : Object → Object
  | number _ value => .number (.made 0) value
  | text _ content => .text (.made 0) content
  | flag _ value => .flag (.made 0) value
  | ofClass id => .ofClass id
  | ofInstance id => .ofInstance id

/-- The value with its object without origin. -/
def Handle.bare : Handle → Handle
  | empty => .empty
  | holding object owning => .holding object.bare owning
  | returned value => .returned value.bare

/-- The scope with all values without origins. -/
def Scope.bare (scope : Scope) : Scope :=
  ⟨scope.entries.map fun entry => (entry.1, entry.2.bare)⟩

/-- The instances with all their fields without origins, where they lie, and no count of what was
made. -/
def Heap.bare (heap : Heap) : Heap :=
  ⟨heap.instances.map fun found => ⟨found.cls, Scope.bare found.fields⟩, 0, heap.address⟩

/-- Values that differ in origins at most. -/
def Handle.Alike (value twin : Handle) : Prop :=
  value.bare = twin.bare

/-- States that differ in origins at most. -/
structure State.Alike (state twin : State) : Prop where
  heap : state.heap.bare = twin.heap.bare
  scope : Scope.bare state.scope = Scope.bare twin.scope
  output : state.output = twin.output

/-! ## Objects and values -/

namespace Object

variable {object twin : Object}

theorem alike_of_bare_eq (h : object.bare = twin.bare) : object.Alike twin := by
  cases object <;> cases twin <;> simp only [bare, reduceCtorEq, number.injEq, text.injEq,
    flag.injEq, ofClass.injEq, ofInstance.injEq, true_and] at h <;> subst h <;> constructor

theorem Alike.bare_eq (h : object.Alike twin) : object.bare = twin.bare := by
  cases h <;> rfl

end Object

theorem Handle.Alike.holding {object twin : Object} (h : object.Alike twin) (owning : Bool) :
    Handle.Alike (.holding object owning) (.holding twin owning) :=
  congrArg (Handle.holding · owning) h.bare_eq

/-! ## Scopes -/

namespace Scope

variable {scope twin : Scope}

@[simp] theorem get?_bare (scope : Scope) (name : String) :
    (Scope.bare scope).get? name = (scope.get? name).map Handle.bare := by
  obtain ⟨entries⟩ := scope
  simp only [Scope.bare, Bindings.get?]
  induction entries with
  | nil => rfl
  | cons entry entries ih =>
      obtain ⟨bound, value⟩ := entry
      rw [List.map_cons, Bindings.find?, Bindings.find?, ih]
      split <;> rfl

@[simp] theorem bare_set (scope : Scope) (name : String) (value : Handle) :
    Scope.bare (scope.set name value) = (Scope.bare scope).set name value.bare := by
  obtain ⟨entries⟩ := scope
  simp only [Scope.bare, Bindings.set, Bindings.mk.injEq]
  induction entries with
  | nil => rfl
  | cons entry entries ih =>
      obtain ⟨bound, old⟩ := entry
      rw [List.map_cons, Bindings.replace, Bindings.replace]
      split
      · rfl
      · rw [List.map_cons, ih]

@[simp] theorem bare_setAll (scope : Scope) (names : List String) (values : List Handle) :
    Scope.bare (scope.setAll (names.zip values)) =
      (Scope.bare scope).setAll (names.zip (values.map Handle.bare)) := by
  induction values generalizing scope names with
  | nil => simp
  | cons value values ih =>
      cases names with
      | nil => rfl
      | cons name names =>
          rw [List.map_cons, List.zip_cons_cons, List.zip_cons_cons, Bindings.setAll_cons,
            Bindings.setAll_cons, ih, bare_set]

/-- A name that is bound in one scope is bound in the other. -/
theorem get?_alike (h : Scope.bare scope = Scope.bare twin) (name : String) :
    Option.Rel Handle.Alike (scope.get? name) (twin.get? name) := by
  have hvalues : (scope.get? name).map Handle.bare = (twin.get? name).map Handle.bare := by
    rw [← get?_bare, ← get?_bare, h]
  generalize scope.get? name = one, twin.get? name = two at hvalues ⊢
  cases one <;> cases two <;> simp only [Option.map_none, Option.map_some, reduceCtorEq,
    Option.some.injEq] at hvalues
  · exact .none
  · exact .some hvalues

end Scope

/-! ## Heaps -/

namespace Heap

variable {heap twin : Heap}

@[simp] theorem classOf?_bare (heap : Heap) (id : InstanceId) :
    heap.bare.classOf? id = heap.classOf? id := by
  unfold classOf? bare
  rw [Array.getElem?_map, Option.map_map]
  rfl

theorem classOf?_eq (h : heap.bare = twin.bare) (id : InstanceId) :
    heap.classOf? id = twin.classOf? id := by
  rw [← classOf?_bare, h, classOf?_bare]

theorem address_eq (h : heap.bare = twin.bare) : heap.address = twin.address := by
  have haddress : heap.bare.address = twin.bare.address := by rw [h]
  exact haddress

@[simp] theorem fields_bare (heap : Heap) (id : InstanceId) :
    heap.bare.fields id = Scope.bare (heap.fields id) := by
  unfold fields bare
  rw [Array.getElem?_map]
  cases heap.instances[id]? <;> rfl

@[simp] theorem bare_setField (heap : Heap) (id : InstanceId) (name : String) (value : Handle) :
    (heap.setField id name value).bare = heap.bare.setField id name value.bare := by
  simp only [bare, setField, mk.injEq, and_true]
  refine Array.ext_getElem? fun index => ?_
  simp only [Array.getElem?_map, Array.getElem?_modify]
  split
  · cases heap.instances[index]? with
    | none => rfl
    | some found => simp [Scope.bare_set]
  · rfl

@[simp] theorem bare_create (heap : Heap) (cls : ClassId) :
    (heap.create cls).2.bare = (heap.bare.create cls).2 := by
  simp only [bare, create, Array.map_push, Array.size_map]
  rfl

theorem create_eq (h : heap.bare = twin.bare) (cls : ClassId) :
    (heap.create cls).1 = (twin.create cls).1 := by
  have hsize := congrArg (fun bare => bare.instances.size) h
  simp only [bare, Array.size_map] at hsize
  exact hsize

end Heap

/-! ## The pairing -/

namespace Handle

theorem Alike.oneKind {value twin : Handle} (h : value.Alike twin) :
    OneKind Alike value twin := by
  cases value <;> cases twin <;> simp only [Alike, bare, reduceCtorEq, holding.injEq,
    returned.injEq] at h
  · exact .empty
  · exact .holding _ _ (Object.alike_of_bare_eq h.1)
  · exact .returned h

end Handle

open Run

theorem Scope.bare_frame (receiver : InstanceId) (parameters : List String)
    (values : List Handle) :
    Scope.bare (frame receiver parameters values) =
      frame receiver parameters (values.map Handle.bare) :=
  (bare_setAll _ parameters values).trans (by rw [bare_set]; rfl)

namespace State.Alike

variable {state twin : State}

theorem readField (id : InstanceId) (field : String) :
    Coincide State.Alike Handle.Alike (readField id field) (readField id field) := by
  intro state twin h
  have hfields : Scope.bare (state.heap.fields id) = Scope.bare (twin.heap.fields id) := by
    rw [← Heap.fields_bare, h.heap, Heap.fields_bare]
  have hfield := Scope.get?_alike hfields field
  unfold Run.readField
  generalize (state.heap.fields id).get? field = one, (twin.heap.fields id).get? field = two
    at hfield ⊢
  cases hfield with
  | none =>
      refine .ok rfl ⟨?_, h.scope, h.output⟩
      rw [Heap.bare_setField, h.heap, Heap.bare_setField]
  | some hvalue => exact .ok hvalue h

/-- What is made differs in its origin at most. -/
theorem make {build : Origin → Object} (hbuild : ∀ origin twin, (build origin).Alike (build twin)) :
    Coincide State.Alike Handle.Alike (Run.make build) (Run.make build) :=
  fun _ _ h => .ok (.holding (hbuild _ _) true) ⟨h.heap, h.scope, h.output⟩

theorem create (cls : ClassId) : Coincide State.Alike Eq (Run.create cls) (Run.create cls) := by
  intro state twin h
  have hheap : (state.heap.create cls).2.bare = (twin.heap.create cls).2.bare := by
    rw [Heap.bare_create, h.heap, Heap.bare_create]
  exact .ok (Heap.create_eq h.heap cls) ⟨hheap, h.scope, h.output⟩

end State.Alike

/-- Whatever reads or writes states does the same in states that differ in origins at most. -/
def Pairing.upToOrigins : Pairing where
  states := State.Alike
  values := Handle.Alike
  oneKind h := h.oneKind
  empty := rfl
  returned h := congrArg Handle.returned h
  ofClass _ := rfl
  ofInstance _ := rfl
  classOf? h id := Heap.classOf?_eq h.heap id
  address h := Heap.address_eq h.heap
  bound h name := Scope.get?_alike h.scope name
  write text _ _ h := .ok rfl ⟨h.heap, h.scope, congrArg (· ++ text) h.output⟩
  assign name value twin hvalue _ _ h := .ok rfl ⟨h.heap, by
    rw [Scope.bare_set, h.scope, hvalue, Scope.bare_set], h.output⟩
  assignField id field value twin hvalue _ _ h := .ok rfl ⟨by
    rw [Heap.bare_setField, h.heap, hvalue, Heap.bare_setField], h.scope, h.output⟩
  readField := State.Alike.readField
  makeNumber value := State.Alike.make fun origin twin => .number origin twin value
  makeText content := State.Alike.make fun origin twin => .text origin twin content
  makeFlag value := State.Alike.make fun origin twin => .flag origin twin value
  create := State.Alike.create
  enter h receiver parameters arguments others hvalues := ⟨h.heap, by
    have hbare : arguments.map Handle.bare = others.map Handle.bare := by
      induction hvalues with
      | nil => rfl
      | cons hvalue _ ih => rw [List.map_cons, List.map_cons, hvalue, ih]
    rw [Scope.bare_frame, hbare, Scope.bare_frame], h.output⟩
  leave h hafter := ⟨hafter.heap, h.scope, hafter.output⟩

/-! ## Trees of one shape -/

namespace Node

variable {related : Object → Object → Prop}

mutual

/-- Trees of one shape differ in the origins of their literals at most. -/
theorem alike_of_mirrors (hrelated : ∀ object twin, object.Alike twin → related object twin)
    (node twin : Node) (h : node.Mirrors id twin) : node.Alike related twin := by
  unfold Mirrors at h
  cases node with
  | number origin value =>
      cases twin with
      | number other =>
          obtain ⟨-, rfl⟩ := Node.number.inj h
          exact .number (hrelated _ _ (.number origin other value))
      | _ => cases h
  | text origin content =>
      cases twin with
      | text other =>
          obtain ⟨-, rfl⟩ := Node.text.inj h
          exact .text (hrelated _ _ (.text origin other content))
      | _ => cases h
  | flag origin value =>
      cases twin with
      | flag other =>
          obtain ⟨-, rfl⟩ := Node.flag.inj h
          exact .flag (hrelated _ _ (.flag origin other value))
      | _ => cases h
  | absent =>
      cases twin with
      | absent =>
          exact .absent
      | _ => cases h
  | «variable» name fields =>
      cases twin with
      | «variable» =>
          obtain ⟨rfl, rfl⟩ := Node.variable.inj h
          exact .variable name fields
      | _ => cases h
  | classDefinition cls =>
      cases twin with
      | classDefinition =>
          obtain rfl := Node.classDefinition.inj h
          exact .classDefinition cls
      | _ => cases h
  | arithmetic operator left right =>
      cases twin with
      | arithmetic =>
          obtain ⟨rfl, hleft, hright⟩ := Node.arithmetic.inj h
          exact .arithmetic operator (alike_of_mirrors hrelated _ _ hleft)
            (alike_of_mirrors hrelated _ _ hright)
      | _ => cases h
  | connective word left right =>
      cases twin with
      | connective =>
          obtain ⟨rfl, hleft, hright⟩ := Node.connective.inj h
          exact .connective word (alike_of_mirrors hrelated _ _ hleft)
            (alike_of_mirrors hrelated _ _ hright)
      | _ => cases h
  | comparison relation left right =>
      cases twin with
      | comparison =>
          obtain ⟨rfl, hleft, hright⟩ := Node.comparison.inj h
          exact .comparison relation (alike_of_mirrors hrelated _ _ hleft)
            (alike_of_mirrors hrelated _ _ hright)
      | _ => cases h
  | negation inner =>
      cases twin with
      | negation =>
          exact .negation (alike_of_mirrors hrelated _ _ (Node.negation.inj h))
      | _ => cases h
  | stringify inner =>
      cases twin with
      | stringify =>
          exact .stringify (alike_of_mirrors hrelated _ _ (Node.stringify.inj h))
      | _ => cases h
  | giveBack inner =>
      cases twin with
      | giveBack =>
          exact .giveBack (alike_of_mirrors hrelated _ _ (Node.giveBack.inj h))
      | _ => cases h
  | body inner =>
      cases twin with
      | body =>
          exact .body (alike_of_mirrors hrelated _ _ (Node.body.inj h))
      | _ => cases h
  | call receiver name arguments =>
      cases twin with
      | call =>
          obtain ⟨hreceiver, rfl, harguments⟩ := Node.call.inj h
          exact .call name (alike_of_mirrors hrelated _ _ hreceiver)
            (alike_of_mirrorsAll hrelated _ _ harguments)
      | _ => cases h
  | create cls arguments =>
      cases twin with
      | create =>
          obtain ⟨rfl, harguments⟩ := Node.create.inj h
          exact .create cls (alike_of_mirrorsAll hrelated _ _ harguments)
      | _ => cases h
  | print nodes =>
      cases twin with
      | print =>
          exact .print (alike_of_mirrorsAll hrelated _ _ (Node.print.inj h))
      | _ => cases h
  | block nodes =>
      cases twin with
      | block =>
          exact .block (alike_of_mirrorsAll hrelated _ _ (Node.block.inj h))
      | _ => cases h
  | assign name value =>
      cases twin with
      | assign =>
          obtain ⟨rfl, hvalue⟩ := Node.assign.inj h
          exact .assign name (alike_of_mirrors hrelated _ _ hvalue)
      | _ => cases h
  | assignField object field value =>
      cases twin with
      | assignField =>
          obtain ⟨hobject, rfl, hvalue⟩ := Node.assignField.inj h
          exact .assignField field (alike_of_mirrors hrelated _ _ hobject)
            (alike_of_mirrors hrelated _ _ hvalue)
      | _ => cases h
  | ifThen condition consequent =>
      cases twin with
      | ifThen =>
          obtain ⟨hcondition, hconsequent⟩ := Node.ifThen.inj h
          exact .ifThen (alike_of_mirrors hrelated _ _ hcondition)
            (alike_of_mirrors hrelated _ _ hconsequent)
      | _ => cases h
  | ifThenElse condition consequent alternative =>
      cases twin with
      | ifThenElse =>
          obtain ⟨hcondition, hconsequent, halternative⟩ := Node.ifThenElse.inj h
          exact .ifThenElse (alike_of_mirrors hrelated _ _ hcondition)
            (alike_of_mirrors hrelated _ _ hconsequent)
            (alike_of_mirrors hrelated _ _ halternative)
      | _ => cases h

theorem alike_of_mirrorsAll (hrelated : ∀ object twin, object.Alike twin → related object twin)
    (nodes twins : List Node) (h : MirrorsAll id nodes twins) :
    List.Forall₂ (Alike related) nodes twins := by
  cases nodes with
  | nil => cases twins with
    | nil => exact .nil
    | cons => cases h
  | cons node nodes =>
      cases twins with
      | nil => cases h
      | cons twin twins =>
          obtain ⟨hnode, hothers⟩ := List.cons.inj h
          exact .cons (alike_of_mirrors hrelated node twin hnode)
            (alike_of_mirrorsAll hrelated nodes twins hothers)

end

end Node

/-! ## Class tables of one shape -/

namespace Classes

variable {classes others : Classes}

/-- A method of the same name with the same parameters and a related body. -/
def Copies (nodes : Node → Node → Prop) (method twin : Method) : Prop :=
  method.name = twin.name ∧ method.Related nodes twin

theorem copies_of_shapes {nodes : Node → Node → Prop}
    (hnodes : ∀ node twin : Node, node.Mirrors id twin → nodes node twin)
    {methods twins : List Method}
    (h : methods.map (Method.shape id) = twins.map (Method.shape id)) :
    List.Forall₂ (Copies nodes) methods twins := by
  induction methods generalizing twins with
  | nil =>
      cases twins with
      | nil => exact .nil
      | cons => cases h
  | cons method methods ih =>
      cases twins with
      | nil => cases h
      | cons twin twins =>
          obtain ⟨hmethod, hothers⟩ := List.cons.inj h
          obtain ⟨hname, hparameters, hbody⟩ := Method.mk.inj hmethod
          exact .cons ⟨hname, hparameters, hnodes _ _ hbody⟩ (ih hothers)

/-- In class tables of one shape, names of classes and methods mean the same. -/
theorem Mirrors.related {nodes : Node → Node → Prop}
    (hnodes : ∀ node twin : Node, node.Mirrors id twin → nodes node twin)
    (h : classes.Mirrors others) : classes.Related nodes others := by
  constructor
  · funext cls
    have hrecord := h.get? cls
    unfold nameOf
    generalize classes.get? cls = one, others.get? cls = two at hrecord ⊢
    cases hrecord with
    | none => rfl
    | some hrecord => exact (ClassRecord.mk.inj hrecord).1
  · intro cls name
    have hrecords (cls : ClassId) : Option.Rel (fun record twin => record.parent = twin.parent ∧
        List.Forall₂ (Copies nodes) record.methods twin.methods) (classes.get? cls)
        (others.get? cls) := by
      have hrecord := h.get? cls
      generalize classes.get? cls = one, others.get? cls = two at hrecord ⊢
      cases hrecord with
      | none => exact .none
      | some hrecord =>
          obtain ⟨-, hparent, hmethods⟩ := ClassRecord.mk.inj hrecord
          rw [Option.map_id_apply, Option.map_id_apply] at hparent
          exact .some ⟨hparent, copies_of_shapes hnodes hmethods⟩
    have hmethod := resolve_related (fun _ _ hcopies => hcopies.1) hrecords cls name
    generalize classes.resolve cls name = one, others.resolve cls name = two at hmethod ⊢
    cases hmethod with
    | none => exact .none
    | some hcopies => exact .some hcopies.2

end Classes

/-! ## Running -/

section

variable {classes others : Classes} {node twin : Node}

/-- Whatever the fuel, trees of one shape run alike with class tables of one shape, in states that
differ in origins at most. -/
theorem execute_coincides (hclasses : classes.Mirrors others) (hnode : node.Mirrors id twin)
    (fuel : Nat) :
    Coincide State.Alike Handle.Alike (execute classes fuel node) (execute others fuel twin) := by
  have halike (one two : Node) (h : one.Mirrors id two) :
      one.Alike Pairing.upToOrigins.Literals two :=
    one.alike_of_mirrors (fun _ _ hobject => .holding hobject false) two h
  exact Pairing.execute_follows (hclasses.related halike) fuel (halike node twin hnode)

theorem executeProgram_coincides (hclasses : classes.Mirrors others)
    (hnode : node.Mirrors id twin) (fuel : Nat) :
    Coincide State.Alike Handle.Alike (executeProgram classes fuel node)
      (executeProgram others fuel twin) := by
  refine (execute_coincides hclasses hnode fuel).bind fun value other hvalue => ?_
  cases hvalue.oneKind with
  | empty => exact .pure rfl
  | holding owning mark hobject => exact .pure hvalue
  | returned => exact coincide_fail _

end

end Offside
