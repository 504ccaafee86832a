import Offside.Proofs.Execution.Growth
import Offside.Proofs.Execution.Likeness
import Offside.Proofs.Execution.Pairing

/-!
# Running in states that are alike

Running looks neither at serial numbers nor at marks, so from states that are alike it comes to
the same end.  A likeness is a pairing (`Likeness.pairing`): whatever reads or writes a state does
the same in both.  The two runs here are runs of one tree with one class table.

A literal gives one and the same object in both states, so of all literals it is asked that they
are like themselves.
-/

namespace Offside

/-! ## One tree -/

variable {literals : Set Object}

namespace Node

variable {related : Object → Object → Prop}

mutual

/-- A tree differs from itself in nothing, if its literals are related to themselves. -/
theorem alike_self (hliterals : ∀ object ∈ literals, related object object) (node : Node)
    (h : node.LiteralsIn literals) : node.Alike related node := by
  have hliteral {object : Object} (hnode : node.literal? = some object) : related object object :=
    hliterals object (h.mem hnode)
  cases node with
  | number => exact .number (hliteral rfl)
  | text => exact .text (hliteral rfl)
  | flag => exact .flag (hliteral rfl)
  | absent => exact .absent
  | «variable» name fields => exact .variable name fields
  | classDefinition cls => exact .classDefinition cls
  | arithmetic operator left right =>
      exact .arithmetic operator (alike_self hliterals left (h.operand (by simp [operands])))
        (alike_self hliterals right (h.operand (by simp [operands])))
  | connective word left right =>
      exact .connective word (alike_self hliterals left (h.operand (by simp [operands])))
        (alike_self hliterals right (h.operand (by simp [operands])))
  | comparison relation left right =>
      exact .comparison relation (alike_self hliterals left (h.operand (by simp [operands])))
        (alike_self hliterals right (h.operand (by simp [operands])))
  | negation operand =>
      exact .negation (alike_self hliterals operand (h.operand (by simp [operands])))
  | stringify operand =>
      exact .stringify (alike_self hliterals operand (h.operand (by simp [operands])))
  | call receiver name arguments =>
      exact .call name (alike_self hliterals receiver (h.operand (by simp [operands])))
        (alike_self_all hliterals arguments fun argument hmem =>
          h.operand (List.mem_cons_of_mem receiver hmem))
  | create cls arguments =>
      exact .create cls (alike_self_all hliterals arguments fun argument hmem => h.operand hmem)
  | assign name value =>
      exact .assign name (alike_self hliterals value (h.operand (by simp [operands])))
  | assignField object field value =>
      exact .assignField field (alike_self hliterals object (h.operand (by simp [operands])))
        (alike_self hliterals value (h.operand (by simp [operands])))
  | print arguments =>
      exact .print (alike_self_all hliterals arguments fun argument hmem => h.operand hmem)
  | block statements =>
      exact .block (alike_self_all hliterals statements fun statement hmem => h.branch hmem)
  | giveBack value =>
      exact .giveBack (alike_self hliterals value (h.operand (by simp [operands])))
  | body block => exact .body (alike_self hliterals block (h.branch (by simp [branches])))
  | ifThen condition consequent =>
      exact .ifThen (alike_self hliterals condition (h.operand (by simp [operands])))
        (alike_self hliterals consequent (h.branch (by simp [branches])))
  | ifThenElse condition consequent alternative =>
      exact .ifThenElse (alike_self hliterals condition (h.operand (by simp [operands])))
        (alike_self hliterals consequent (h.branch (by simp [branches])))
        (alike_self hliterals alternative (h.branch (by simp [branches])))

theorem alike_self_all (hliterals : ∀ object ∈ literals, related object object)
    (nodes : List Node) (h : ∀ node ∈ nodes, node.LiteralsIn literals) :
    List.Forall₂ (Alike related) nodes nodes := by
  cases nodes with
  | nil => exact .nil
  | cons node nodes =>
      obtain ⟨hnode, hothers⟩ := List.forall_mem_cons.mp h
      exact .cons (alike_self hliterals node hnode) (alike_self_all hliterals nodes hothers)

end

end Node

/-- A class table is related to itself, if the bodies of its methods are. -/
theorem Classes.LiteralsIn.related {classes : Classes} {nodes : Node → Node → Prop}
    (hclasses : classes.LiteralsIn literals)
    (hnodes : ∀ node : Node, node.LiteralsIn literals → nodes node node) :
    classes.Related nodes classes := by
  refine ⟨rfl, fun id name => ?_⟩
  cases hmethod : classes.resolve id name with
  | none => exact .none
  | some method =>
      obtain ⟨owner, record, hrecord, hmem⟩ := exists_of_resolve hmethod
      exact .some ⟨rfl, hnodes _ (hclasses owner record hrecord method hmem)⟩

namespace Likeness

open Run

variable {likeness : Likeness} {classes : Classes} {run : Node → Run Handle}

/-! ## The pairing -/

theorem Objects.alike {object twin : Object} (h : likeness.Objects object twin) :
    object.Alike twin := by
  cases h with
  | number => exact .number _ _ _
  | text => exact .text _ _ _
  | flag => exact .flag _ _ _
  | ofClass id => exact .ofClass id
  | ofInstance id => exact .ofInstance id

theorem Values.oneKind {value twin : Handle} (h : likeness.Values value twin) :
    Handle.OneKind likeness.Values value twin := by
  cases h with
  | empty => exact .empty
  | holding hobject => exact .holding _ _ hobject.alike
  | returned hinner => exact .returned hinner

theorem coincide_readField (id : InstanceId) (name : String) :
    Coincide likeness.States likeness.Values (readField id name) (readField id name) := by
  intro state twin hstate
  have hfield := (hstate.heap.fields id).get? name
  unfold readField
  generalize (state.heap.fields id).get? name = one, (twin.heap.fields id).get? name = two
    at hfield ⊢
  cases hfield with
  | none => exact .ok .empty ⟨hstate.heap.setField id name .empty, hstate.scope, hstate.output⟩
  | some hvalue => exact .ok hvalue hstate

/-- What is made in both states is alike, if only its origin tells how it was made. -/
theorem coincide_make {build : Origin → Object}
    (hbuild : ∀ {origin twin : Origin}, likeness.Origins origin twin →
      likeness.Objects (build origin) (build twin)) :
    Coincide likeness.States likeness.Values (make build) (make build) := by
  intro state twin hstate
  obtain ⟨hobject, hheap⟩ := hstate.heap.make hbuild
  exact .ok (.holding hobject (likeness.marks_self true)) ⟨hheap, hstate.scope, hstate.output⟩

theorem coincide_create (cls : ClassId) :
    Coincide likeness.States Eq (create cls) (create cls) := by
  intro state twin hstate
  obtain ⟨hid, hheap⟩ := hstate.heap.create cls
  exact .ok hid ⟨hheap, hstate.scope, hstate.output⟩

theorem scopes_frame (receiver : InstanceId) (parameters : List String)
    {values twins : List Handle} (h : List.Forall₂ likeness.Values values twins) :
    likeness.Scopes (frame receiver parameters values) (frame receiver parameters twins) :=
  (scopes_empty.set Heap.selfName (.ofInstance receiver false)).setAll h

/-- States that are alike stay alike, whatever reads or writes them. -/
def pairing (likeness : Likeness) : Pairing where
  states := likeness.States
  values := likeness.Values
  oneKind h := h.oneKind
  empty := .empty
  returned h := .returned h
  ofClass cls := .holding (.ofClass cls) (likeness.marks_self true)
  ofInstance id := .ofInstance id true
  classOf? h id := h.heap.classOf?_eq id
  address h := h.heap.address
  bound h name := h.scope.get? name
  write text _ _ h := .ok rfl ⟨h.heap, h.scope, congrArg (· ++ text) h.output⟩
  assign name _ _ hvalue _ _ h := .ok rfl ⟨h.heap, h.scope.set name hvalue, h.output⟩
  assignField id field _ _ hvalue _ _ h :=
    .ok rfl ⟨h.heap.setField id field hvalue, h.scope, h.output⟩
  readField := coincide_readField
  makeNumber value := coincide_make fun h => .number h value
  makeText content := coincide_make fun h => .text h content
  makeFlag value := coincide_make fun h => .flag h value
  create := coincide_create
  enter h receiver parameters _ _ hvalues :=
    ⟨h.heap, scopes_frame receiver parameters hvalues, h.output⟩
  leave h hafter := ⟨hafter.heap, h.scope, hafter.output⟩

/-! ## Running -/

theorem coincide_truth {value other : Handle} (h : likeness.Values value other) :
    Coincide likeness.States Eq (truth value) (truth other) :=
  likeness.pairing.coincide_truth h

/-- From states that are alike, running a node with these literals comes to results that are
alike. -/
def Follows (likeness : Likeness) (literals : Set Object) (run : Node → Run Handle) : Prop :=
  ∀ {node : Node}, node.LiteralsIn literals →
    Coincide likeness.States likeness.Values (run node) (run node)

/-- The nodes with these literals, each paired with itself. -/
def Selfsame (literals : Set Object) (node twin : Node) : Prop :=
  node = twin ∧ node.LiteralsIn literals

theorem selfsame_related (hclasses : classes.LiteralsIn literals) :
    classes.Related (Selfsame literals) classes :=
  hclasses.related fun _ hnode => ⟨rfl, hnode⟩

theorem Follows.pairing (hrun : likeness.Follows literals run) :
    likeness.pairing.Follows (Selfsame literals) run run := by
  rintro node _ ⟨rfl, hnode⟩
  exact hrun hnode

section

variable (hclasses : classes.LiteralsIn literals) (hrun : likeness.Follows literals run)
include hclasses hrun

theorem coincide_call (receiver : InstanceId) (name : String) {values twins : List Handle}
    (h : List.Forall₂ likeness.Values values twins) :
    Coincide likeness.States likeness.Values (call classes run receiver name values)
      (call classes run receiver name twins) :=
  likeness.pairing.coincide_call (selfsame_related hclasses) hrun.pairing receiver name h

theorem coincide_display (fuel : Nat) {value other : Handle} (h : likeness.Values value other) :
    Coincide likeness.States Eq (display classes run fuel value)
      (display classes run fuel other) :=
  likeness.pairing.coincide_display (selfsame_related hclasses) hrun.pairing fuel h

theorem coincide_compare (relation : Relation) {left other right twin : Handle}
    (hleft : likeness.Values left other) (hright : likeness.Values right twin) :
    Coincide likeness.States Eq (compare classes run relation left right)
      (compare classes run relation other twin) :=
  likeness.pairing.coincide_compare (selfsame_related hclasses) hrun.pairing relation hleft hright

end

/-- Whatever the fuel, running a node in states that are alike comes to results that are alike. -/
theorem execute_follows (hliterals : ∀ object ∈ literals, likeness.Objects object object)
    (hclasses : classes.LiteralsIn literals) (fuel : Nat) :
    likeness.Follows literals (execute classes fuel) := by
  intro node hnode
  have hself (part : Node) (hpart : part.LiteralsIn literals) :
      part.Alike likeness.pairing.Literals part :=
    part.alike_self (fun object hobject => .holding (hliterals object hobject)
      (likeness.marks_self false)) hpart
  exact likeness.pairing.execute_follows (hclasses.related hself) fuel (hself node hnode)

end Likeness

end Offside
