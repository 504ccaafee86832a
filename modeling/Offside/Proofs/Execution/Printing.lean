import Offside.Proofs.Execution.Parallel
import Offside.Proofs.Permanence

/-!
# Printing a value and printing its text

Printing nodes and printing the texts of the same nodes come to the same end
(`Run.print_stringify`).  A node that is printed writes to the output of the program, and one whose
text is found writes to a buffer; that these come to the same is shown along the chain of methods
that are asked for a text (`Run.printValue_eq`).

So the two runs do the same up to one thing: for every node, the second one makes a text that
nothing else ever holds.  From there on it is one number ahead in counting what is made, and by the
end it is ahead by as many as there are nodes.

The relation between the two states therefore changes from node to node.  One way is to let all
serial numbers that are new stand for one another (`Likeness.fresh`).  This is possible for any
state.  The other way is to keep account of which serial number became which (`Placement`).  When
the second run makes its text, the places of all serial numbers that are still to come are lifted
by one (`Placement.lift`); this needs that nothing in the state has such a serial number, which is
so if the state has an inventory.

What both ways have in common are the two loops, which only ask that the relation survives a text
(`Run.coincide_print`).
-/

namespace Offside

/-- The places that serial numbers take in another state.  They keep their order, and those before
the start stay where they are. -/
structure Placement (start : Nat) where
  place : Nat → Nat
  strictMono : StrictMono place
  old : ∀ serial < start, place serial = serial

/-- Everything stays where it is. -/
def Placement.same (start : Nat) : Placement start :=
  ⟨id, strictMono_id, fun _ _ => rfl⟩

/-- From a bound on, the places are one higher. -/
def Placement.lift {start : Nat} (placement : Placement start) {bound : Nat}
    (hbound : start ≤ bound) : Placement start where
  place serial := if serial < bound then placement.place serial else placement.place serial + 1
  strictMono := by
    intro serial other hlt
    have hplace := placement.strictMono hlt
    dsimp only
    split <;> split <;> omega
  old serial hlt := by
    rw [if_pos (hlt.trans_le hbound), placement.old serial hlt]

namespace Likeness

/-! ## Two ways to be alike -/

/-- All serial numbers from here on may stand for one another. -/
def fresh (start : Nat) : Likeness where
  serials serial other := serial = other ∨ start ≤ serial ∧ start ≤ other
  marks := Eq
  marks_self _ := rfl

/-- Every serial number stands for the one whose place it takes. -/
def renumbered {start : Nat} (placement : Placement start) : Likeness where
  serials serial other := placement.place serial = other
  marks := Eq
  marks_self _ := rfl

variable {likeness other : Likeness} {literals objects : Set Object}

/-! ## Changing the likeness -/

/-- As far as these objects are concerned, what is alike in one sense is alike in another. -/
structure Refines (objects : Set Object) (likeness other : Likeness) : Prop where
  serials : ∀ object ∈ objects, ∀ serial, object.origin? = some (.made serial) →
    ∀ twin, likeness.serials serial twin → other.serials serial twin
  marks : ∀ owning mark, likeness.marks owning mark → other.marks owning mark

namespace Refines

theorem refl (objects : Set Object) (likeness : Likeness) : Refines objects likeness likeness :=
  ⟨fun _ _ _ _ _ h => h, fun _ _ h => h⟩

variable (hrefines : Refines objects likeness other)
include hrefines

theorem origins {object : Object} {origin twin : Origin} (hobject : object ∈ objects)
    (horigin : object.origin? = some origin) (h : likeness.Origins origin twin) :
    other.Origins origin twin := by
  cases h with
  | literal source index => exact .literal source index
  | made hserial => exact .made (hrefines.serials object hobject _ horigin _ hserial)

theorem object {object twin : Object} (hobject : object.IsIn objects)
    (h : likeness.Objects object twin) : other.Objects object twin := by
  cases h with
  | number horigin value => exact .number (hrefines.origins (hobject rfl) rfl horigin) value
  | text horigin content => exact .text (hrefines.origins (hobject rfl) rfl horigin) content
  | flag horigin value => exact .flag (hrefines.origins (hobject rfl) rfl horigin) value
  | ofClass id => exact .ofClass id
  | ofInstance id => exact .ofInstance id

theorem value {value twin : Handle} (hvalue : value.IsIn objects)
    (h : likeness.Values value twin) : other.Values value twin := by
  induction h with
  | empty => exact .empty
  | holding hobject hmark =>
      exact .holding (hrefines.object hvalue hobject) (hrefines.marks _ _ hmark)
  | returned _ ih => exact .returned (ih hvalue)

theorem scope {scope twin : Scope} (hscope : Scope.IsIn scope objects)
    (h : likeness.Scopes scope twin) : other.Scopes scope twin := by
  obtain ⟨entries⟩ := scope
  obtain ⟨others⟩ := twin
  simp only [Scopes, Scope.IsIn] at h hscope ⊢
  induction h with
  | nil => exact .nil
  | cons hentry _ ih =>
      obtain ⟨hfirst, hothers⟩ := List.forall_mem_cons.mp hscope
      exact .cons ⟨hentry.1, hrefines.value hfirst hentry.2⟩ (ih hothers)

/-- States stay alike when the likeness changes and the second state goes on counting elsewhere,
if what is made from there on is alike. -/
theorem states {state twin : State} (hstate : state.IsIn literals objects)
    (h : likeness.States state twin) {made : Nat}
    (hmade : ∀ count, other.serials (state.heap.made + count) (made + count)) :
    other.States state { twin with heap := { twin.heap with made := made } } := by
  refine ⟨⟨h.heap.size, fun id => ?_, hmade, h.heap.address⟩,
    hrefines.scope hstate.scope h.scope, h.output⟩
  have hfields := hstate.fields id
  have hinstances := h.heap.instances id
  unfold Heap.fields at hfields
  dsimp only
  generalize state.heap.instances[id]? = one, twin.heap.instances[id]? = two
    at hfields hinstances ⊢
  cases hinstances with
  | none => exact .none
  | some hinstance => exact .some ⟨hinstance.cls, hrefines.scope hfields hinstance.fields⟩

end Refines

end Likeness

namespace Run

open Likeness

variable {classes : Classes} {literals objects : Set Object} {likeness : Likeness} {α : Type}
  {related weaker : State → State → Prop} {start : Nat} {state twin : State}

/-! ## Results that are paired -/

theorem Paired.mono {good better : α → α → Prop} {one two : EStateM.Result Stop State α}
    (h : Paired related good one two) (hgood : ∀ value twin, good value twin → better value twin)
    (hrelated : ∀ state twin, related state twin → weaker state twin) :
    Paired weaker better one two := by
  cases h with
  | ok hvalue hstate => exact .ok (hgood _ _ hvalue) (hrelated _ _ hstate)
  | error reason hstate => exact .error reason (hrelated _ _ hstate)

/-- If the states are related in one of several ways, the results are. -/
theorem Paired.exists {ι : Sort*} {choice : ι → State → State → Prop} {good : α → α → Prop}
    {one two : EStateM.Result Stop State α}
    (h : Paired (fun state twin => ∃ index, choice index state twin) good one two) :
    ∃ index, Paired (choice index) good one two := by
  cases h with
  | ok hvalue hstate =>
      obtain ⟨index, hchoice⟩ := hstate
      exact ⟨index, .ok hvalue hchoice⟩
  | error reason hstate =>
      obtain ⟨index, hchoice⟩ := hstate
      exact ⟨index, .error reason hchoice⟩

/-- What is known of the growth of the first state may be used for both. -/
theorem Paired.of_onlyAdds {good : α → α → Prop} {better : α → Set Object → Prop}
    {computation : Run α} {two : EStateM.Result Stop State α}
    (h : Paired related good (computation state) two)
    (hadds : OnlyAdds literals objects computation better state)
    (hrelated : ∀ after twin later, related after twin →
      Grows literals state objects after later → weaker after twin) :
    Paired weaker good (computation state) two := by
  unfold OnlyAdds at hadds
  generalize computation state = one at h hadds ⊢
  cases h with
  | ok hvalue hstate =>
      obtain ⟨later, hgrows, -⟩ := hadds
      exact .ok hvalue (hrelated _ _ later hstate hgrows)
  | error reason hstate =>
      obtain ⟨later, hgrows⟩ := hadds
      exact .error reason (hrelated _ _ later hstate hgrows)

/-! ## The text of a node -/

/-- Runs a node and finds the text of its value. -/
def shown (classes : Classes) (fuel : Nat) (node : Node) : Run String := do
  display classes (execute classes fuel) fuel (← execute classes fuel node)

/-- The text of a text is that text. -/
theorem display_text (run : Node → Run Handle) (depth : Nat) (origin : Origin) (content : String)
    (owning : Bool) :
    display classes run depth (.holding (.text origin content) owning) = pure content := by
  rw [display_eq]
  rfl

/-- The second run makes a text, and uses its content only. -/
theorem shown_stringify (classes : Classes) (fuel : Nat) (node : Node) :
    shown classes (fuel + 1) (.stringify node) = (do
      let content ← shown classes fuel node
      let _ ← makeText content
      return content) := by
  have hmake (content : String) :
      (makeText content >>= display classes (execute classes (fuel + 1)) (fuel + 1)) =
        (makeText content >>= fun _ => pure content) := by
    funext state
    exact congrFun (display_text _ _ _ _ true) _
  have hrun : execute classes (fuel + 1) (.stringify node) =
      shown classes fuel node >>= makeText :=
    (bind_assoc _ _ _).symm
  rw [shown, hrun, bind_assoc]
  exact bind_congr hmake

theorem onlyAdds_shown (hclasses : classes.LiteralsIn literals) (fuel : Nat) {node : Node}
    (hnode : node.LiteralsIn literals) (hstate : state.IsIn literals objects) :
    OnlyAdds literals objects (shown classes fuel node) whatever state :=
  (adds_execute hclasses fuel hnode hstate).bind fun value _ _ _ hafter _ =>
    onlyAdds_display hclasses (adds_execute hclasses fuel) fuel value hafter

theorem coincide_shown (hliterals : ∀ object ∈ literals, likeness.Objects object object)
    (hclasses : classes.LiteralsIn literals) (fuel : Nat) {node : Node}
    (hnode : node.LiteralsIn literals) :
    Coincide likeness.States Eq (shown classes fuel node) (shown classes fuel node) := by
  have hrun : likeness.Follows literals (execute classes fuel) :=
    execute_follows hliterals hclasses fuel
  exact (hrun hnode).bind fun _ _ hvalue => coincide_display hclasses hrun fuel hvalue

/-! ## The loops -/

/-- The relation survives that the second run makes something that it does not use. -/
def Outlives (related : State → State → Prop) : Prop :=
  ∀ state twin, related state twin →
    related state { twin with heap := { twin.heap with made := twin.heap.made + 1 } }

section

variable {nodes : List Node} {fuel : Nat} (hmake : Outlives related)
  (hwrite : ∀ text, Coincide related Eq (write text) (write text))
  (hshown : ∀ node ∈ nodes, Coincide related Eq (shown classes fuel node)
    (shown classes fuel node))
include hmake

omit hwrite hshown in
/-- A node and the text of that node have the same text. -/
theorem coincide_shown_stringify {node : Node}
    (h : Coincide related Eq (shown classes fuel node) (shown classes fuel node)) :
    Coincide related Eq (shown classes fuel node)
      (shown classes (fuel + 1) (.stringify node)) := by
  rw [shown_stringify]
  nth_rewrite 1 [← bind_pure (shown classes fuel node)]
  refine h.bind fun content twin hcontent => ?_
  subst hcontent
  exact fun state twin hstate => .ok rfl (hmake state twin hstate)

include hwrite hshown

theorem coincide_printMore_stringify :
    Coincide related Eq (printMore classes (execute classes fuel) fuel nodes)
      (printMore classes (execute classes (fuel + 1)) (fuel + 1) (nodes.map .stringify)) := by
  induction nodes with
  | nil => exact .pure rfl
  | cons node nodes ih =>
      obtain ⟨hnode, hothers⟩ := List.forall_mem_cons.mp hshown
      rw [List.map_cons, printMore_cons, printMore_cons, ← bind_assoc (execute classes fuel node),
        ← bind_assoc (execute classes (fuel + 1) (.stringify node))]
      refine (hwrite " ").bind fun _ _ _ => ?_
      refine (coincide_shown_stringify hmake hnode).bind fun content _ hcontent => ?_
      subst hcontent
      exact (hwrite content).bind fun _ _ _ => ih hothers

/-- Printing nodes and printing their texts coincide, if finding the text of every node does. -/
theorem coincide_print :
    Coincide related (fun value twin => value = .empty ∧ twin = .empty)
      (execute classes (fuel + 1) (.print nodes))
      (execute classes (fuel + 2) (.print (nodes.map .stringify))) := by
  suffices h : Coincide related Eq (printLine classes (execute classes fuel) fuel nodes)
      (printLine classes (execute classes (fuel + 1)) (fuel + 1) (nodes.map .stringify)) from
    h.bind fun _ _ _ => .pure ⟨rfl, rfl⟩
  cases nodes with
  | nil => exact hwrite "\n"
  | cons node nodes =>
      obtain ⟨hnode, hothers⟩ := List.forall_mem_cons.mp hshown
      rw [List.map_cons, printLine_cons, printLine_cons, ← bind_assoc (execute classes fuel node),
        ← bind_assoc (execute classes (fuel + 1) (.stringify node))]
      refine (coincide_shown_stringify hmake hnode).bind fun content _ hcontent => ?_
      subst hcontent
      refine (hwrite content).bind fun _ _ _ => ?_
      exact (coincide_printMore_stringify hmake hwrite hothers).bind fun _ _ _ => hwrite "\n"

end

/-! ## New serial numbers stand for one another -/

/-- The states are alike up to what was made since the start. -/
structure Refreshed (start : Nat) (state twin : State) : Prop where
  states : (fresh start).States state twin
  le : start ≤ state.heap.made

theorem Refreshed.le_twin (h : Refreshed start state twin) : start ≤ twin.heap.made := by
  obtain heq | ⟨-, hle⟩ := h.states.heap.made 0
  · exact h.le.trans_eq heq
  · exact hle

theorem Refreshed.outlives : Outlives (Refreshed start) := by
  intro state twin h
  refine ⟨(Refines.refl Set.univ _).states state.isIn_univ h.states fun count => .inr ⟨?_, ?_⟩,
    h.le⟩
  · exact Nat.le_add_right_of_le h.le
  · exact Nat.le_add_right_of_le (Nat.le_succ_of_le h.le_twin)

theorem Refreshed.write (text : String) :
    Coincide (Refreshed start) Eq (write text) (write text) :=
  fun _ _ h => .ok rfl ⟨⟨h.states.heap, h.states.scope, congrArg (· ++ text) h.states.output⟩,
    h.le⟩

theorem Refreshed.shown (fuel : Nat) (node : Node) :
    Coincide (Refreshed start) Eq (shown classes fuel node) (shown classes fuel node) := by
  intro state twin h
  -- all objects there may be, so that nothing is asked of the node or of the state
  have hclasses : classes.LiteralsIn Set.univ := fun _ _ _ _ _ _ _ _ _ => trivial
  have hnode : node.LiteralsIn Set.univ := fun _ _ _ _ => trivial
  have hliterals : ∀ object ∈ Set.univ, (fresh start).Objects object object :=
    fun object _ => objects_refl (fun _ => Or.inl rfl) object
  refine (coincide_shown hliterals hclasses fuel hnode state twin h.states).of_onlyAdds
    (onlyAdds_shown hclasses fuel hnode state.isIn_univ) ?_
  exact fun _ _ _ hstates hgrows => ⟨hstates, h.le.trans hgrows.count⟩

/-! ## Every serial number takes a place -/

/-- The states are alike when serial numbers take these places, and these are the objects of the
first one. -/
structure Replaced (literals : Set Object) (placement : Placement start) (objects : Set Object)
    (state twin : State) : Prop where
  states : (renumbered placement).States state twin
  isIn : state.IsIn literals objects
  inventory : IsInventory objects state.heap.made
  le : start ≤ state.heap.made

/-- For some places and some objects, the states are alike in this way. -/
def IsReplaced (literals : Set Object) (start : Nat) (state twin : State) : Prop :=
  ∃ placement : Placement start, ∃ objects, Replaced literals placement objects state twin

theorem IsReplaced.outlives : Outlives (IsReplaced literals start) := by
  rintro state twin ⟨placement, objects, h⟩
  -- nothing that is there has a serial number that is still to come
  have hrefines : Refines objects (renumbered placement) (renumbered (placement.lift h.le)) :=
    ⟨fun object hobject serial horigin _ hserial =>
      (if_pos (h.inventory.lt object hobject serial horigin)).trans hserial, fun _ _ hmark => hmark⟩
  refine ⟨placement.lift h.le, objects, hrefines.states h.isIn h.states fun count => ?_, h.isIn,
    h.inventory, h.le⟩
  have hmade : placement.place (state.heap.made + count) = twin.heap.made + count :=
    h.states.heap.made count
  calc (placement.lift h.le).place (state.heap.made + count)
      = placement.place (state.heap.made + count) + 1 :=
        if_neg (Nat.not_lt.mpr (Nat.le_add_right _ count))
    _ = twin.heap.made + 1 + count := by rw [hmade, Nat.add_right_comm]

theorem IsReplaced.write (text : String) :
    Coincide (IsReplaced literals start) Eq (write text) (write text) := by
  rintro state twin ⟨placement, objects, h⟩
  exact .ok rfl ⟨placement, objects,
    ⟨h.states.heap, h.states.scope, congrArg (· ++ text) h.states.output⟩,
    ⟨h.isIn.literals, h.isIn.scope, h.isIn.fields⟩, h.inventory, h.le⟩

/-- Objects that were there at the start are like themselves. -/
theorem renumbered_objects_self (placement : Placement start)
    (hinventory : IsInventory objects start) {object : Object} (hobject : object ∈ objects) :
    (renumbered placement).Objects object object := by
  have horigins {origin : Origin} (horigin : object.origin? = some origin) :
      (renumbered placement).Origins origin origin := by
    cases origin with
    | literal source index => exact .literal source index
    | made serial =>
        exact .made (placement.old serial (hinventory.lt object hobject serial horigin))
  cases object with
  | number origin value => exact .number (horigins rfl) value
  | text origin content => exact .text (horigins rfl) content
  | flag origin value => exact .flag (horigins rfl) value
  | ofClass id => exact .ofClass id
  | ofInstance id => exact .ofInstance id

theorem IsReplaced.shown (hclasses : classes.LiteralsIn literals)
    (hliterals : IsInventory literals start) (fuel : Nat) {node : Node}
    (hnode : node.LiteralsIn literals) :
    Coincide (IsReplaced literals start) Eq (shown classes fuel node)
      (shown classes fuel node) := by
  rintro state twin ⟨placement, objects, h⟩
  refine (coincide_shown (fun _ hobject => renumbered_objects_self placement hliterals hobject)
    hclasses fuel hnode state twin h.states).of_onlyAdds
    (onlyAdds_shown hclasses fuel hnode h.isIn) ?_
  exact fun _ _ later hstates hgrows => ⟨placement, later, hstates, hgrows.isIn,
    hgrows.inventory h.inventory, h.le.trans hgrows.count⟩

/-! ## The two runs -/

/-- The literals of what runs are an inventory by themselves. -/
theorem IsSupplied.isInventory_literals {node : Node}
    (h : IsSupplied classes node state literals objects) :
    IsInventory literals state.heap.made :=
  ⟨fun one hone other hother => h.inventory.eq one (h.isIn.literals hone) other
    (h.isIn.literals hother), fun object hobject => h.inventory.lt object (h.isIn.literals hobject)⟩

/-- A value that is printed to the output of the program, or to any other stream, writes there
the text that it writes to a buffer of its own, when the whole of it is found.  And whatever the
nodes and whatever the state, printing nodes and printing their texts come to the same end: with
the same output, for the same reason if they stop, and with a scope and fields that only differ in
the origins of what was made.  From a state where nothing has an origin that is still to come, even
these keep their order: every serial number takes a place of its own, and those that there were
stay as they are.  The places that are left out are those of the texts. -/
theorem print_stringify (classes : Classes) (fuel : Nat) (nodes : List Node) (state : State) :
    (∀ (σ : Type) (stream : Stream σ) (held : σ) (depth : Nat) (value : Handle),
        printValue classes (execute classes fuel) stream held depth value = (do
          stream.write held (← display classes (execute classes fuel) depth value))) ∧
      Paired (fresh state.heap.made).States (fresh state.heap.made).Values
        (execute classes (fuel + 1) (.print nodes) state)
        (execute classes (fuel + 2) (.print (nodes.map .stringify)) state) ∧
      ∀ literals objects, IsSupplied classes (.print nodes) state literals objects →
        ∃ placement : Placement state.heap.made,
          Paired (renumbered placement).States (renumbered placement).Values
            (execute classes (fuel + 1) (.print nodes) state)
            (execute classes (fuel + 2) (.print (nodes.map .stringify)) state) := by
  refine ⟨fun σ stream held depth value => ?_, ?_, fun literals objects hsupplied => ?_⟩
  · exact printValue_eq stream held depth value
  · have hstart : Refreshed state.heap.made state state :=
      ⟨states_refl (fun _ => Or.inl rfl) state, Nat.le_refl _⟩
    exact (coincide_print Refreshed.outlives Refreshed.write
      (fun node _ => Refreshed.shown fuel node) state state hstart).mono
      (fun _ _ h => h.1.symm ▸ h.2.symm ▸ .empty) fun _ _ h => h.states
  · have hstart : IsReplaced literals state.heap.made state state :=
      ⟨.same _, objects, states_refl (fun _ => rfl) state, hsupplied.isIn, hsupplied.inventory,
        Nat.le_refl _⟩
    have hshown (node : Node) (hmem : node ∈ nodes) :
        Coincide (IsReplaced literals state.heap.made) Eq (shown classes fuel node)
          (shown classes fuel node) :=
      IsReplaced.shown hsupplied.methods hsupplied.isInventory_literals fuel
        (hsupplied.tree.operand hmem)
    obtain ⟨placement, hpaired⟩ := (coincide_print IsReplaced.outlives IsReplaced.write hshown
      state state hstart).exists
    exact ⟨placement, hpaired.mono (fun _ _ h => h.1.symm ▸ h.2.symm ▸ .empty)
      fun _ _ ⟨_, h⟩ => h.states⟩

/-- A sum and a number. -/
def sumAndNumber : List Node :=
  [.arithmetic .add (.number (.literal 0 0) 5) (.number (.literal 0 0) 5),
    .number (.literal 0 0) 5]

/-- An instance whose text is that of another instance.  Both methods print a line. -/
def sampleShown : String :=
  "class A:\n  def __str__():\n    print 1\n    return 2\n" ++
    "class B:\n  def __str__():\n    print 3\n    return A()\nprint B(), 4\nprint str(B()), 4\n"

/-- A sum and a number are printed, and so are their texts.  What methods print comes before the
line that asks them. -/
theorem print_stringify_sample :
    IsSupplied .empty (.print sumAndNumber) Session.empty.initial {.number (.literal 0 0) 5}
        {.number (.literal 0 0) 5} ∧
      (do let _ ← execute .empty 3 (.print sumAndNumber); return (← get).output : Run String).run'
        Session.empty.initial = some "10 5\n" ∧
      (Session.empty.run 20 sampleShown).output = "3\n1\n2 4\n3\n1\n2 4\n" ∧
      ∃ placement : Placement 0, Paired (renumbered placement).States (renumbered placement).Values
        (execute .empty 3 (.print sumAndNumber) Session.empty.initial)
        (execute .empty 4 (.print (sumAndNumber.map .stringify)) Session.empty.initial) := by
  have hfive : (Node.number (.literal 0 0) 5).LiteralsIn {.number (.literal 0 0) 5} :=
    Node.literalsIn_of_parts (by simp [Node.literal?]) (by simp [Node.operands])
      (by simp [Node.branches])
  have htree : (Node.print sumAndNumber).LiteralsIn {.number (.literal 0 0) 5} :=
    Node.literalsIn_of_operands rfl rfl
      (.cons (Node.literalsIn_of_operands rfl rfl (Node.allLiteralsIn_pair hfive hfive))
        (Node.allLiteralsIn_singleton hfive))
  have hstate : Session.empty.initial.IsIn {.number (.literal 0 0) 5}
      {.number (.literal 0 0) 5} := by
    simpa using Session.isStocked_empty.state.union {.number (.literal 0 0) 5}
  have hsupplied : IsSupplied .empty (.print sumAndNumber) Session.empty.initial
      {.number (.literal 0 0) 5} {.number (.literal 0 0) 5} :=
    ⟨htree, Session.isStocked_empty.classes.mono (Set.empty_subset _), hstate,
      isInventory_singleton rfl _⟩
  exact ⟨hsupplied, by decide +kernel, by decide +kernel,
    (print_stringify .empty 2 sumAndNumber Session.empty.initial).2.2 _ _ hsupplied⟩

end Run

end Offside
