import Offside.Proofs.Execution.Growth
import Offside.Proofs.Reading.Literals
import Offside.Proofs.Rejection

/-!
# What running leaves as it was

Running a tree, whatever it is and however it ends, takes nothing away from the state
(`State.Extends`), and no number, text or flag becomes another one: the objects of an inventory
are in every later inventory.  This goes on from tree to tree through a session
(`Session.Continues`), so a literal, which gives its own object wherever it runs, gives one and
the same value throughout.

Of trees that are built by hand it has to be asked that their literals fit in with the objects
that there are.  Those of sources do: their origins count the sources, and a session that only
runs sources has an inventory at every time (`Session.IsStocked.of_follows`).
-/

namespace Offside

namespace Run

variable {α : Type} {literals objects : Set Object} {classes : Classes} {state after : State}

/-- The computation leads from one state to the other, and gives a value or stops there. -/
def Leaves (computation : Run α) (before after : State) : Prop :=
  (∃ value, computation before = .ok value after) ∨
    ∃ reason, computation before = .error reason after

/-- All that there is when a node runs: its literals and those of the methods are among these,
and the numbers, texts and flags of the state are an inventory that holds them. -/
structure IsSupplied (classes : Classes) (node : Node) (state : State)
    (literals objects : Set Object) : Prop where
  tree : node.LiteralsIn literals
  methods : classes.LiteralsIn literals
  isIn : state.IsIn literals objects
  inventory : IsInventory objects state.heap.made

/-- A computation that only adds has added to the state that it leaves. -/
theorem OnlyAdds.of_leaves {computation : Run α} {good : α → Set Object → Prop}
    (h : OnlyAdds literals objects computation good state)
    (hleaves : Leaves computation state after) :
    ∃ later, Grows literals state objects after later ∧
      ∀ value, computation state = .ok value after → good value later := by
  unfold OnlyAdds at h
  obtain ⟨value, heq⟩ | ⟨reason, heq⟩ := hleaves
  · rw [heq] at h
    obtain ⟨later, hgrows, hgood⟩ := h
    refine ⟨later, hgrows, fun other hother => ?_⟩
    cases heq.symm.trans hother
    exact hgood
  · rw [heq] at h
    obtain ⟨later, hgrows⟩ := h
    refine ⟨later, hgrows, fun other hother => ?_⟩
    cases heq.symm.trans hother

theorem onlyAdds_executeProgram (hclasses : classes.LiteralsIn literals) (fuel : Nat)
    {program : Node} (hprogram : program.LiteralsIn literals)
    (hstate : state.IsIn literals objects) :
    OnlyAdds literals objects (executeProgram classes fuel program) Handle.IsIn state := by
  unfold executeProgram
  refine (adds_execute hclasses fuel hprogram hstate).bind
    fun value after later _ hafter hvalue => ?_
  cases value with
  | returned inner => exact onlyAdds_fail _ hafter
  | empty => exact .pure hafter hvalue
  | holding object owning => exact .pure hafter hvalue

end Run

namespace Session

variable {session last : Session} {literals objects : Set Object}

/-- Trees run in a session one after another.  Their literals, and those of the methods that
there are then, are among these objects. -/
inductive Continues (literals : Set Object) (session : Session) : Session → Prop
  | start : Continues literals session session
  | execute {later : Session} (h : Continues literals session later) (fuel : Nat)
      (program : Program) {tree : Node} (hclasses : program.declared.classes.LiteralsIn literals)
      (htree : tree.LiteralsIn literals) :
      Continues literals session (later.execute fuel program tree).session

/-- What a session starts from next is what the last tree left, with an output of its own. -/
theorem exists_leaves_of_execute (session : Session) (fuel : Nat) (program : Program)
    (tree : Node) : ∃ after, Run.Leaves (executeProgram program.declared.classes fuel tree)
      session.initial after ∧
      (session.execute fuel program tree).session.initial = { after with output := "" } := by
  cases hresult : executeProgram program.declared.classes fuel tree session.initial with
  | ok value after =>
      refine ⟨after, .inl ⟨value, hresult⟩, ?_⟩
      unfold initial at hresult
      simp only [Session.execute, hresult, initial]
  | error reason after =>
      refine ⟨after, .inr ⟨reason, hresult⟩, ?_⟩
      unfold initial at hresult
      simp only [Session.execute, hresult, initial]

/-- Running a tree leaves the class table that reading it gave, and counts the source. -/
theorem tables_execute (session : Session) (fuel : Nat) (program : Program) (tree : Node) :
    (session.execute fuel program tree).session.classes = program.declared.classes ∧
      (session.execute fuel program tree).session.sources = session.sources + 1 := by
  unfold Session.execute
  dsimp only
  split <;> exact ⟨rfl, rfl⟩

/-- Running a tree in a session only adds. -/
theorem grows_execute (fuel : Nat) (program : Program) {tree : Node}
    (hclasses : program.declared.classes.LiteralsIn literals) (htree : tree.LiteralsIn literals)
    (hstate : session.initial.IsIn literals objects) :
    ∃ later, Run.Grows literals session.initial objects
      (session.execute fuel program tree).session.initial later := by
  obtain ⟨after, hleaves, hinitial⟩ := session.exists_leaves_of_execute fuel program tree
  obtain ⟨later, hgrows, -⟩ :=
    (Run.onlyAdds_executeProgram hclasses fuel htree hstate).of_leaves hleaves
  rw [hinitial]
  -- the next tree writes to an output of its own
  have hsilent : session.initial.Extends { after with output := "" } :=
    ⟨hgrows.state.class?, hgrows.state.fields, hgrows.state.scope, "", rfl⟩
  have hisIn : ({ after with output := "" } : State).IsIn literals later :=
    ⟨hgrows.isIn.literals, hgrows.isIn.scope, hgrows.isIn.fields⟩
  exact ⟨later, hsilent, hgrows.kept, hgrows.made, hgrows.inventory, hisIn, hgrows.count⟩

/-- From tree to tree, a session only grows. -/
theorem Continues.grows (h : session.Continues literals last)
    (hstate : session.initial.IsIn literals objects) :
    ∃ later, Run.Grows literals session.initial objects last.initial later := by
  induction h with
  | start => exact ⟨objects, .refl hstate⟩
  | execute _ fuel program hclasses htree ih =>
      obtain ⟨later, hgrows⟩ := ih
      obtain ⟨most, hmore⟩ := grows_execute fuel program hclasses htree hgrows.isIn
      exact ⟨most, hgrows.trans hmore⟩

/-! ## Sources one after another -/

/-- Sources run in a session one after another, whatever they are. -/
inductive Follows (session : Session) : Session → Prop
  | start : Follows session session
  | run {later : Session} (h : Follows session later) (fuel : Nat) (source : String) :
      Follows session (later.run fuel source).session

/-- These are the literals of all methods, and these the numbers, texts and flags of a session.
There is one for every origin, and none comes from a source that is still to be run. -/
structure IsStocked (session : Session) (literals objects : Set Object) : Prop where
  classes : session.classes.LiteralsIn literals
  state : session.initial.IsIn literals objects
  inventory : IsInventory objects session.heap.made
  lt : ∀ object ∈ objects, ∀ source index,
    object.origin? = some (.literal source index) → source < session.sources

theorem isStocked_empty : Session.empty.IsStocked ∅ ∅ := by
  refine ⟨fun id record hrecord => ?_, ⟨Set.Subset.rfl, Scope.isIn_empty _, fun id => ?_⟩,
    ⟨fun _ h => absurd h (Set.notMem_empty _), fun _ h => absurd h (Set.notMem_empty _)⟩,
    fun _ h => absurd h (Set.notMem_empty _)⟩
  · simp [Session.empty, Classes.get?, Classes.empty] at hrecord
  · simpa [initial, Session.empty, Heap.fields, Heap.empty] using Scope.isIn_empty _

/-- The literals of a source that is read are new ones, because no source before it has its
number. -/
theorem IsStocked.of_reads (h : session.IsStocked literals objects) {source : String}
    {classes : Classes} {tree : Node} (hread : session.Reads source classes tree) :
    ∃ new, Run.IsSupplied classes tree session.initial (literals ∪ new) (objects ∪ new) ∧
      ∀ object ∈ objects ∪ new, ∀ source index,
        object.origin? = some (.literal source index) → source < session.sources + 1 := by
  obtain ⟨program, hprogram, htree, rfl⟩ := hread
  obtain ⟨tape, htape, rfl⟩ := Program.exists_of_map_eq_ok hprogram
  obtain ⟨hnode, hclasses⟩ := Program.literalsIn_of_read h.classes htree
  obtain ⟨hcounted, -⟩ := Tape.counted_of_layFrom htape rfl
  refine ⟨tape.literals session.sources, ⟨hnode, hclasses, h.state.union _,
    h.inventory.union (Tape.isInventory_literals hcounted _ _) ?_⟩, ?_⟩
  · intro object hobject other hother origin horigin horigin'
    obtain ⟨index, hother⟩ := Tape.origin?_of_mem_literals hother
    cases hother.symm.trans horigin'
    exact Nat.lt_irrefl _ (h.lt object hobject _ _ horigin)
  · rintro object (hobject | hobject) source index horigin
    · exact Nat.lt_succ_of_lt (h.lt object hobject source index horigin)
    · obtain ⟨index', horigin'⟩ := Tape.origin?_of_mem_literals hobject
      cases horigin'.symm.trans horigin
      exact Nat.lt_succ_self _

/-- Running a source only adds. -/
theorem IsStocked.run (h : session.IsStocked literals objects) (fuel : Nat) (source : String) :
    ∃ more later, literals ⊆ more ∧ objects ⊆ later ∧
      session.initial.Extends (session.run fuel source).session.initial ∧
      (session.run fuel source).session.IsStocked more later := by
  obtain ⟨fault, hrefuses⟩ | ⟨program, tree, hread, htree, hruns⟩ :=
    session.refuses_or_runs source
  · rw [(hrefuses.run fuel).2.2]
    exact ⟨literals, objects, Set.Subset.rfl, Set.Subset.rfl, .refl _, h⟩
  · obtain ⟨new, hsupplied, hlt⟩ := h.of_reads ⟨program, hread, htree, rfl⟩
    obtain ⟨later, hgrows⟩ :=
      grows_execute fuel program hsupplied.methods hsupplied.tree hsupplied.isIn
    rw [hruns]
    obtain ⟨hdeclared, hcount⟩ := session.tables_execute fuel program tree
    refine ⟨literals ∪ new, later, Set.subset_union_left,
      Set.subset_union_left.trans hgrows.kept, hgrows.state, ?_⟩
    refine ⟨hdeclared.symm ▸ hsupplied.methods, hgrows.isIn,
      hgrows.inventory hsupplied.inventory, ?_⟩
    intro object hobject number index horigin
    rw [hcount]
    by_cases hold : object ∈ objects ∪ new
    · exact hlt object hold number index horigin
    · obtain ⟨serial, hserial⟩ := hgrows.made object hobject hold
      cases hserial.symm.trans horigin

/-- From source to source, a session only grows. -/
theorem IsStocked.of_follows (h : session.IsStocked literals objects)
    (hfollows : session.Follows last) :
    ∃ more later, literals ⊆ more ∧ objects ⊆ later ∧ session.initial.Extends last.initial ∧
      last.IsStocked more later := by
  induction hfollows with
  | start => exact ⟨literals, objects, Set.Subset.rfl, Set.Subset.rfl, .refl _, h⟩
  | run _ fuel source ih =>
      obtain ⟨more, later, hliterals, hobjects, hextends, hstocked⟩ := ih
      obtain ⟨most, last, hmore, hlater, hextends', hrun⟩ := hstocked.run fuel source
      exact ⟨most, last, hliterals.trans hmore, hobjects.trans hlater,
        hextends.trans hextends', hrun⟩

end Session

namespace Run

/-- Whatever runs, the state that it leaves extends the state before. -/
theorem extends_of_leaves {fuel : Nat} {node : Node}
    (hleaves : Leaves (execute classes fuel node) state after) : state.Extends after := by
  -- all objects there may be, so that nothing is asked of the tree or of the state
  have hclasses : classes.LiteralsIn Set.univ := fun _ _ _ _ _ _ _ _ _ => trivial
  have hnode : node.LiteralsIn Set.univ := fun _ _ _ _ => trivial
  obtain ⟨later, hgrows, -⟩ :=
    (adds_execute hclasses fuel hnode state.isIn_univ).of_leaves hleaves
  exact hgrows.state

/-- A literal gives its own object, wherever it runs. -/
theorem execute_of_literal? {literal : Node} {object : Object}
    (h : literal.literal? = some object) (classes : Classes) (fuel : Nat) (state : State) :
    execute classes (fuel + 1) literal state = .ok (.share object) state := by
  cases literal with
  | number | text | flag =>
      cases h
      rfl
  | _ => cases h

/-- Running any tree from any state only extends it: instances keep their classes, no field and
no variable is lost, and the output goes on.  All numbers, texts and flags that there were are
the same afterwards, and so is the class table.  This holds from tree to tree through a session,
and from source to source, where the literals of each source are new ones.  So a literal, which
gives its own object in every state, gives the same value throughout: no other object ever has
its origin. -/
theorem execute_extends :
    (∀ classes fuel node state after, Leaves (execute classes fuel node) state after →
      state.Extends after ∧
        ∀ literals objects, IsSupplied classes node state literals objects →
          ∃ later, objects ⊆ later ∧ IsSupplied classes node after literals later ∧
            ∀ value, execute classes fuel node state = .ok value after → value.IsIn later) ∧
      (∀ (session : Session) fuel program tree,
        (session.execute fuel program tree).session.classes = program.declared.classes) ∧
      (∀ (session last : Session) literals objects, session.initial.IsIn literals objects →
        IsInventory objects session.heap.made → session.Continues literals last →
        session.initial.Extends last.initial ∧
          ∃ later, objects ⊆ later ∧ IsInventory later last.heap.made ∧
            last.initial.IsIn literals later) ∧
      Session.empty.IsStocked ∅ ∅ ∧
      (∀ (session last : Session) literals objects, session.IsStocked literals objects →
        session.Follows last →
        ∃ more later, literals ⊆ more ∧ objects ⊆ later ∧
          session.initial.Extends last.initial ∧ last.IsStocked more later ∧
          ∀ source classes tree, last.Reads source classes tree →
            ∃ new, IsSupplied classes tree last.initial (more ∪ new) (later ∪ new)) ∧
      ∀ literal object, literal.literal? = some object → ∀ classes fuel state,
        execute classes (fuel + 1) literal state = .ok (.share object) state := by
  refine ⟨fun classes fuel node state after hleaves => ⟨extends_of_leaves hleaves,
    fun literals objects hsupplied => ?_⟩, fun session fuel program tree => ?_,
    fun session last literals objects hstate hinventory hcontinues => ?_,
    Session.isStocked_empty, fun session last literals objects hstocked hfollows => ?_,
    fun literal object => execute_of_literal?⟩
  · obtain ⟨later, hgrows, hvalue⟩ :=
      (adds_execute hsupplied.methods fuel hsupplied.tree hsupplied.isIn).of_leaves hleaves
    exact ⟨later, hgrows.kept, ⟨hsupplied.tree, hsupplied.methods, hgrows.isIn,
      hgrows.inventory hsupplied.inventory⟩, hvalue⟩
  · exact (Session.tables_execute session fuel program tree).1
  · obtain ⟨later, hgrows⟩ := hcontinues.grows hstate
    exact ⟨hgrows.state, later, hgrows.kept, hgrows.inventory hinventory, hgrows.isIn⟩
  · obtain ⟨more, later, hliterals, hobjects, hextends, hlast⟩ := hstocked.of_follows hfollows
    refine ⟨more, later, hliterals, hobjects, hextends, hlast,
      fun source classes tree hread => ?_⟩
    obtain ⟨new, hsupplied, -⟩ := hlast.of_reads hread
    exact ⟨new, hsupplied⟩

/-- A variable is bound to a literal, which then gives the same object again; and a source is
run in an empty session. -/
theorem execute_extends_sample :
    (∃ after later, Leaves (execute .empty 2 (.assign "x" (.number (.literal 0 0) 5)))
        Session.empty.initial after ∧
      Session.empty.initial.Extends after ∧
      {.number (.literal 0 0) 5} ⊆ later ∧ IsInventory later after.heap.made ∧
      after.IsIn {.number (.literal 0 0) 5} later ∧
      execute .empty 1 (.number (.literal 0 0) 5) Session.empty.initial =
        .ok (.share (.number (.literal 0 0) 5)) Session.empty.initial) ∧
      (Session.empty.run 9 "x = -5\n").session.globals.names = ["x"] ∧
      ∃ literals objects, (Session.empty.run 9 "x = -5\n").session.IsStocked literals objects := by
  have hliteral : (Node.number (.literal 0 0) 5).LiteralsIn {.number (.literal 0 0) 5} :=
    Node.literalsIn_of_parts (by simp [Node.literal?]) (by simp [Node.operands])
      (by simp [Node.branches])
  have htree : (Node.assign "x" (.number (.literal 0 0) 5)).LiteralsIn
      {.number (.literal 0 0) 5} :=
    Node.literalsIn_of_operands rfl rfl (Node.allLiteralsIn_singleton hliteral)
  have hclasses : Classes.empty.LiteralsIn {.number (.literal 0 0) 5} :=
    Session.isStocked_empty.classes.mono (Set.empty_subset _)
  have hstate : Session.empty.initial.IsIn {.number (.literal 0 0) 5}
      {.number (.literal 0 0) 5} := by
    simpa using Session.isStocked_empty.state.union {.number (.literal 0 0) 5}
  have hinventory : IsInventory {Object.number (.literal 0 0) 5} Session.empty.initial.heap.made :=
    isInventory_singleton rfl _
  obtain ⟨hextends, -, -, hempty, hstocked, hagain⟩ := execute_extends
  have hleaves : Leaves (execute .empty 2 (.assign "x" (.number (.literal 0 0) 5)))
      Session.empty.initial _ := .inl ⟨_, rfl⟩
  obtain ⟨hgrown, hkept⟩ := hextends _ _ _ _ _ hleaves
  obtain ⟨later, hsubset, hlater, -⟩ := hkept _ _ ⟨htree, hclasses, hstate, hinventory⟩
  obtain ⟨literals, objects, -, -, -, hrun, -⟩ :=
    hstocked _ _ _ _ hempty (.run .start 9 "x = -5\n")
  exact ⟨⟨_, later, hleaves, hgrown, hsubset, hlater.inventory, hlater.isIn,
    hagain _ _ rfl .empty 0 _⟩, by decide +kernel, literals, objects, hrun⟩

end Run

end Offside
