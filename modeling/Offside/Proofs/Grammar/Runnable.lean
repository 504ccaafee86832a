import Offside.Proofs.Grammar.Acceptance
import Offside.Proofs.Grammar.Writable
import Offside.Proofs.Tree.Statement

/-!
# What is read can be run

Whatever is read has a tree that a text can have (`Program.writable_of_read`), and such
a tree is a statement all of whose operands are expressions; it refers to classes only
that exist when it is read to its end.  The same holds of the bodies of the methods that
are read on the way, and each of them takes in what its block returns.

The names that mean classes must mean classes that exist (`Known.IsSound`).  That carries
over from one clause to the next, because a class is counted before its name is known.
-/

namespace Offside

namespace Statement

open Expression (Callable)

/-- Names mean classes that exist. -/
def Known.IsSound (known : Known) : Prop :=
  ∀ name cls, known.names.get? name = some cls → cls < known.count

theorem Known.IsSound.declare {known : Known} (h : known.IsSound) (name : String) :
    (known.declare name).IsSound := by
  intro other cls hcls
  unfold Known.declare at hcls ⊢
  rw [Bindings.get?_set] at hcls
  split at hcls
  · cases hcls
    exact Nat.lt_succ_self _
  · exact Nat.lt_succ_of_lt (h other cls hcls)

/-- What a clause means can be run where there are so many classes. -/
def Clause.IsSound (count : Nat) : Clause → Prop
  | statement inMethod node => node.IsStatement count inMethod
  | statements inMethod nodes => Node.AreStatements count nodes inMethod
  | suite inMethod node =>
    ∃ statements, node = .block statements ∧ Node.AreStatements count statements inMethod
  | method definition => definition.IsSound count
  | methods definitions => ∀ definition ∈ definitions, definition.IsSound count

/-- The methods of these classes can be run where there are so many classes. -/
def AreSound (count : Nat) (records : List ClassRecord) : Prop :=
  ∀ record ∈ records, ∀ method ∈ record.methods, method.IsSound count

theorem AreSound.append {count : Nat} {records more : List ClassRecord}
    (h : AreSound count records) (hmore : AreSound count more) :
    AreSound count (records ++ more) := by
  intro record hrecord
  rcases List.mem_append.mp hrecord with hfirst | hsecond
  · exact h record hfirst
  · exact hmore record hsecond

theorem areSound_nil (count : Nat) : AreSound count [] := by
  intro record hrecord
  cases hrecord

/-- What a suite means can be run as a statement. -/
theorem Clause.IsSound.isStatement {count : Nat} {inMethod : Bool} {node : Node}
    (h : (Clause.suite inMethod node).IsSound count) : node.IsStatement count inMethod := by
  obtain ⟨statements, rfl, hstatements⟩ := h
  exact hstatements

/-- A clause that a text can have can be run, and so can the classes that it makes. -/
theorem Writable.isSound {known after : Known} {clause : Clause} {made : List ClassRecord}
    (h : Writable known clause made after) (hknown : known.IsSound) :
    after.IsSound ∧ ∀ count, after.count ≤ count →
      clause.IsSound count ∧ AreSound count made := by
  -- A call names a class that is known already, and what is known stays below the count.
  have hmono {known : Known} {node : Node} (hknown : known.IsSound) {count : Nat}
      (hcount : known.count ≤ count) (hnode : node.IsExpression (Callable known.names)) :
      node.IsExpression (· < count) := by
    apply hnode.mono
    intro cls hcls
    obtain ⟨name, -, hname⟩ := hcls
    exact Nat.lt_of_lt_of_le (hknown name cls hname) hcount
  induction h with
  | giveBack h =>
      refine ⟨hknown, fun count hcount => ⟨⟨rfl, hmono hknown hcount h⟩, areSound_nil count⟩⟩
  | print inMethod h =>
      refine ⟨hknown, fun count hcount => ⟨?_, areSound_nil count⟩⟩
      apply Node.areExpressions_iff.mpr
      intro node hnode
      exact hmono hknown hcount (Node.areExpressions_iff.mp h node hnode)
  | assign inMethod name h =>
      exact ⟨hknown, fun count hcount => ⟨hmono hknown hcount h, areSound_nil count⟩⟩
  | assignField inMethod name fields field h =>
      exact ⟨hknown, fun count hcount => ⟨⟨trivial, hmono hknown hcount h⟩, areSound_nil count⟩⟩
  | expression inMethod h =>
      exact ⟨hknown, fun count hcount =>
        ⟨(hmono hknown hcount h).isStatement inMethod, areSound_nil count⟩⟩
  | ifThen hcondition hconsequent ih =>
      obtain ⟨hafter, hsound⟩ := ih hknown
      refine ⟨hafter, fun count hcount => ?_⟩
      obtain ⟨hsuite, hmade⟩ := hsound count hcount
      have hle := hconsequent.count_le
      exact ⟨⟨hmono hknown (Nat.le_trans hle hcount) hcondition, hsuite.isStatement⟩, hmade⟩
  | ifThenElse hcondition hconsequent halternative ihconsequent ihalternative =>
      obtain ⟨hbetween, hsound⟩ := ihconsequent hknown
      obtain ⟨hafter, hsound'⟩ := ihalternative hbetween
      refine ⟨hafter, fun count hcount => ?_⟩
      have hle := Nat.le_trans halternative.count_le hcount
      obtain ⟨hsuite, hmade⟩ := hsound count hle
      obtain ⟨hsuite', hmade'⟩ := hsound' count hcount
      exact ⟨⟨hmono hknown (Nat.le_trans hconsequent.count_le hle) hcondition,
        hsuite.isStatement, hsuite'.isStatement⟩, hmade.append hmade'⟩
  | @classDefinition known after inMethod name parent methods made hparent hmethods hsome ih =>
      obtain ⟨hafter, hsound⟩ := ih (hknown.declare name)
      refine ⟨hafter, fun count hcount => ?_⟩
      obtain ⟨hdefinitions, hmade⟩ := hsound count hcount
      -- the class gets the number that was next before its methods were read
      refine ⟨Nat.lt_of_lt_of_le (Nat.lt_succ_self known.count)
        (Nat.le_trans hmethods.count_le hcount), ?_⟩
      intro record hrecord
      rcases List.mem_cons.mp hrecord with rfl | hinner
      · exact hdefinitions
      · exact hmade record hinner
  | suite h hsome ih =>
      obtain ⟨hafter, hsound⟩ := ih hknown
      refine ⟨hafter, fun count hcount => ?_⟩
      obtain ⟨hnodes, hmade⟩ := hsound count hcount
      exact ⟨⟨_, rfl, hnodes⟩, hmade⟩
  | statementsEnd known inMethod => exact ⟨hknown, fun count _ => ⟨trivial, areSound_nil count⟩⟩
  | statementsMore hfirst hothers ihfirst ihothers =>
      obtain ⟨hbetween, hsound⟩ := ihfirst hknown
      obtain ⟨hafter, hsound'⟩ := ihothers hbetween
      refine ⟨hafter, fun count hcount => ?_⟩
      obtain ⟨hnode, hmade⟩ := hsound count (Nat.le_trans hothers.count_le hcount)
      obtain ⟨hnodes, hmade'⟩ := hsound' count hcount
      exact ⟨⟨hnode, hnodes⟩, hmade.append hmade'⟩
  | method name parameters h ih =>
      obtain ⟨hafter, hsound⟩ := ih hknown
      refine ⟨hafter, fun count hcount => ?_⟩
      obtain ⟨⟨statements, rfl, hstatements⟩, hmade⟩ := hsound count hcount
      exact ⟨⟨statements, rfl, hstatements⟩, hmade⟩
  | methodsEnd known => exact ⟨hknown, fun count _ => ⟨nofun, areSound_nil count⟩⟩
  | methodsMore hfirst hothers ihfirst ihothers =>
      obtain ⟨hbetween, hsound⟩ := ihfirst hknown
      obtain ⟨hafter, hsound'⟩ := ihothers hbetween
      refine ⟨hafter, fun count hcount => ?_⟩
      obtain ⟨hdefinition, hmade⟩ := hsound count (Nat.le_trans hothers.count_le hcount)
      obtain ⟨hdefinitions, hmade'⟩ := hsound' count hcount
      refine ⟨?_, hmade.append hmade'⟩
      intro definition hdefinition'
      rcases List.mem_cons.mp hdefinition' with rfl | hother
      · exact hdefinition
      · exact hdefinitions definition hother

end Statement

namespace Program

variable {source : Nat} {classes : Classes} {names : Bindings ClassId} {tape : Tape} {tree : Node}

/-- A program that is read has a tree that a text can have, and the class table grows by the
classes that the tree makes. -/
theorem writable_of_read (hlaid : tape.Laid)
    (hread : (read source classes names tape).result = .ok tree) :
    ∃ nodes made after, tree = .block nodes ∧
      Statement.Writable ⟨names, classes.count⟩ (.statements false nodes) made after ∧
      after.count = (read source classes names tape).declared.classes.count ∧
      (read source classes names tape).declared.classes.records.toList =
        classes.records.toList ++ made := by
  obtain ⟨nodes, after, hprogram, rfl⟩ := result_eq_ok_iff.mp hread
  obtain ⟨place, beforeLast, tokens, made, hpass, hcomposes, hmade⟩ :=
    Statement.spans_of_program hlaid hprogram
  have hdeclared : (read source classes names tape).declared = after := by
    unfold read
    rw [hprogram]
  rw [hdeclared]
  exact ⟨nodes, made, _, rfl, hcomposes.writable, rfl, hmade⟩

/-- A program that is read where all classes are sound is a statement, and the classes that
were declared with it are sound. -/
theorem isSound_of_read (hlaid : tape.Laid) (hclasses : classes.IsSound)
    (hnames : ∀ name cls, names.get? name = some cls → cls < classes.count)
    (hread : (read source classes names tape).result = .ok tree) :
    classes.count ≤ (read source classes names tape).declared.classes.count ∧
      (read source classes names tape).declared.classes.IsSound ∧
      tree.IsStatement (read source classes names tape).declared.classes.count false := by
  obtain ⟨nodes, made, after, rfl, hwritable, hcount, hmade⟩ := writable_of_read hlaid hread
  generalize (read source classes names tape).declared.classes = declared at hcount hmade ⊢
  have hle : classes.count ≤ declared.count := hcount ▸ hwritable.count_le
  obtain ⟨-, hsound⟩ := hwritable.isSound hnames
  obtain ⟨hnodes, hrecords⟩ := hsound declared.count (Nat.le_of_eq hcount)
  refine ⟨hle, ?_, hnodes⟩
  intro id record hrecord method hmethod
  have hmem : record ∈ classes.records.toList ++ made := by
    rw [← hmade]
    exact Array.mem_toList_iff.mpr (Array.mem_of_getElem? hrecord)
  -- methods that were there before are sound among more classes too
  rcases List.mem_append.mp hmem with hold | hnew
  · obtain ⟨index, hindex⟩ := Array.mem_iff_getElem?.mp (Array.mem_toList_iff.mp hold)
    exact (hclasses index record hindex method hmethod).mono hle
  · exact hrecords record hnew method hmethod

end Program

end Offside
