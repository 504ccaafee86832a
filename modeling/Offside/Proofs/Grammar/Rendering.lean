import Offside.Proofs.Grammar.Spelling

/-!
# Writing programs

The tokens of a program, from its tree and the class table that the tree refers to.  The
node of a class only has its number, so a class is written from its record, and the
classes inside its methods from theirs.  `Written` carries the names along, since a class
is known from its header on and is written by a name that means it there.

`writeClass` may be asked for a class inside a class only so many times; as many classes
as there are is always enough.

What is written of a clause derives from that clause (`Writable.composes`), provided that
the class table holds the classes that the clause makes under the numbers that they get
(`Holds`).
-/

namespace Offside

namespace Classes

/-- The classes from a number on are these. -/
def Holds (classes : Classes) (first : ClassId) (records : List ClassRecord) : Prop :=
  ∀ index record, records[index]? = some record → classes.get? (first + index) = some record

variable {classes : Classes} {first : ClassId}

theorem holds_append {records more : List ClassRecord} :
    classes.Holds first (records ++ more) ↔
      classes.Holds first records ∧ classes.Holds (first + records.length) more := by
  constructor
  · intro h
    constructor
    · intro index record hrecord
      apply h index record
      rw [List.getElem?_append_left (List.getElem?_eq_some_iff.mp hrecord).1, hrecord]
    · intro index record hrecord
      rw [Nat.add_assoc]
      apply h
      rw [List.getElem?_append_right (Nat.le_add_right _ _), Nat.add_sub_cancel_left, hrecord]
  · rintro ⟨hfirst, hmore⟩ index record hrecord
    by_cases hindex : index < records.length
    · rw [List.getElem?_append_left hindex] at hrecord
      exact hfirst index record hrecord
    · obtain ⟨further, rfl⟩ := Nat.exists_eq_add_of_le (Nat.le_of_not_lt hindex)
      rw [List.getElem?_append_right (Nat.le_add_right _ _), Nat.add_sub_cancel_left] at hrecord
      rw [← Nat.add_assoc]
      exact hmore further record hrecord

theorem Holds.head {record : ClassRecord} {records : List ClassRecord}
    (h : classes.Holds first (record :: records)) : classes.get? first = some record :=
  h 0 record rfl

theorem Holds.tail {record : ClassRecord} {records : List ClassRecord}
    (h : classes.Holds first (record :: records)) : classes.Holds (first + 1) records := by
  have happend : classes.Holds first ([record] ++ records) := h
  exact (holds_append.mp happend).2

/-- A class table that has grown holds what it has grown by. -/
theorem holds_of_toList_eq {before : Classes} {records : List ClassRecord}
    (h : classes.records.toList = before.records.toList ++ records) :
    classes.Holds before.count records := by
  intro index record hrecord
  rw [get?, ← Array.getElem?_toList, h, count, ← Array.length_toList,
    List.getElem?_append_right (Nat.le_add_right _ _), Nat.add_sub_cancel_left, hrecord]

end Classes

namespace Statement

open Expression (dottedTokens dottedTokens_append derives_spell derives_spellArguments nameFor
  nameFor_spec spell spellArguments)

/-! ## Tokens of statements -/

/-- What was written, and the classes that names mean behind it. -/
structure Written where
  /-- The tokens. -/
  tokens : List Token
  /-- The classes that names mean now. -/
  names : Bindings ClassId

section

variable (signs : Node → Bool) (define : ClassId → Bindings ClassId → Written)

mutual

/-- Writes a statement, given how classes are written; a block is written indented. -/
def write : Node → Bindings ClassId → Written
  | .giveBack value, names =>
    ⟨.keyword .returnWord :: spell names signs .test value ++ [.newline], names⟩
  | .print values, names =>
    ⟨.keyword .printWord :: spellArguments names signs values ++ [.newline], names⟩
  | .assign name value, names =>
    ⟨.identifier name :: .symbol '=' :: spell names signs .test value ++ [.newline], names⟩
  | .assignField object field value, names =>
    ⟨spell names signs .primary object ++ .symbol '.' :: .identifier field :: .symbol '=' ::
      spell names signs .test value ++ [.newline], names⟩
  | .ifThen condition consequent, names =>
    let block := write consequent names
    ⟨.keyword .ifWord :: spell names signs .test condition ++ .symbol ':' :: block.tokens,
      block.names⟩
  | .ifThenElse condition consequent alternative, names =>
    let block := write consequent names
    let other := write alternative block.names
    ⟨.keyword .ifWord :: spell names signs .test condition ++ .symbol ':' :: block.tokens ++
      .keyword .elseWord :: .symbol ':' :: other.tokens, other.names⟩
  | .block statements, names =>
    let lines := writeAll statements names
    ⟨.newline :: .indent :: lines.tokens ++ [.dedent], lines.names⟩
  | .body block, names => write block names
  | .classDefinition cls, names => define cls names
  | node, names => ⟨spell names signs .test node ++ [.newline], names⟩

/-- Writes statements one after another. -/
def writeAll : List Node → Bindings ClassId → Written
  | [], names => ⟨[], names⟩
  | first :: others, names =>
    let front := write first names
    let lines := writeAll others front.names
    ⟨front.tokens ++ lines.tokens, lines.names⟩

end

/-- Writes a method.  The receiver is always named. -/
def writeMethod (method : Method) (names : Bindings ClassId) : Written :=
  let block := write signs define method.body names
  ⟨.keyword .defWord :: .identifier method.name :: .symbol '(' ::
    parameterTokens (selfName :: method.parameters) ++ .symbol ')' :: .symbol ':' :: block.tokens,
    block.names⟩

/-- Writes methods one after another. -/
def writeMethods : List Method → Bindings ClassId → Written
  | [], names => ⟨[], names⟩
  | first :: others, names =>
    let front := writeMethod signs define first names
    let lines := writeMethods others front.names
    ⟨front.tokens ++ lines.tokens, lines.names⟩

/-- The tokens that name a parent. -/
def parentTokens (names : Bindings ClassId) : Option ClassId → List Token
  | none => []
  | some cls => [.symbol '(', .identifier (nameFor (fun _ => true) names cls), .symbol ')']

end

variable (classes : Classes) (signs : Node → Bool)

/-- Writes a class, with classes inside classes down to some depth. -/
def writeClass : Nat → ClassId → Bindings ClassId → Written
  | 0, _, names => ⟨[], names⟩
  | depth + 1, cls, names =>
    match classes.get? cls with
    | none => ⟨[], names⟩
    | some record =>
      let methods := writeMethods signs (writeClass depth) record.methods
        (names.set record.name cls)
      ⟨.keyword .classWord :: .identifier record.name :: parentTokens names record.parent ++
        .symbol ':' :: .newline :: .indent :: methods.tokens ++ [.dedent], methods.names⟩

/-- Writes what a clause means. -/
def Clause.write (define : ClassId → Bindings ClassId → Written) :
    Clause → Bindings ClassId → Written
  | statement _ node | suite _ node => Statement.write signs define node
  | statements _ nodes => writeAll signs define nodes
  | method definition => writeMethod signs define definition
  | methods definitions => writeMethods signs define definitions

/-- The tokens of a program, where names mean these classes at first. -/
def programTokens (names : Bindings ClassId) (nodes : List Node) : List Token :=
  (writeAll signs (writeClass classes signs classes.count) nodes names).tokens

/-! ## What is written derives -/

variable {classes signs}

theorem write_expression {define : ClassId → Bindings ClassId → Written}
    {makes : ClassId → Prop} {node : Node} (h : node.IsExpression makes)
    (names : Bindings ClassId) :
    write signs define node names = ⟨spell names signs .test node ++ [.newline], names⟩ := by
  cases node <;> first | rfl | exact False.elim h

theorem inherits_parentTokens {known : Known} {parent : Option ClassId}
    (h : ∀ cls, parent = some cls →
      cls < known.count ∧ ∃ named, known.names.get? named = some cls) :
    Inherits known.names parent (parentTokens known.names parent) ∧
      known.parent parent = parent := by
  cases parent with
  | none => exact ⟨.root, rfl⟩
  | some cls =>
      obtain ⟨hlt, named, hnamed⟩ := h cls rfl
      refine ⟨.child (Expression.nameFor_spec (fun _ => true) rfl hnamed).2, ?_⟩
      simp [Known.parent, hlt]

/-- Where two clauses can be written one after another, each of them can. -/
theorem Writable.room {known between : Known} {clause : Clause} {made more : List ClassRecord}
    (h : Writable known clause made between) {depth : Nat} (hdepth : (made ++ more).length ≤ depth)
    (hholds : classes.Holds known.count (made ++ more)) :
    (made.length ≤ depth ∧ classes.Holds known.count made) ∧
      more.length ≤ depth ∧ classes.Holds between.count more := by
  rw [List.length_append] at hdepth
  obtain ⟨hfirst, hmore⟩ := Classes.holds_append.mp hholds
  rw [← h.count_eq] at hmore
  exact ⟨⟨Nat.le_of_add_right_le hdepth, hfirst⟩, Nat.le_of_add_left_le hdepth, hmore⟩

/-- What is written of a clause derives from it. -/
theorem Writable.composes {known after : Known} {clause : Clause} {made : List ClassRecord}
    (h : Writable known clause made after) {depth : Nat} (hdepth : made.length ≤ depth)
    (hholds : classes.Holds known.count made) :
    Composes known clause
        (clause.write signs (writeClass classes signs depth) known.names).tokens made after ∧
      (clause.write signs (writeClass classes signs depth) known.names).names = after.names := by
  induction h generalizing depth with
  | giveBack h => exact ⟨.simple (.giveBack (derives_spell signs .test h)), rfl⟩
  | print inMethod h => exact ⟨.simple (.print inMethod (derives_spellArguments signs h)), rfl⟩
  | assign inMethod name h =>
      exact ⟨.simple (.assignment inMethod name [] (derives_spell signs .test h)), rfl⟩
  | @assignField known inMethod name fields field value h =>
      have hsimple :=
        Simple.assignment inMethod name (fields ++ [field]) (derives_spell signs .test h)
      rw [assignment, List.getLast?_concat, List.dropLast_concat, dottedTokens_append,
        List.append_assoc] at hsimple
      exact ⟨.simple hsimple, rfl⟩
  | expression inMethod h =>
      rw [Clause.write, write_expression h]
      exact ⟨.simple (.expression inMethod (derives_spell signs .test h)), rfl⟩
  | ifThen hcondition hconsequent ih =>
      obtain ⟨hblock, hnames⟩ := ih hdepth hholds
      exact ⟨.ifThen (derives_spell signs .test hcondition) hblock, hnames⟩
  | ifThenElse hcondition hconsequent halternative ihconsequent ihalternative =>
      obtain ⟨⟨hdepth, hholds⟩, hdepthAfter, hholdsAfter⟩ := hconsequent.room hdepth hholds
      obtain ⟨hblock, hbetween⟩ := ihconsequent hdepth hholds
      obtain ⟨hother, hnames⟩ := ihalternative hdepthAfter hholdsAfter
      -- the other branch is written with the names that the first one leaves
      rw [← hbetween] at hother hnames
      exact ⟨.ifThenElse (derives_spell signs .test hcondition) hblock hother, hnames⟩
  | @classDefinition known after inMethod name parent methods made hparent hmethods hsome ih =>
      obtain ⟨hinherits, hparent⟩ := inherits_parentTokens hparent
      cases depth with
      | zero => exact absurd hdepth (Nat.not_succ_le_zero _)
      | succ depth =>
          -- the class itself comes first in the table, those inside its methods behind it
          obtain ⟨hbody, hnames⟩ := ih (Nat.le_of_succ_le_succ hdepth) hholds.tail
          have hclass := Composes.classDefinition inMethod hinherits hbody hsome
          rw [hparent] at hclass
          rw [Clause.write, write, writeClass, hholds.head]
          exact ⟨hclass, hnames⟩
  | suite h hsome ih =>
      obtain ⟨hlines, hnames⟩ := ih hdepth hholds
      exact ⟨.suite hlines hsome, hnames⟩
  | statementsEnd known inMethod => exact ⟨.statementsEnd known inMethod, rfl⟩
  | statementsMore hfirst hothers ihfirst ihothers =>
      obtain ⟨⟨hdepth, hholds⟩, hdepthAfter, hholdsAfter⟩ := hfirst.room hdepth hholds
      obtain ⟨hfront, hbetween⟩ := ihfirst hdepth hholds
      obtain ⟨hlines, hnames⟩ := ihothers hdepthAfter hholdsAfter
      rw [← hbetween] at hlines hnames
      exact ⟨.statementsMore hfront hlines, hnames⟩
  | method name parameters h ih =>
      obtain ⟨hblock, hnames⟩ := ih hdepth hholds
      -- the receiver that is written is not a parameter of the method
      have hself : withoutSelf (selfName :: parameters) = parameters := by
        rw [withoutSelf, if_pos rfl]
      have hmethod : Composes _ (.method ⟨name, withoutSelf (selfName :: parameters), _⟩) _ _ _ :=
        .method hblock
      rw [hself] at hmethod
      exact ⟨hmethod, hnames⟩
  | methodsEnd known => exact ⟨.methodsEnd known, rfl⟩
  | methodsMore hfirst hothers ihfirst ihothers =>
      obtain ⟨⟨hdepth, hholds⟩, hdepthAfter, hholdsAfter⟩ := hfirst.room hdepth hholds
      obtain ⟨hfront, hbetween⟩ := ihfirst hdepth hholds
      obtain ⟨hlines, hnames⟩ := ihothers hdepthAfter hholdsAfter
      rw [← hbetween] at hlines hnames
      exact ⟨.methodsMore hfront hlines, hnames⟩

end Statement

end Offside
