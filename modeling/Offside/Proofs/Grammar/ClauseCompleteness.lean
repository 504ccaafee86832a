import Offside.Proofs.Grammar.PhraseCompleteness
import Offside.Proofs.Reading.Statement

/-!
# What derives as a statement is read

The counterpart of what is shown of expressions.  A derivation and a reading may number
classes differently: `Matches rename known declared` says that `rename` takes the classes
that are known to a derivation to those that are declared to a reading, and that both
go on numbering in step.

`Clause.Complete` says of every kind of clause that its tokens are read, and
`Composes.complete` proves it by induction on the derivation.  The trees that are read
mirror those of the derivation, and so do the classes that are declared on the way
(`Extends`).
-/

namespace Offside.Statement

open Tape
open Expression (Derives dottedTokens Level inside carriesOn?)

/-! ## First tokens -/

/-- A token that a statement may begin with. -/
def Opens (token : Token) : Prop :=
  token ≠ .keyword .elseWord ∧ token ≠ .dedent ∧ token ≠ .eof

/-- A simple statement begins with no word of a compound one. -/
theorem Simple.opens {names : Bindings ClassId} {inMethod : Bool} {node : Node}
    {tokens : List Token} (h : Simple names inMethod node tokens) :
    ∃ token rest, tokens = token :: rest ∧ Opens token ∧ token ≠ .keyword .classWord ∧
      token ≠ .keyword .ifWord := by
  cases h with
  | giveBack => exact ⟨_, _, rfl, ⟨nofun, nofun, nofun⟩, nofun, nofun⟩
  | print => exact ⟨_, _, rfl, ⟨nofun, nofun, nofun⟩, nofun, nofun⟩
  | assignment => exact ⟨_, _, rfl, ⟨nofun, nofun, nofun⟩, nofun, nofun⟩
  | expression _ hderives =>
      obtain ⟨token, rest, rfl, hbegins⟩ := hderives.begins
      refine ⟨token, rest, rfl, ⟨?_, ?_, ?_⟩, ?_, ?_⟩ <;>
        · rintro rfl
          exact hbegins

theorem Composes.opens {known after : Known} {inMethod : Bool} {node : Node}
    {tokens : List Token} {made : List ClassRecord}
    (h : Composes known (.statement inMethod node) tokens made after) :
    ∃ token rest, tokens = token :: rest ∧ Opens token := by
  cases h with
  | simple hsimple =>
      obtain ⟨token, rest, rfl, hopens, -⟩ := hsimple.opens
      exact ⟨token, _, rfl, hopens⟩
  | ifThen => exact ⟨_, _, rfl, nofun, nofun, nofun⟩
  | ifThenElse => exact ⟨_, _, rfl, nofun, nofun, nofun⟩
  | classDefinition => exact ⟨_, _, rfl, nofun, nofun, nofun⟩

/-- Where a statement lies ahead, the current token may begin it. -/
theorem Composes.opens_current {known after : Known} {inMethod : Bool} {node : Node}
    {tokens : List Token} {made : List ClassRecord} {tape rest : Tape}
    (h : Composes known (.statement inMethod node) tokens made after)
    (hpass : Passes tape tokens rest) : Opens tape.current := by
  obtain ⟨token, others, rfl, hopens⟩ := h.opens
  rw [hpass.current_eq]
  exact hopens

/-- Statements do not begin with `else`, and neither does what follows. -/
theorem Composes.current_ne_else {known after : Known} {inMethod : Bool} {nodes : List Node}
    {tokens : List Token} {made : List ClassRecord} {tape rest : Tape}
    (h : Composes known (.statements inMethod nodes) tokens made after)
    (hpass : Passes tape tokens rest) (hrest : rest.current ≠ .keyword .elseWord) :
    tape.current ≠ .keyword .elseWord := by
  cases h with
  | statementsEnd => exact passes_nil.mp hpass ▸ hrest
  | statementsMore hfirst hothers =>
      obtain ⟨behind, hpassFirst, -⟩ := passes_append.mp hpass
      exact (hfirst.opens_current hpassFirst).1

/-! ## Classes in step -/

/-- The classes that are known to a derivation are declared to a reading, under numbers of
its own. -/
structure Matches (rename : ClassId → ClassId) (known : Known) (declared : Declared) : Prop where
  names : ∀ name, declared.names.get? name = (known.names.get? name).map rename
  below : ∀ id < known.count, rename id < declared.classes.count
  next : ∀ further, rename (known.count + further) = declared.classes.count + further

/-- Classes that mirror others were added to the class table. -/
def Extends (rename : ClassId → ClassId) (before : Declared) (made : List ClassRecord)
    (after : Declared) : Prop :=
  ∃ copies, after.classes.records.toList = before.classes.records.toList ++ copies ∧
    copies.map (ClassRecord.shape id) = made.map (ClassRecord.shape rename)

variable {source : Nat} {rename : ClassId → ClassId} {known : Known}
  {before between after : Declared}

/-- A derivation and a reading may number classes alike. -/
theorem Matches.refl : Matches id (.of before) before :=
  ⟨fun _ => (Option.map_id_apply ..).symm, fun _ h => h, fun _ => rfl⟩

theorem Matches.declare {name : String} {parent : Option ClassId}
    (h : Matches rename known before) :
    Matches rename (known.declare name)
      { before with
        classes := before.classes.declare name parent
        names := before.names.set name before.classes.count } := by
  have hcount : (before.classes.declare name parent).count = before.classes.count + 1 :=
    Array.size_push _
  have hnext : rename known.count = before.classes.count := h.next 0
  refine ⟨fun other => ?_, fun id hid => ?_, fun further => ?_⟩
  · simp only [Known.declare, Bindings.get?_set, h.names]
    split
    · rw [Option.map_some, hnext]
    · rfl
  · rw [hcount]
    rcases Nat.lt_succ_iff_lt_or_eq.mp hid with hlt | rfl
    · exact Nat.lt_succ_of_lt (h.below id hlt)
    · rw [hnext]
      exact Nat.lt_succ_self _
  · rw [hcount, Nat.add_assoc, ← h.next, ← Nat.add_assoc]
    rfl

theorem Matches.define (h : Matches rename known before) (cls : ClassId) (method : Method) :
    Matches rename known { before with classes := before.classes.define cls method } := by
  have hcount : (before.classes.define cls method).count = before.classes.count :=
    Array.size_modify
  exact ⟨h.names, hcount ▸ h.below, hcount ▸ h.next⟩

theorem Matches.inherits {parent : Option ClassId} {header : List Token}
    (h : Matches rename known before) (hparent : Inherits known.names parent header) :
    Inherits before.names (parent.map rename) header := by
  cases hparent with
  | root => exact .root
  | child hcls => exact .child (by rw [h.names, hcls, Option.map_some])

theorem Matches.filter_eq {parent : Option ClassId} (h : Matches rename known before) :
    (parent.map rename).filter (· < before.classes.count) = (known.parent parent).map rename := by
  cases parent with
  | none => rfl
  | some cls =>
      by_cases hcls : cls < known.count
      · simp [Known.parent, Option.filter, hcls, h.below cls hcls]
      -- a class that is not declared yet has its number behind the count on both sides
      · obtain ⟨further, rfl⟩ := Nat.exists_eq_add_of_le (Nat.le_of_not_lt hcls)
        simp [Known.parent, Option.filter, h.next, Nat.not_lt_of_le (Nat.le_add_right _ _)]

theorem Extends.refl : Extends rename before [] before :=
  ⟨[], (List.append_nil _).symm, rfl⟩

theorem Extends.trans {made madeAfter : List ClassRecord} (h : Extends rename before made between)
    (hafter : Extends rename between madeAfter after) :
    Extends rename before (made ++ madeAfter) after := by
  obtain ⟨copies, hcopies, hshapes⟩ := h
  obtain ⟨more, hmore, hshapes'⟩ := hafter
  refine ⟨copies ++ more, ?_, ?_⟩
  · rw [hmore, hcopies, List.append_assoc]
  · rw [List.map_append, List.map_append, hshapes, hshapes']

/-! ## Simple statements -/

theorem mirrors_assignment {name : String} {fields : List String} {value copy : Node}
    (h : copy.Mirrors rename value) :
    (assignment name fields copy).Mirrors rename (assignment name fields value) := by
  unfold Node.Mirrors at h ⊢
  unfold assignment
  split <;> simp only [Node.shape, h]

theorem Simple.complete {inMethod : Bool} {node : Node} {tokens : List Token} {tape rest : Tape}
    (h : Simple known.names inMethod node tokens) (hmatches : Matches rename known before)
    (hpass : Passes tape tokens rest) (hcurrent : rest.current = .newline) :
    ∃ copy, Declares (simple source inMethod tape) before copy rest before ∧
      copy.Mirrors rename node := by
  have hnames : ∀ name, (⟨source, before.names⟩ : Expression.Setting).classes.get? name =
      (known.names.get? name).map rename := hmatches.names
  have hnone : carriesOn? rest.current = none := by rw [hcurrent]; rfl
  have hstops : Level.test.Stops rest.current := Level.stops_of_carriesOn?_eq_none hnone
  cases h with
  | giveBack hvalue =>
      obtain ⟨behind, hword, hpassValue⟩ := hpass.split [.keyword .returnWord]
      obtain ⟨copy, hread, hmirror⟩ := hvalue.reads hnames hpassValue hstops
      exact ⟨.giveBack copy, (declares_simple_return hpass.current_eq).mpr
        ⟨⟨rfl, behind, copy, hword, hread, rfl⟩, rfl⟩, congrArg Node.giveBack hmirror⟩
  | @print _ values _ hvalues =>
      obtain ⟨behind, hword, hpassValues⟩ := hpass.split [.keyword .printWord]
      cases values with
      | nil =>
          cases hvalues
          obtain rfl := passes_nil.mp hpassValues
          exact ⟨.print [], (declares_simple_print hpass.current_eq).mpr ⟨behind, [], hword,
            declares_printed.mpr ⟨.inl ⟨hcurrent, rfl, rfl⟩, rfl⟩, rfl⟩, rfl⟩
      | cons first others =>
          obtain ⟨copies, hread, hmirrors⟩ := hvalues.reads_expressions hnames hpassValues hnone
            (by rw [hcurrent]; decide)
          -- left to show: something is printed, since no expression begins with a newline
          refine ⟨.print copies, (declares_simple_print hpass.current_eq).mpr
            ⟨behind, copies, hword, declares_printed.mpr ⟨.inr ⟨?_, hread⟩, rfl⟩, rfl⟩,
            congrArg Node.print hmirrors⟩
          cases hvalues with
          | argumentsMore hfirst hothers =>
              obtain ⟨behindFirst, hpassFirst, -⟩ := passes_append.mp hpassValues
              intro hcurrent
              have hbegins := hfirst.begins_current hpassFirst
              rw [hcurrent] at hbegins
              exact hbegins
  | assignment _ name fields hvalue =>
      obtain ⟨named, hname, hpassValue⟩ := passes_append.mp hpass
      obtain ⟨behind, hequals, hpassValue'⟩ := hpassValue.split [.symbol '=']
      obtain ⟨copy, hread, hmirror⟩ := hvalue.reads hnames hpassValue' hstops
      refine ⟨_, (declares_simple_name hname.current_eq).mpr ⟨name, fields, named, hname, ?_,
        declares_namedTail.mpr ⟨.inl ⟨behind, copy, hequals, hread, rfl⟩, rfl⟩⟩,
        mirrors_assignment hmirror⟩
      rw [hequals.current_eq]
      decide
  | expression _ hnode =>
      obtain ⟨token, others, rfl, hbegins⟩ := hnode.begins
      -- a statement that begins with a name is read on from it, since it may turn out to
      -- be an assignment
      by_cases hname : ∃ name, token = .identifier name
      · obtain ⟨name, rfl⟩ := hname
        obtain ⟨fields, named, copy, hpassName, hpoint, hequals, hread, hmirror⟩ :=
          hnode.reads_continued hnames hpass hstops (by rw [hcurrent]; decide)
        exact ⟨copy, (declares_simple_name hpass.current_eq).mpr ⟨name, fields, named, hpassName,
          hpoint, declares_namedTail.mpr ⟨.inr ⟨hequals, hread⟩, rfl⟩⟩, hmirror⟩
      · obtain ⟨copy, hread, hmirror⟩ := hnode.reads hnames hpass hstops
        have hne {word : Keyword} (hword : ¬ Level.test.Begins (.keyword word)) :
            tape.current ≠ .keyword word := by
          rw [hpass.current_eq]
          rintro rfl
          exact hword hbegins
        refine ⟨copy, (declares_simple_expression (hne id) (hne id) ?_).mpr ⟨hread, rfl⟩, hmirror⟩
        rw [hpass.current_eq]
        exact not_exists.mp hname

/-- The condition of a conditional is read, and so is the colon behind it. -/
theorem Matches.reads_condition {condition : Node} {tokens more : List Token} {tape rest : Tape}
    (hmatches : Matches rename known before)
    (hcondition : Derives known.names (.operand .test condition) tokens)
    (hpass : Passes tape (.keyword .ifWord :: tokens ++ .symbol ':' :: more) rest) :
    ∃ copy opened decided began, began.length ≤ tape.length ∧
      Passes tape [.keyword .ifWord] opened ∧
      Reads (Expression.expression ⟨source, before.names⟩ opened) copy decided ∧
      Passes decided [.symbol ':'] began ∧ Passes began more rest ∧
      copy.Mirrors rename condition := by
  obtain ⟨decided, hpassCondition, hpassMore⟩ := passes_append.mp hpass
  obtain ⟨opened, hopen, hpassCondition'⟩ :=
    hpassCondition.split [.keyword .ifWord]
  obtain ⟨began, hcolon, hpassMore⟩ := hpassMore.split [.symbol ':']
  have hnames : ∀ name, (⟨source, before.names⟩ : Expression.Setting).classes.get? name =
      (known.names.get? name).map rename := hmatches.names
  obtain ⟨copy, hread, hmirror⟩ := hcondition.reads hnames hpassCondition'
    (hcolon.current_eq ▸ Level.stops_of_carriesOn?_eq_none rfl)
  exact ⟨copy, opened, decided, began, (hpassCondition.append hcolon).length_le, hopen, hread,
    hcolon, hpassMore, hmirror⟩

/-! ## Clauses -/

/-- Where the tokens of a clause lie ahead, its reader reads them, gives a tree that mirrors
that of the clause, and declares classes that mirror those that the clause makes. -/
def Clause.Complete (source : Nat) (rename : ClassId → ClassId) (known : Known)
    (tokens : List Token) (made : List ClassRecord) (after : Known) : Clause → Prop
  | statement inMethod node => ∀ {before : Declared} {tape rest : Tape},
      Matches rename known before → Passes tape tokens rest →
      rest.current ≠ .keyword .elseWord →
      ∃ copy later, Declares (Statement.statement source inMethod tape) before copy rest later ∧
        copy.Mirrors rename node ∧ Extends rename before made later ∧ Matches rename after later
  | statements inMethod nodes => ∀ {before : Declared} {outer tape rest : Tape}
      (h : tape.length < outer.length), Matches rename known before → Passes tape tokens rest →
      rest.current = .dedent →
      ∃ copies later, Declares (Statement.statements (within source outer) inMethod tape h) before
          copies rest later ∧ Node.MirrorsAll rename copies nodes ∧
        Extends rename before made later ∧ Matches rename after later
  | suite inMethod node => ∀ {before : Declared} {outer tape rest : Tape}
      (h : tape.length ≤ outer.length), Matches rename known before → Passes tape tokens rest →
      ∃ copy later, Declares (Statement.suite (within source outer) inMethod tape h) before copy
          rest later ∧ copy.Mirrors rename node ∧ Extends rename before made later ∧
        Matches rename after later
  | method definition => ∀ {before : Declared} {outer tape rest : Tape}
      (h : tape.length ≤ outer.length), Matches rename known before → Passes tape tokens rest →
      ∃ copy later, Declares (Statement.method (within source outer) tape h) before copy rest
          later ∧ copy.shape id = definition.shape rename ∧ Extends rename before made later ∧
        Matches rename after later
  | methods definitions => ∀ {before : Declared} {outer tape rest : Tape} {cls : ClassId}
      {front behind : List ClassRecord} {record : ClassRecord} (h : tape.length < outer.length),
      Matches rename known before → front.length = cls →
      before.classes.records.toList = front ++ record :: behind → Passes tape tokens rest →
      rest.current = .dedent →
      ∃ copies copied later, Declares (Statement.methods (within source outer) cls tape h) before ()
          rest later ∧ copies.map (Method.shape id) = definitions.map (Method.shape rename) ∧
        copied.map (ClassRecord.shape id) = made.map (ClassRecord.shape rename) ∧
        later.classes.records.toList = front ++
          { record with methods := record.methods ++ copies } :: behind ++ copied ∧
        Matches rename after later

/-- What composes is read. -/
theorem Composes.complete {after : Known} {clause : Clause} {tokens : List Token}
    {made : List ClassRecord} (h : Composes known clause tokens made after) :
    clause.Complete source rename known tokens made after := by
  induction h with
  | simple hsimple =>
      intro before tape rest hmatches hpass helse
      obtain ⟨ending, hpassSimple, hending⟩ := passes_append.mp hpass
      obtain ⟨copy, hread, hmirror⟩ :=
        hsimple.complete hmatches hpassSimple hending.current_eq
      obtain ⟨token, others, rfl, -, hclass, hif⟩ := hsimple.opens
      -- neither a class nor a conditional begins here, so the line is read
      rw [← hpassSimple.current_eq] at hclass hif
      exact ⟨copy, before, (declares_statement_line hclass hif).mpr
        (declares_line.mpr ⟨ending, hread, hending⟩), hmirror, .refl, hmatches⟩
  | ifThen hcondition hconsequent ih =>
      intro before tape rest hmatches hpass helse
      obtain ⟨copy, opened, decided, began, hbegan, hopen, hread, hcolon, hpassSuite, hmirror⟩ :=
        hmatches.reads_condition hcondition hpass
      obtain ⟨copy', later, hread', hmirror', hextends, hlater⟩ := ih hbegan hmatches hpassSuite
      refine ⟨_, later, (declares_statement_if hpass.current_eq).mpr (declares_conditional.mpr
        ⟨copy, copy', opened, decided, began, rest, later, hbegan, hopen, hread, hcolon, hread',
        .inl ⟨helse, rfl, rfl, rfl⟩⟩), ?_, hextends, hlater⟩
      simp only [Node.Mirrors, Node.shape]
      rw [hmirror, hmirror']
  | ifThenElse hcondition hconsequent halternative ihconsequent ihalternative =>
      intro before tape rest hmatches hpass helse
      obtain ⟨behind, hpassIf, hpassElse⟩ := passes_append.mp hpass
      obtain ⟨copy, opened, decided, began, hbegan, hopen, hread, hcolon, hpassSuite, hmirror⟩ :=
        hmatches.reads_condition hcondition hpassIf
      obtain ⟨copy', between, hread', hmirror', hextends, hbetween⟩ :=
        ihconsequent hbegan hmatches hpassSuite
      obtain ⟨otherwise, hword, hpassElse⟩ :=
        hpassElse.split [.keyword .elseWord, .symbol ':']
      have hotherwise := Nat.le_trans hword.length_le hpassIf.length_le
      obtain ⟨copy'', later, hread'', hmirror'', hextends', hlater⟩ :=
        ihalternative hotherwise hbetween hpassElse
      refine ⟨_, later, (declares_statement_if hpass.current_eq).mpr (declares_conditional.mpr
        ⟨copy, copy', opened, decided, began, behind, between, hbegan, hopen, hread, hcolon, hread',
        .inr ⟨copy'', otherwise, hotherwise, hword, hread'', rfl⟩⟩), ?_, hextends.trans hextends',
        hlater⟩
      simp only [Node.Mirrors, Node.shape]
      rw [hmirror, hmirror', hmirror'']
  | @classDefinition known after inMethod name parent header tokens definitions made hparent
      hmethods hsome ih =>
      intro before tape rest hmatches hpass helse
      obtain ⟨closed, hpass, hclose⟩ := passes_append.mp hpass
      obtain ⟨opened, hopen, hpassMethods⟩ :=
        Passes.split (.keyword .classWord :: .identifier name :: header ++
          [.symbol ':', .newline, .indent]) (by simpa using hpass)
      obtain ⟨marked, hword, hpassOpen⟩ := hopen.split [.keyword .classWord]
      have hopened : opened.length < tape.length :=
        Nat.lt_of_le_of_lt hpassOpen.length_le (reads_advance.mpr hword).shorter
      -- the methods are read with the class declared but still empty
      obtain ⟨copies, copied, between, hread, hmethodShapes, hshapes, hbetween, hafter⟩ :=
        ih hopened hmatches.declare before.classes.length_toList_records
          (Classes.toList_records_declare before.classes name (parent.map rename)) hpassMethods
          hclose.current_eq
      refine ⟨.classDefinition before.classes.count, _,
        (declares_statement_class hopen.current_eq).mpr (declares_classDefinition.mpr ⟨name,
        parent.map rename, header, opened, closed, between, hopened, hmatches.inherits hparent,
        hopen, hread, hclose, rfl, rfl⟩), ?_,
        ⟨⟨name, (parent.map rename).filter (· < before.classes.count), copies⟩ :: copied, ?_, ?_⟩,
        hafter.names, hafter.below, hafter.next⟩
      · exact congrArg Node.classDefinition (hmatches.next 0).symm
      · rw [hbetween, List.append_assoc]
        rfl
      · simp only [List.map_cons, ClassRecord.shape, hmethodShapes, hshapes,
          hmatches.filter_eq, Option.map_id, id]
  | suite hnodes hsome ih =>
      intro before outer tape rest h hmatches hpass
      obtain ⟨closed, hpassNodes, hclose⟩ := passes_append.mp hpass
      obtain ⟨opened, hopen, hpassNodes⟩ :=
        hpassNodes.split [.newline, .indent]
      have hlength := hopen.length_eq
      have hopened : opened.length < outer.length := by
        simp only [List.length_cons] at hlength
        omega
      obtain ⟨copies, later, hread, hmirrors, hextends, hafter⟩ :=
        ih hopened hmatches hpassNodes hclose.current_eq
      exact ⟨.block copies, later,
        declares_suite.mpr ⟨copies, opened, closed, hopened, hopen, hread, hclose, rfl⟩,
        congrArg Node.block hmirrors, hextends, hafter⟩
  | statementsEnd known inMethod =>
      intro before outer tape rest h hmatches hpass hdedent
      obtain rfl := passes_nil.mp hpass
      exact ⟨[], before, declares_statements.mpr (.inl ⟨hdedent, rfl, rfl, rfl⟩), rfl, .refl,
        hmatches⟩
  | statementsMore hfirst hothers ihfirst ihothers =>
      intro before outer tape rest h hmatches hpass hdedent
      obtain ⟨behind, hpassFirst, hpassOthers⟩ := passes_append.mp hpass
      obtain ⟨copy, between, hread, hmirror, hextends, hbetween⟩ :=
        ihfirst hmatches hpassFirst (hothers.current_ne_else hpassOthers (by rw [hdedent]; decide))
      have hbehind := Nat.lt_of_le_of_lt hpassFirst.length_le h
      obtain ⟨copies, later, hread', hmirrors, hextends', hlater⟩ :=
        ihothers hbehind hbetween hpassOthers hdedent
      -- there is a statement to read: the block does not end here
      obtain ⟨-, hne, heof⟩ := hfirst.opens_current hpassFirst
      exact ⟨copy :: copies, later, declares_statements.mpr (.inr ⟨hne, heof, copy, copies, behind,
        between, hbehind, hread, hread', rfl⟩), .cons hmirror hmirrors, hextends.trans hextends',
        hlater⟩
  | @method known after name names block tokens made hblock ih =>
      intro before outer tape rest h hmatches hpass
      obtain ⟨opened, hopen, hpassBlock⟩ :=
        Passes.split (.keyword .defWord :: .identifier name :: .symbol '(' ::
          parameterTokens names ++ [.symbol ')', .symbol ':']) (by simpa using hpass)
      have hopened := Nat.le_trans hopen.length_le h
      obtain ⟨copy, later, hread, hmirror, hextends, hlater⟩ := ih hopened hmatches hpassBlock
      refine ⟨_, later, declares_method.mpr ⟨name, names, copy, opened, hopened, hopen, hread, rfl⟩,
        ?_, hextends, hlater⟩
      simp only [Method.shape, Node.shape]
      rw [hmirror]
  | methodsEnd known =>
      intro before outer tape rest cls front behind record h hmatches hcls hbefore hpass hdedent
      obtain rfl := passes_nil.mp hpass
      refine ⟨[], [], before, declares_methods.mpr (.inl ⟨hdedent, rfl, rfl⟩), rfl, rfl, ?_,
        hmatches⟩
      simpa using hbefore
  | methodsMore hfirst hothers ihfirst ihothers =>
      intro before outer tape rest cls front behind record h hmatches hcls hbefore hpass hdedent
      obtain ⟨after, hpassFirst, hpassOthers⟩ := passes_append.mp hpass
      obtain ⟨copy, between, hread, hshape, ⟨copied, hcopied, hshapes⟩, hbetween⟩ :=
        ihfirst (Nat.le_of_lt h) hmatches hpassFirst
      -- the body may declare classes of its own, which come behind all others
      rw [hbefore, List.append_assoc, List.cons_append] at hcopied
      have hdefined := Classes.toList_records_define copy hcls hcopied
      have hafter := Nat.lt_of_le_of_lt hpassFirst.length_le h
      obtain ⟨copies, copied', later, hread', hmethods, hshapes', hlater, hmatches'⟩ :=
        ihothers hafter (hbetween.define cls copy) hcls hdefined hpassOthers hdedent
      refine ⟨copy :: copies, copied ++ copied', later, declares_methods.mpr (.inr ⟨?_, copy, after,
        between, hafter, hread, hread'⟩), ?_, ?_, ?_, hmatches'⟩
      · cases hfirst
        rw [hpassFirst.current_eq]
        decide
      · rw [List.map_cons, List.map_cons, hshape, hmethods]
      · rw [List.map_append, List.map_append, hshapes, hshapes']
      · simpa using hlater

/-- What composes as statements is read as a program up to the end of the source. -/
theorem Composes.reads_program {after : Known} {nodes : List Node} {tokens : List Token}
    {made : List ClassRecord} {tape : Tape} {place : Place} {beforeLast : Nat}
    (h : Composes known (.statements false nodes) tokens made after)
    (hmatches : Matches rename known before)
    (hpass : Passes tape tokens (.ended place beforeLast)) :
    ∃ copies later, program source tape before = .ok copies later ∧
      Node.MirrorsAll rename copies nodes ∧ Extends rename before made later ∧
      Matches rename after later := by
  -- a program ends where the source ends, so the induction is on its statements
  induction nodes generalizing known before tokens made tape with
  | nil =>
      cases h
      obtain rfl := passes_nil.mp hpass
      exact ⟨[], before, program_eq_ok_iff.mpr (.inl ⟨rfl, rfl, rfl⟩), rfl, .refl, hmatches⟩
  | cons first others ih =>
      cases h with
      | statementsMore hfirst hothers =>
          obtain ⟨behind, hpassFirst, hpassOthers⟩ := passes_append.mp hpass
          obtain ⟨copy, between, hread, hmirror, hextends, hbetween⟩ :=
            hfirst.complete hmatches hpassFirst (hothers.current_ne_else hpassOthers nofun)
          obtain ⟨copies, later, hread', hmirrors, hextends', hlater⟩ :=
            ih hothers hbetween hpassOthers
          obtain ⟨-, -, heof⟩ := hfirst.opens_current hpassFirst
          exact ⟨copy :: copies, later, program_eq_ok_iff.mpr (.inr ⟨heof, copy, copies, behind,
            between, hread, hread', rfl⟩), .cons hmirror hmirrors, hextends.trans hextends', hlater⟩

end Offside.Statement
