import Offside.Proofs.Grammar.Acceptance
import Offside.Proofs.Scanning.Concatenation

/-!
# Programs one after another

Two sources, one behind the other, are one program: the statements of the first source and
then those of the second one, read with the classes that the first source declares.  The
first source has to end with a line feed that is not inside a string literal.

One case is left out.  Where a block is open at the end of the first source, and the second
source is a string literal that is not closed, the end of the source stands behind the marks
that close the block, not behind a line, and so the line that it ends is empty.
-/

namespace Offside

namespace Statement

variable {known between after : Known} {inMethod : Bool} {node : Node}
  {nodes others : List Node} {tokens more : List Token} {made madeAfter : List ClassRecord}

/-- Statements compose with the statements behind them. -/
theorem Composes.append (h : Composes known (.statements inMethod nodes) tokens made between)
    (hothers : Composes between (.statements inMethod others) more madeAfter after) :
    Composes known (.statements inMethod (nodes ++ others)) (tokens ++ more)
      (made ++ madeAfter) after := by
  induction nodes generalizing known tokens made with
  | nil =>
      cases h
      exact hothers
  | cons first nodes ih =>
      cases h with
      | statementsMore hfirst hrest =>
          rw [List.append_assoc, List.append_assoc]
          exact .statementsMore hfirst (ih hrest)

/-- A line does not begin with the start of a block. -/
theorem Simple.head?_ne_indent {names : Bindings ClassId} (h : Simple names inMethod node tokens)
    (more : List Token) : (tokens ++ more).head? ≠ some .indent := by
  cases h with
  | giveBack => simp
  | print => simp
  | assignment => simp [Expression.dottedTokens]
  | expression _ hderives =>
      obtain ⟨token, rest, rfl, hbegins⟩ := hderives.begins
      intro hhead
      cases hhead
      exact hbegins

/-- Neither does a program. -/
theorem Composes.head?_ne_indent
    (h : Composes known (.statements inMethod nodes) tokens made after) :
    (tokens ++ [Token.eof]).head? ≠ some .indent := by
  cases h with
  | statementsEnd => simp
  | statementsMore hfirst hothers =>
      rw [List.append_assoc]
      cases hfirst with
      | simple hsimple =>
          rw [List.append_assoc]
          exact hsimple.head?_ne_indent _
      | ifThen => simp
      | ifThenElse => simp
      | classDefinition => simp

end Statement

/-- The same names mean the same classes, and there are the same classes, up to the origins of
the literals in them. -/
def Declared.Agrees (one other : Declared) : Prop :=
  (∀ name, one.names.get? name = other.names.get? name) ∧
    one.classes.records.toList.map (ClassRecord.shape id) =
      other.classes.records.toList.map (ClassRecord.shape id)

/-- A block is open where the source ends. -/
def Tape.EndsInBlock (tape : Tape) : Prop :=
  [.dedent, .eof] <:+ tape.words

namespace Program

variable {source : Nat} {classes : Classes} {names : Bindings ClassId} {tape : Tape}
  {nodes : List Node}

/-- What reading a source without a fault takes off the tape and declares. -/
theorem composes_of_read {text : String} (htape : Tape.ofString text = .ok tape)
    (hread : (read source classes names tape).result = .ok (.block nodes)) :
    ∃ tokens made, tape.fault? = none ∧ tape.words = tokens ++ [.eof] ∧
      Statement.Composes ⟨names, classes.count⟩ (.statements false nodes) tokens made
        (.of (read source classes names tape).declared) ∧
      (read source classes names tape).declared.classes.records.toList =
        classes.records.toList ++ made := by
  obtain ⟨statements, after, hprogram, htree⟩ := result_eq_ok_iff.mp hread
  cases htree
  obtain ⟨place, beforeLast, tokens, made, hpass, hcomposes, hmade⟩ :=
    Statement.spans_of_program (Tape.laid_of_ofString htape) hprogram
  rw [declared_of_program hprogram]
  exact ⟨tokens, made, hpass.fault?_eq_none, hpass.words_eq, hcomposes, hmade⟩

/-- Two sources, one behind the other, are read as the statements of the first and those of the
second, and declare what the second one does behind the first. -/
theorem read_append {first second : String} {behind : Tape} {later whole : Nat}
    {others : List Node} {front back : Program}
    (hend : first = "" ∨ Region.EndsLine first.toList)
    (hfirst : Tape.ofString first = .ok tape) (hsecond : Tape.ofString second = .ok behind)
    (hfront : read source classes names tape = front)
    (hback : read later front.declared.classes front.declared.names behind = back)
    (hnodes : front.result = .ok (.block nodes)) (hothers : back.result = .ok (.block others))
    (hclosed : tape.EndsInBlock → ¬ (Scanner.ofString second).BeginsUnclosed) :
    ∃ joined copies, Tape.ofString (first ++ second) = .ok joined ∧
      (read whole classes names joined).result = .ok (.block copies) ∧
      Node.MirrorsAll id copies (nodes ++ others) ∧
      (read whole classes names joined).declared.Agrees back.declared := by
  subst hfront hback
  obtain ⟨tokens, made, hfault, hwords, hcomposes, hmade⟩ := composes_of_read hfirst hnodes
  obtain ⟨more, madeAfter, hfault', hwords', hcomposes', hmade'⟩ :=
    composes_of_read hsecond hothers
  -- the tokens of both texts, which the scanner delivers one after another
  have hdelivers := Tape.delivers_ofString_iff.mpr ⟨tape, hfirst, hfault, hwords⟩
  have hdelivers' := Tape.delivers_ofString_iff.mpr ⟨behind, hsecond, hfault', hwords'⟩
  have hend' : first.toList = [] ∨ Region.EndsLine first.toList := by
    rcases hend with heq | hend
    · rw [heq]
      exact .inl rfl
    · exact .inr hend
  rw [Tape.EndsInBlock, hwords] at hclosed
  obtain ⟨before, hbefore, hboth⟩ :=
    Scanner.delivers_append hend' hdelivers hdelivers' hcomposes'.head?_ne_indent hclosed
  rw [← List.append_cancel_right hbefore, ← String.toList_append, ← List.append_assoc] at hboth
  obtain ⟨joined, hjoined, hscanned, hall⟩ := Tape.delivers_ofString_iff.mp hboth
  -- they compose as the statements of both programs, and what composes is read
  have hstart := @Statement.Matches.refl ⟨classes, names, []⟩
  obtain ⟨copies, hread, hmirrors, hextends, hmatches⟩ :=
    read_of_composes (hcomposes.append hcomposes') hstart hscanned hall whole
  refine ⟨joined, copies, hjoined, hread, hmirrors, ?_⟩
  constructor
  · intro name
    rw [hmatches.names name, Option.map_id_apply]
    rfl
  · obtain ⟨records, hrecords, hshapes⟩ := hextends
    rw [hrecords, hmade', hmade, List.map_append, hshapes]
    simp

/-- A tree that is read is a block. -/
theorem exists_block (h : (read source classes names tape).result.toBool = true) :
    ∃ nodes, (read source classes names tape).result = .ok (.block nodes) := by
  cases hresult : (read source classes names tape).result with
  | error fault =>
      rw [hresult] at h
      cases h
  | ok tree =>
      obtain ⟨nodes, after, -, rfl⟩ := result_eq_ok_iff.mp hresult
      exact ⟨nodes, rfl⟩

theorem exists_of_map_eq_ok {α β : Type} {found : Except SourceFault α} {f : α → β} {value : β}
    (h : found.map f = .ok value) : ∃ inner, found = .ok inner ∧ f inner = value := by
  cases found with
  | error fault => cases h
  | ok inner => exact ⟨inner, rfl, Except.ok.inj h⟩

/-- A source that ends in a block, and one that uses the class of the first. -/
theorem read_append_sample :
    ∃ tape behind nodes others,
      Tape.ofString "class A:\n  def f():\n    print\n" = .ok tape ∧
      Tape.ofString "# call\nA().f()" = .ok behind ∧
      (read 0 .empty .empty tape).result = .ok (.block nodes) ∧
      (read 1 (read 0 .empty .empty tape).declared.classes
        (read 0 .empty .empty tape).declared.names behind).result = .ok (.block others) ∧
      ∃ joined copies,
        Tape.ofString ("class A:\n  def f():\n    print\n" ++ "# call\nA().f()") = .ok joined ∧
        (read 2 .empty .empty joined).result = .ok (.block copies) ∧
        Node.MirrorsAll id copies (nodes ++ others) ∧
        (read 2 .empty .empty joined).declared.Agrees
          (read 1 (read 0 .empty .empty tape).declared.classes
            (read 0 .empty .empty tape).declared.names behind).declared := by
  have hboth : ((Tape.ofString "class A:\n  def f():\n    print\n").map fun tape =>
      ((read 0 .empty .empty tape).result.toBool, (Tape.ofString "# call\nA().f()").map
        fun behind => (read 1 (read 0 .empty .empty tape).declared.classes
          (read 0 .empty .empty tape).declared.names behind).result.toBool)) =
      .ok (true, .ok true) := by
    decide +kernel
  obtain ⟨tape, htape, hreads⟩ := exists_of_map_eq_ok hboth
  obtain ⟨hread, hmore⟩ := Prod.mk.inj hreads
  obtain ⟨behind, hbehind, hmore⟩ := exists_of_map_eq_ok hmore
  obtain ⟨nodes, hnodes⟩ := exists_block hread
  obtain ⟨others, hothers⟩ := exists_block hmore
  exact ⟨tape, behind, nodes, others, htape, hbehind, hnodes, hothers,
    read_append (.inr (by decide +kernel)) htape hbehind rfl rfl hnodes hothers
      fun _ => by decide +kernel⟩

/-- Both sources are read, and yet not one behind the other: the first one ends in a block, and
the second one is a string literal that is not closed. -/
theorem read_append_unclosed :
    Region.EndsLine "if True:\n  print\n".toList ∧
    ∃ tape behind joined nodes others,
      Tape.ofString "if True:\n  print\n" = .ok tape ∧ Tape.ofString "'" = .ok behind ∧
      (read 0 .empty .empty tape).result = .ok (.block nodes) ∧
      (read 1 (read 0 .empty .empty tape).declared.classes
        (read 0 .empty .empty tape).declared.names behind).result = .ok (.block others) ∧
      Tape.ofString ("if True:\n  print\n" ++ "'") = .ok joined ∧
      (read 0 .empty .empty joined).result = .error ⟨.unexpectedToken .newline, 3⟩ := by
  have hboth : ((Tape.ofString "if True:\n  print\n").map fun tape =>
      ((read 0 .empty .empty tape).result.toBool, (Tape.ofString "'").map
        fun behind => (read 1 (read 0 .empty .empty tape).declared.classes
          (read 0 .empty .empty tape).declared.names behind).result.toBool)) =
      .ok (true, .ok true) := by
    decide +kernel
  have hwhole : ((Tape.ofString ("if True:\n  print\n" ++ "'")).map fun joined =>
      (read 0 .empty .empty joined).result.map fun _ => ()) =
      .ok (.error ⟨.unexpectedToken .newline, 3⟩) := by
    decide +kernel
  obtain ⟨tape, htape, hreads⟩ := exists_of_map_eq_ok hboth
  obtain ⟨hread, hmore⟩ := Prod.mk.inj hreads
  obtain ⟨behind, hbehind, hmore⟩ := exists_of_map_eq_ok hmore
  obtain ⟨joined, hjoined, hrefused⟩ := exists_of_map_eq_ok hwhole
  obtain ⟨nodes, hnodes⟩ := exists_block hread
  obtain ⟨others, hothers⟩ := exists_block hmore
  refine ⟨by decide +kernel, tape, behind, joined, nodes, others, htape, hbehind, hnodes, hothers,
    hjoined, ?_⟩
  cases hresult : (read 0 .empty .empty joined).result with
  | ok tree =>
      rw [hresult] at hrefused
      cases hrefused
  | error fault =>
      rw [hresult] at hrefused
      cases hrefused
      rfl

end Program

end Offside
