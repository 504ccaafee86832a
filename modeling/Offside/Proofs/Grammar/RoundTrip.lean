import Offside.Proofs.Grammar.Rendering
import Offside.Proofs.Grammar.Runnable

/-!
# Reading back what was written

A tree that can be written is read back from what is written of it, up to the origins of
its literals and the numbers of its classes: what is written derives
(`Writable.composes`), and what derives is read (`Composes.reads_program`).  Every tree
that is read can be written, because whatever is read derives.

The tree may be read back elsewhere, where there are other classes: it is enough that
the names mean corresponding ones there (`Matches`).
-/

namespace Offside

namespace Expression

/-- What is written of an expression is read back wherever an operand is read. -/
theorem reads_spell (signs : Node → Bool) {names : Bindings ClassId} {setting : Setting}
    {rename : ClassId → ClassId} {outer tape rest : Tape} {level : Level} {node : Node}
    (hnode : node.IsExpression (Callable names))
    (hclasses : ∀ name, setting.classes.get? name = (names.get? name).map rename)
    (h : tape.length ≤ outer.length)
    (hpass : Tape.Passes tape (spell names signs level node) rest)
    (hstops : level.Stops rest.current) :
    ∃ copy, Tape.Reads (level.read (inside setting outer) setting tape h) copy rest ∧
      copy.Mirrors rename node :=
  (derives_spell signs level hnode).complete hclasses h hpass hstops

end Expression

namespace Classes

/-- There are at least as many classes as are held. -/
theorem Holds.length_le {classes : Classes} {first : ClassId} {records : List ClassRecord}
    (h : classes.Holds first records) : records.length ≤ classes.count := by
  by_cases hrecords : records.length = 0
  · rw [hrecords]
    exact Nat.zero_le _
  · have hlast : records.length - 1 < records.length := by omega
    have hget := h _ _ (List.getElem?_eq_getElem hlast)
    have hlt : first + (records.length - 1) < classes.count :=
      (Array.getElem?_eq_some_iff.mp hget).1
    apply Nat.le_of_pred_lt
    calc records.length - 1
        ≤ first + (records.length - 1) := Nat.le_add_left _ _
      _ < classes.count := hlt

end Classes

namespace Program

open Statement (Extends Matches Writable programTokens)
open Expression (Callable Level Setting bare inside spell)

/-- Reading undoes writing.  Every tree that is read can be written.  Whatever is written
of a tree that can be written is read as the same tree, up to the numbers of the classes
that it makes, and an expression is so wherever an operand may stand.  An expression is
written in parentheses only where every text of it has them. -/
theorem read_write (signs : Node → Bool) :
    (∀ {source : Nat} {classes : Classes} {names : Bindings ClassId} {text : String} {tape : Tape}
        {tree : Node}, Tape.ofString text = .ok tape →
      (read source classes names tape).result = .ok tree →
      ∃ nodes made after, tree = .block nodes ∧
        Writable ⟨names, classes.count⟩ (.statements false nodes) made after ∧
        (read source classes names tape).declared.classes.Holds classes.count made) ∧
    (∀ {known after : Statement.Known} {nodes : List Node} {made : List ClassRecord}
        {table : Classes}, Writable known (.statements false nodes) made after →
      table.Holds known.count made →
      ∀ {source : Nat} {rename : ClassId → ClassId} {classes : Classes} {names : Bindings ClassId}
        {tape : Tape}, Matches rename known ⟨classes, names, []⟩ → tape.fault? = none →
      tape.words = programTokens table signs known.names nodes ++ [.eof] →
      ∃ copies, (read source classes names tape).result = .ok (.block copies) ∧
        Node.MirrorsAll rename copies nodes ∧
        Extends rename ⟨classes, names, []⟩ made (read source classes names tape).declared) ∧
    (∀ {names : Bindings ClassId} {level : Level} {node : Node},
      node.IsExpression (Callable names) →
      ∀ {setting : Setting} {rename : ClassId → ClassId} {outer tape rest : Tape}
        (h : tape.length ≤ outer.length),
      (∀ name, setting.classes.get? name = (names.get? name).map rename) →
      Tape.Passes tape (spell names signs level node) rest → level.Stops rest.current →
      ∃ copy, Tape.Reads (level.read (inside setting outer) setting tape h) copy rest ∧
        copy.Mirrors rename node) ∧
    (∀ {names : Bindings ClassId} {level : Level} {node : Node} {tokens : List Token},
      Expression.Derives names (.operand level node) tokens →
      spell names (fun _ => true) level node ≠ bare names (fun _ => true) node →
      ∃ inner, tokens = .symbol '(' :: inner ++ [.symbol ')']) := by
  refine ⟨?_, ?_, ?_, ?_⟩
  · intro source classes names text tape tree htape hread
    obtain ⟨nodes, made, after, htree, hwritable, -, hmade⟩ :=
      writable_of_read (Tape.laid_of_ofString htape) hread
    exact ⟨nodes, made, after, htree, hwritable, Classes.holds_of_toList_eq hmade⟩
  · intro known after nodes made table hwritable hholds source rename classes names tape hmatches
      hscanned hwords
    obtain ⟨tokens, place, beforeLast, hpass⟩ := Tape.passes_of_fault?_eq_none hscanned
    rw [hpass.words_eq] at hwords
    have hcomposes : Statement.Composes known (.statements false nodes)
        (programTokens table signs known.names nodes) made after :=
      (hwritable.composes hholds.length_le hholds).1
    -- the tokens on the tape are those that were written
    rw [List.append_cancel_right hwords] at hpass
    obtain ⟨copies, later, hprogram, hmirrors, hextends, -⟩ :=
      @Statement.Composes.reads_program source _ _ _ _ _ _ _ _ _ _ hcomposes hmatches hpass
    refine ⟨copies, result_eq_ok_iff.mpr ⟨copies, later, hprogram, rfl⟩, hmirrors, ?_⟩
    unfold read
    rw [hprogram]
    exact hextends
  · intro names level node hnode setting rename outer tape rest h hclasses hpass hstops
    exact Expression.reads_spell signs hnode hclasses h hpass hstops
  · intro names level node tokens hderives hspell
    exact hderives.eq_parentheses hspell

/-! A method whose value needs parentheses, and a call behind a call. -/

/-- A disjunction as a factor. -/
def sampleFactor : Node :=
  .connective .or (.variable "x" []) (.number (.made 0) 1)

/-- The method `f` of the sample. -/
def sampleMethod : Method :=
  ⟨"f", ["x"], .body (.block [.giveBack (.arithmetic .multiply sampleFactor
    (.arithmetic .subtract (.number (.made 0) 0) (.variable "x" [])))])⟩

/-- The class `A` of the sample. -/
def sampleRecord : ClassRecord :=
  ⟨"A", none, [sampleMethod]⟩

/-- The sample. -/
def sampleNodes : List Node :=
  [.classDefinition 0, .print [.call (.create 0 []) "f" [.number (.made 0) 2]]]

/-- The class table of the sample. -/
def sampleTable : Classes :=
  (Classes.empty.declare "A" none).define 0 sampleMethod

theorem read_write_sample :
    ∃ tape copies, Tape.ofString
        "class A:\n  def f(self, x):\n    return (x or 1) * -x\nprint A().f(2)\n" = .ok tape ∧
      tape.fault? = none ∧
      tape.words = programTokens sampleTable (fun _ => true) .empty sampleNodes ++ [.eof] ∧
      (read 0 .empty .empty tape).result = .ok (.block copies) ∧
      Node.MirrorsAll id copies sampleNodes ∧
      (∃ nodes made after, Node.block copies = .block nodes ∧
        Writable ⟨.empty, 0⟩ (.statements false nodes) made after ∧
        (read 0 .empty .empty tape).declared.classes.Holds 0 made) ∧
      (∃ inner, spell .empty (fun _ => true) .product sampleFactor =
        .symbol '(' :: inner ++ [.symbol ')']) := by
  have hwritable : Writable ⟨.empty, 0⟩ (.statements false sampleNodes) [sampleRecord]
      ⟨Bindings.empty.set "A" 0, 1⟩ := by
    have hvalue : Writable ⟨Bindings.empty.set "A" 0, 1⟩ (.method sampleMethod) []
        ⟨Bindings.empty.set "A" 0, 1⟩ := by
      refine .method "f" ["x"] (.suite (.statementsMore (.giveBack ?_) (.statementsEnd _ _)) ?_)
      · exact ⟨⟨trivial, Int.one_nonneg⟩, Int.le_refl 0, trivial⟩
      · exact List.cons_ne_nil _ _
    have hclass : Writable ⟨.empty, 0⟩ (.statement false (.classDefinition 0)) [sampleRecord]
        ⟨Bindings.empty.set "A" 0, 1⟩ :=
      .classDefinition false nofun (.methodsMore hvalue (.methodsEnd _)) (List.cons_ne_nil _ _)
    refine .statementsMore hclass (.statementsMore (.print false ?_) (.statementsEnd _ _))
    refine ⟨⟨trivial, ⟨⟨"A", by decide, rfl⟩, trivial⟩, ?_, trivial⟩, trivial⟩
    exact Int.le_of_lt (by decide : (0 : Int) < 2)
  have hholds : sampleTable.Holds 0 [sampleRecord] := by
    intro index record hrecord
    cases index with
    | zero =>
        cases hrecord
        rfl
    | succ index => cases hrecord
  have hmatches : Matches id ⟨.empty, 0⟩ ⟨.empty, .empty, []⟩ :=
    @Matches.refl ⟨.empty, .empty, []⟩
  have hwords : (Tape.ofString
      "class A:\n  def f(self, x):\n    return (x or 1) * -x\nprint A().f(2)\n").map
      (fun tape => (tape.fault?, tape.words)) =
      .ok (none, programTokens sampleTable (fun _ => true) .empty sampleNodes ++ [.eof]) := by
    decide +kernel
  have hfactor : Expression.Derives .empty (.operand .product sampleFactor)
      (spell .empty (fun _ => true) .product sampleFactor) :=
    Expression.derives_spell _ _ ⟨trivial, Int.one_nonneg⟩
  cases htape : Tape.ofString
      "class A:\n  def f(self, x):\n    return (x or 1) * -x\nprint A().f(2)\n" with
  | error fault =>
      rw [htape] at hwords
      cases hwords
  | ok tape =>
      rw [htape] at hwords
      obtain ⟨hscanned, hwords⟩ := Prod.mk.inj (Except.ok.inj hwords)
      obtain ⟨hwrite, hreadBack, -, hparentheses⟩ := read_write fun _ => true
      obtain ⟨copies, hread, hmirrors, -⟩ :=
        @hreadBack _ _ _ _ _ hwritable hholds 0 id .empty .empty tape hmatches hscanned hwords
      exact ⟨tape, copies, rfl, hscanned, hwords, hread, hmirrors, hwrite htape hread,
        hparentheses hfactor (by decide)⟩

end Program

end Offside
