import Offside.Proofs.Execution.Bodies
import Offside.Proofs.Execution.Origins
import Offside.Proofs.Execution.World
import Offside.Proofs.Grammar.MethodHeads
import Offside.Proofs.Rejection

/-!
# What a method starts with

A method has the parameters that its head lists in the source, but for a `self` in front of them
(`Session.Reads.signatures`).  Whatever calls it, the body starts in a frame of its own, which binds
the receiver and the arguments (`Run.bindsCalls`).

Whether a method names the receiver in front of its parameters makes no difference: where `self`
is left out there, sources are read as before, and sessions that run them are the same up to the
origins of literals (`Session.Alike.run`).
-/

namespace Offside

/-! ## Sessions -/

/-- The same names mean the same classes, whatever the origins. -/
@[simp] theorem Scope.classes_bare (scope : Scope) :
    (Scope.bare scope).classes = scope.classes := by
  have hclass (value : Handle) : value.bare.class? = value.class? := by
    cases value with
    | holding object owning => cases object <;> rfl
    | empty | returned => rfl
  simp only [Scope.classes, Bindings.filterMap, Scope.bare, List.filterMap_map, Function.comp_def,
    hclass]

namespace Session

/-- Sessions that differ in origins at most, and in how many sources they have run. -/
structure Alike (one two : Session) : Prop where
  classes : one.classes.Mirrors two.classes
  heap : one.heap.bare = two.heap.bare
  globals : Scope.bare one.globals = Scope.bare two.globals

/-- Running a source in one session and another source in another one comes to the same: both are
refused, or both end in the same way; they write the same, and the sessions are alike again. -/
structure RunsAlike (one : Session) (fuel : Nat) (two : Session) (source twin : String) :
    Prop where
  session : (one.run fuel source).session.Alike (two.run fuel twin).session
  output : (one.run fuel source).output = (two.run fuel twin).output
  conclusion : (one.run fuel source).conclusion = (two.run fuel twin).conclusion ∨
    ∃ fault other, one.Refuses source fault ∧ two.Refuses twin other

variable {one two : Session} {program copy : Program} {tree twin : Node}

/-- Programs of one shape that were read run alike. -/
theorem Alike.execute (h : one.Alike two) (hclasses : program.declared.classes.Mirrors
    copy.declared.classes) (htree : tree.Mirrors id twin) (fuel : Nat) :
    (one.execute fuel program tree).session.Alike (two.execute fuel copy twin).session ∧
      (one.execute fuel program tree).output = (two.execute fuel copy twin).output ∧
      (one.execute fuel program tree).conclusion = (two.execute fuel copy twin).conclusion := by
  have hpaired := executeProgram_coincides hclasses htree fuel ⟨one.heap, one.globals, ""⟩
    ⟨two.heap, two.globals, ""⟩ ⟨h.heap, h.globals, rfl⟩
  unfold Session.execute
  dsimp only
  generalize executeProgram program.declared.classes fuel tree _ = result,
    executeProgram copy.declared.classes fuel twin _ = outcome at hpaired ⊢
  cases hpaired with
  | ok _ hstate => exact ⟨⟨hclasses, hstate.heap, hstate.scope⟩, hstate.output, rfl⟩
  | error reason hstate => exact ⟨⟨hclasses, hstate.heap, hstate.scope⟩, hstate.output, rfl⟩

/-- Sessions that are alike run sources alike that differ in naming the receiver. -/
theorem Alike.run (h : one.Alike two) {source other : String} {words twins : List Token}
    (hwords : Scanner.Delivers (.ofString source) words)
    (htwins : Scanner.Delivers (.ofString other) twins)
    (hsame : Statement.LeavesOutSelf words twins) (fuel : Nat) :
    one.RunsAlike fuel two source other := by
  obtain ⟨tape, htape, hscanned, rfl⟩ := Tape.delivers_ofString_iff.mp hwords
  obtain ⟨last, hlast, hscanned', rfl⟩ := Tape.delivers_ofString_iff.mp htwins
  have hnames : one.globals.classes = two.globals.classes := by
    rw [← Scope.classes_bare, h.globals, Scope.classes_bare]
  have hread : one.read source = .ok (Program.read one.sources one.classes one.globals.classes
      tape) := by
    rw [Session.read, htape]
    rfl
  have hother : two.read other = .ok (Program.read two.sources two.classes one.globals.classes
      last) := by
    rw [Session.read, hlast, hnames]
    rfl
  obtain ⟨fault, fault', hrefused, hrefused'⟩ | ⟨nodes, copies, hnodes, hcopies, hmirrors,
    hdeclared⟩ := Program.read_leavesOutSelf htape hlast hscanned hscanned' hsame h.classes
  · have hone : one.Refuses source fault := .inr ⟨_, hread, hrefused⟩
    have htwo : two.Refuses other fault' := .inr ⟨_, hother, hrefused'⟩
    obtain ⟨-, houtput, hsession⟩ := hone.run fuel
    obtain ⟨-, houtput', hsession'⟩ := htwo.run fuel
    refine ⟨?_, houtput.trans houtput'.symm, .inr ⟨fault, fault', hone, htwo⟩⟩
    rwa [hsession, hsession']
  · have htree : (Node.block nodes).Mirrors id (.block copies) := congrArg Node.block hmirrors
    obtain ⟨hsession, houtput, hconclusion⟩ := h.execute hdeclared htree fuel
    rw [← run_of_read hread hnodes, ← run_of_read hother hcopies] at hsession houtput hconclusion
    exact ⟨hsession, houtput, .inl hconclusion⟩

/-- The heads of methods in a source define the methods of the classes that come of it. -/
theorem Reads.signatures {session : Session} {source : String} {classes : Classes} {tree : Node}
    (h : session.Reads source classes tree) :
    ∃ words made, Scanner.Delivers (.ofString source) words ∧
      classes.records.toList = session.classes.records.toList ++ made ∧
      (made.flatMap ClassRecord.signatures).Perm
        ((Statement.methodHeads words).map Statement.headSignature) := by
  obtain ⟨program, hread, htree, rfl⟩ := h
  obtain ⟨tape, htape, rfl⟩ := Program.exists_of_map_eq_ok hread
  obtain ⟨nodes, hnodes⟩ := Program.exists_block (by rw [htree]; rfl)
  obtain ⟨-, -, hfault, -⟩ := Program.composes_of_read htape hnodes
  obtain ⟨made, hmade, hsignatures⟩ := Program.signatures_of_read htape hnodes
  exact ⟨tape.words, made, Tape.delivers_ofString_iff.mpr ⟨tape, htape, hfault, rfl⟩, hmade,
    hsignatures⟩

end Session

/-! ## Calls -/

open Run

/-- In class tables of one shape the methods of a name have the same parameters, and calls of them
come to the same. -/
theorem Classes.Mirrors.calls {classes others : Classes} (h : classes.Mirrors others) :
    (∀ cls name, (classes.resolve cls name).map Method.parameters =
      (others.resolve cls name).map Method.parameters) ∧
    ∀ fuel receiver name values twins, List.Forall₂ Handle.Alike values twins →
      Coincide State.Alike Handle.Alike (call classes (execute classes fuel) receiver name values)
        (call others (execute others fuel) receiver name twins) := by
  have halike (one two : Node) (hnode : one.Mirrors id two) :
      one.Alike Pairing.upToOrigins.Literals two :=
    one.alike_of_mirrors (fun _ _ hobject => .holding hobject false) two hnode
  have hrelated := h.related halike
  refine ⟨fun cls name => ?_, fun fuel receiver name values twins hvalues => ?_⟩
  · have hmethod := hrelated.resolve cls name
    generalize classes.resolve cls name = one, others.resolve cls name = two at hmethod ⊢
    cases hmethod with
    | none => rfl
    | some hmethod => exact congrArg some hmethod.parameters
  · exact Pairing.coincide_call hrelated (Pairing.execute_follows hrelated fuel) receiver name
      hvalues

/-- Every kind of call gives the values of its arguments to the body, which starts in the frame
that binds the receiver and every argument, unless a later parameter has the same name or is named
as the receiver is.  The parameters are those that the head of the method lists in the source, but
for a `self` in front of them.  And a method may name the receiver there or not: sources that differ
in that are refused both, or both are read, with the same parameters of all methods, and run alike;
from there on the methods do the same in every call. -/
theorem calls_bind :
    (∀ classes fuel, BindsCalls classes fuel) ∧
    (∀ (session : Session) source classes tree, session.Reads source classes tree →
      ∃ words made, Scanner.Delivers (.ofString source) words ∧
        classes.records.toList = session.classes.records.toList ++ made ∧
        (made.flatMap ClassRecord.signatures).Perm
          ((Statement.methodHeads words).map Statement.headSignature)) ∧
    (∀ one two : Session, one.Alike two → ∀ source twin words twins,
      Scanner.Delivers (.ofString source) words → Scanner.Delivers (.ofString twin) twins →
      Statement.LeavesOutSelf words twins → ∀ fuel, one.RunsAlike fuel two source twin) ∧
    ∀ one two : Session, one.Alike two →
      (∀ cls name, (one.classes.resolve cls name).map Method.parameters =
        (two.classes.resolve cls name).map Method.parameters) ∧
      ∀ fuel receiver name values twins, List.Forall₂ Handle.Alike values twins →
        Coincide State.Alike Handle.Alike
          (call one.classes (execute one.classes fuel) receiver name values)
          (call two.classes (execute two.classes fuel) receiver name twins) :=
  ⟨bindsCalls, fun _ _ _ _ hreads => hreads.signatures,
    fun _ _ h _ _ _ _ hwords htwins hsame fuel => h.run hwords htwins hsame fuel,
    fun _ _ h => h.classes.calls⟩

/-- A text delivers the tokens that its tape is found to have. -/
theorem delivers_of_map_eq_ok {source : String} {words : List Token}
    (h : (Tape.ofString source).map (fun tape => (tape.fault?, tape.words)) = .ok (none, words)) :
    Scanner.Delivers (.ofString source) words := by
  obtain ⟨tape, htape, hscanned⟩ := Program.exists_of_map_eq_ok h
  obtain ⟨hfault, hwords⟩ := Prod.mk.inj hscanned
  exact Tape.delivers_ofString_iff.mpr ⟨tape, htape, hfault, hwords⟩

/-- A class with a method that prints its two arguments, and a call of it. -/
def sampleCall (head : String) : String :=
  "class A:\n  def f" ++ head ++ ":\n    print a, b\nA().f(1, 2)\n"

/-- The tokens of the same source. -/
def sampleCallTokens (parameters : List String) : List Token :=
  [.keyword .classWord, .identifier "A", .symbol ':', .newline, .indent] ++
    (Statement.methodHead "f" parameters ++
      [.symbol ':', .newline, .indent, .keyword .printWord, .identifier "a", .symbol ',',
        .identifier "b", .newline, .dedent, .dedent, .identifier "A", .symbol '(', .symbol ')',
        .symbol '.', .identifier "f", .symbol '(', .number 1, .symbol ',', .number 2, .symbol ')',
        .newline, .eof])

/-- The same method. -/
def sampleMethod : Method :=
  ⟨"f", ["a", "b"], .body (.block [.print [.variable "a" [], .variable "b" []]])⟩

/-- The same class in a table. -/
def sampleCallee : Classes :=
  (Classes.empty.declare "A" none).define 0 sampleMethod

/-- A state with an instance of the class. -/
def sampleReceiver : State :=
  ⟨(Heap.empty.create 0).2, Bindings.empty.set "x" (.own (.ofInstance 0)), ""⟩

/-- Naming the receiver changes nothing where a method prints its arguments, and the call gives
them to it in their order. -/
theorem calls_bind_sample :
    (RunsBody (execute sampleCallee 20)
        (execute sampleCallee 21
          (.call (.variable "x" []) "f" [.number (.made 0) 1, .number (.made 1) 2]))
        sampleReceiver 0 sampleMethod
        [.share (.number (.made 0) 1), .share (.number (.made 1) 2)] sampleReceiver pure) ∧
    (∃ classes tree, Session.empty.Reads (sampleCall "(self, a, b)") classes tree ∧
      (classes.records.toList.flatMap ClassRecord.signatures).Perm [("f", ["a", "b"])]) ∧
    Scanner.Delivers (.ofString (sampleCall "(self, a, b)"))
      (sampleCallTokens ["self", "a", "b"]) ∧
    Scanner.Delivers (.ofString (sampleCall "(a, b)")) (sampleCallTokens ["a", "b"]) ∧
    Statement.LeavesOutSelf (sampleCallTokens ["self", "a", "b"]) (sampleCallTokens ["a", "b"]) ∧
    Session.empty.RunsAlike 20 .empty (sampleCall "(self, a, b)") (sampleCall "(a, b)") ∧
    (Session.empty.run 20 (sampleCall "(a, b)")).output = "1 2\n" := by
  obtain ⟨hcalls, hmethods, hsources, -⟩ := calls_bind
  have hnamed : Scanner.Delivers (.ofString (sampleCall "(self, a, b)"))
      (sampleCallTokens ["self", "a", "b"]) := delivers_of_map_eq_ok (by decide +kernel)
  have hunnamed : Scanner.Delivers (.ofString (sampleCall "(a, b)"))
      (sampleCallTokens ["a", "b"]) := delivers_of_map_eq_ok (by decide +kernel)
  have hleaves : Statement.LeavesOutSelf (sampleCallTokens ["self", "a", "b"])
      (sampleCallTokens ["a", "b"]) :=
    .keepAll _ (.drop "f" (by decide) (Statement.leavesOutSelf_refl _))
  refine ⟨?_, ?_, hnamed, hunnamed, hleaves, ?_, by decide +kernel⟩
  · have hmethod : sampleCallee.resolve 0 "f" = some sampleMethod := by
      rw [Classes.resolve_eq]
      rfl
    exact (hcalls sampleCallee 20).method rfl rfl ⟨hmethod, rfl⟩ (.cons rfl (.cons rfl (.nil _)))
  · have hread : (Session.empty.read (sampleCall "(self, a, b)")).map (fun program =>
        (program.result.toBool, ())) = .ok (true, ()) := by
      decide +kernel
    obtain ⟨program, tree, hreads, -⟩ := Session.exists_reads_of_map hread
    obtain ⟨words, made, hwords, hmade, hperm⟩ := hmethods _ _ _ _ hreads
    rw [Tape.eq_of_delivers hwords hnamed] at hperm
    exact ⟨_, tree, hreads, hmade ▸ hperm⟩
  · exact hsources .empty .empty ⟨rfl, rfl, rfl⟩ _ _ _ _ hnamed hunnamed hleaves 20

/-- Two parameters of one name, and a parameter that is named as the receiver is. -/
def sampleOverwriting : String :=
  "class A:\n  def f(a, a):\n    print a\n  def g(a, self):\n    print self\n" ++
    "x = A()\nx.f(1, 2)\nx.g(1, 2)\n"

/-- Two numbers as arguments. -/
def sampleArguments : List Handle :=
  [.own (.number (.made 0) 1), .own (.number (.made 1) 2)]

/-- The first of two parameters of one name is not bound to its argument, and the receiver is not
bound if a parameter has its name.  A source may have methods like that, and the calls print the
second argument. -/
theorem exists_call_overwriting :
    ∃ classes tree, Session.empty.Reads sampleOverwriting classes tree ∧
      (classes.resolve 0 "f").map Method.parameters = some ["a", "a"] ∧
      (frame 0 ["a", "a"] sampleArguments).get? "a" ≠ sampleArguments[0]? ∧
      (classes.resolve 0 "g").map Method.parameters = some ["a", "self"] ∧
      (frame 0 ["a", "self"] sampleArguments).get? "self" ≠ some (.share (.ofInstance 0)) ∧
      (Session.empty.run 20 sampleOverwriting).output = "2\n2\n" := by
  have hall : (Session.empty.read sampleOverwriting).map (fun program =>
      (program.result.toBool, (program.declared.classes.resolve 0 "f").map Method.parameters,
        (program.declared.classes.resolve 0 "g").map Method.parameters)) =
      .ok (true, some ["a", "a"], some ["a", "self"]) := by
    decide +kernel
  obtain ⟨program, tree, hreads, hmethods⟩ := Session.exists_reads_of_map hall
  obtain ⟨hf, hg⟩ := Prod.mk.inj hmethods
  exact ⟨_, tree, hreads, hf, by decide, hg, by decide, by decide +kernel⟩

end Offside
