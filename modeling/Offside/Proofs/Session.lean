import Offside.Session
import Offside.Proofs.Execution.Returning
import Offside.Proofs.Grammar.Concatenation
import Offside.Proofs.Grammar.Offence
import Offside.Proofs.Grammar.Runnable

/-!
# Sessions are sound

A session starts with global variables that hold neither classes nor instances, and goes
on by running sources, whatever they are and however they end.  `Session.IsSound` is what
holds of every session that is reached so (`Reachable.isSound`): all methods are made of
statements and take in what they return, and all values are valid.

Reading adds sound classes to sound ones, running keeps the state sound, and a source at
fault changes nothing.  How a source may end is then said by `Session.Ending`, and what
becomes of a return by `ReturnsConfined`.
-/

namespace Offside

/-- A value that is neither a class nor an instance. -/
def Handle.IsPlain : Handle → Prop
  | empty => True
  | holding object _ => object.class? = none ∧ object.instance? = none
  | returned _ => False

theorem Handle.IsPlain.isValid {value : Handle} (h : value.IsPlain) (classes : Classes)
    (heap : Heap) : value.IsValid classes heap := by
  cases value with
  | empty => trivial
  | returned inner => exact False.elim h
  | holding object owning =>
      cases object with
      | number | text | flag => trivial
      | ofClass id => cases h.1
      | ofInstance id => cases h.2

namespace Session

/-- The sessions that running sources leads to. -/
inductive Reachable : Session → Prop
  /-- At first there are neither classes nor instances. -/
  | start {globals : Scope} (made sources : Nat) (address : InstanceId → Nat)
      (hglobals : ∀ entry ∈ globals.entries, entry.2.IsPlain) :
      Reachable ⟨.empty, ⟨#[], made, address⟩, globals, sources⟩
  /-- Any source may be run next. -/
  | run {session : Session} (h : Reachable session) (fuel : Nat) (source : String) :
      Reachable (session.run fuel source).session

/-- The state in which a program starts. -/
def initial (session : Session) : State :=
  ⟨session.heap, session.globals, ""⟩

/-- A session all of whose methods are sound and all of whose values are valid. -/
structure IsSound (session : Session) : Prop where
  classes : session.classes.IsSound
  state : session.initial.IsSound session.classes

/-- A source was read and gave this tree, with these classes then. -/
def Reads (session : Session) (source : String) (classes : Classes) (tree : Node) : Prop :=
  ∃ program, session.read source = .ok program ∧ program.result = .ok tree ∧
    program.declared.classes = classes

/-- A source that is read runs. -/
theorem run_of_read {session : Session} {source : String} {program : Program} {tree : Node}
    (hread : session.read source = .ok program) (htree : program.result = .ok tree) (fuel : Nat) :
    session.run fuel source = session.execute fuel program tree := by
  unfold run
  rw [hread]
  simp only [htree]

/-- A source is read if what comes of it is a tree, and this is what else comes of it. -/
theorem exists_reads_of_map {session : Session} {source : String} {α : Type} {facts : Program → α}
    {value : α} (h : (session.read source).map (fun program =>
      (program.result.toBool, facts program)) = .ok (true, value)) :
    ∃ program tree, session.Reads source program.declared.classes tree ∧
      facts program = value := by
  obtain ⟨program, hread, hfacts⟩ := Program.exists_of_map_eq_ok h
  obtain ⟨hresult, hvalue⟩ := Prod.mk.inj hfacts
  cases htree : program.result with
  | error fault =>
      rw [htree] at hresult
      cases hresult
  | ok tree => exact ⟨program, tree, ⟨program, hread, htree, rfl⟩, hvalue⟩

/-- The ways in which a source may end. -/
inductive Ending (session : Session) (source : String) : Conclusion → Prop
  /-- The program ran to its end. -/
  | finished : Ending session source .finished
  /-- The source is at fault. -/
  | refused {fault : SourceFault}
      (hfamily : fault.family = "LexerError" ∨ fault.family = "ParseError") :
      Ending session source (.failed (.source fault))
  /-- The program is at fault, and it was not that it returned. -/
  | failed {classes : Classes} {tree : Node} {fault : RunFault}
      (hread : session.Reads source classes tree) (hfault : fault ≠ .returnOutsideMethod) :
      Ending session source (.failed (.run fault))
  /-- The program was to write a number of more digits than are written, as a text or in a
  message. -/
  | unwritable {classes : Classes} {tree : Node} {value : Int} {purpose : Purpose}
      (hread : session.Reads source classes tree)
      (hlong : Decimal.digitLimit < (Nat.toDigits 10 value.natAbs).length) :
      Ending session source (.stopped (@Stop.unwritable value purpose))
  /-- The program used up its fuel. -/
  | outOfFuel {classes : Classes} {tree : Node} (hread : session.Reads source classes tree) :
      Ending session source (.stopped .outOfFuel)

/-! ## One source -/

theorem isSound_empty_classes : Classes.empty.IsSound := by
  intro id record hrecord
  have hnone : (#[] : Array ClassRecord)[id]? = some record := hrecord
  simp at hnone

theorem isSound_start {globals : Scope} (made sources : Nat) (address : InstanceId → Nat)
    (hglobals : ∀ entry ∈ globals.entries, entry.2.IsPlain) :
    IsSound ⟨.empty, ⟨#[], made, address⟩, globals, sources⟩ := by
  refine ⟨isSound_empty_classes, ?_, ?_⟩
  · intro id target htarget
    have hnone : (#[] : Array Instance)[id]? = some target := htarget
    simp at hnone
  · intro entry hentry
    exact (hglobals entry hentry).isValid _ _

/-- What is read in a sound session can be run there. -/
theorem IsSound.of_reads {session : Session} (h : session.IsSound) {source : String}
    {classes : Classes} {tree : Node} (hread : session.Reads source classes tree) :
    classes.IsSound ∧ tree.IsStatement classes.count false ∧ session.initial.IsSound classes := by
  obtain ⟨program, hprogram, htree, rfl⟩ := hread
  unfold Session.read at hprogram
  cases htape : Tape.ofString source with
  | error fault =>
      rw [htape] at hprogram
      cases hprogram
  | ok tape =>
      rw [htape] at hprogram
      cases hprogram
      have hnames (name : String) (cls : ClassId)
          (hcls : (Scope.classes session.globals).get? name = some cls) :
          cls < session.classes.count :=
        h.state.scope.lt_count hcls
      obtain ⟨hle, hclasses, hstatement⟩ :=
        Program.isSound_of_read (Tape.laid_of_ofString htape) h.classes hnames htree
      exact ⟨hclasses, hstatement, h.state.mono hle⟩

/-- Running a program that was read keeps the session sound and ends in one of the ways. -/
theorem IsSound.execute {session : Session} (h : session.IsSound) {source : String}
    {program : Program} {tree : Node} (hprogram : session.read source = .ok program)
    (htree : program.result = .ok tree) (fuel : Nat) :
    (session.execute fuel program tree).session.IsSound ∧
      Ending session source (session.execute fuel program tree).conclusion := by
  have hread : session.Reads source program.declared.classes tree := ⟨program, hprogram, htree, rfl⟩
  obtain ⟨hclasses, hstatement, hstate⟩ := h.of_reads hread
  have hsafe := Run.safe_executeProgram hclasses fuel hstatement hstate
  simp only [Session.execute]
  cases hresult : executeProgram program.declared.classes fuel tree
      ⟨session.heap, session.globals, ""⟩ with
  | ok value after =>
      obtain ⟨hafter, -⟩ := hsafe.of_ok hresult
      exact ⟨⟨hclasses, hafter.heap, hafter.scope⟩, .finished⟩
  | error reason after =>
      obtain ⟨hafter, hreason⟩ := hsafe.of_error hresult
      refine ⟨⟨hclasses, hafter.heap, hafter.scope⟩, ?_⟩
      cases reason with
      | fault cause => exact .failed hread hreason
      | unwritable => exact .unwritable hread ((Decimal.write?_eq_none_iff_length _).mp hreason)
      | strayReturn => exact False.elim hreason
      | outOfFuel => exact .outOfFuel hread

/-- Running a source keeps a session sound and ends in one of the ways. -/
theorem IsSound.run {session : Session} (h : session.IsSound) (fuel : Nat) (source : String) :
    (session.run fuel source).session.IsSound ∧
      Ending session source (session.run fuel source).conclusion := by
  unfold Session.run
  cases hprogram : session.read source with
  | error fault => exact ⟨h, .refused fault.family_cases⟩
  | ok program =>
      simp only
      cases htree : program.result with
      | error fault => exact ⟨h, .refused fault.family_cases⟩
      | ok tree => exact h.execute hprogram htree fuel

/-- Every session that is reached is sound. -/
theorem Reachable.isSound {session : Session} (h : session.Reachable) : session.IsSound := by
  induction h with
  | start made sources address hglobals => exact isSound_start made sources address hglobals
  | run _ fuel source ih => exact (ih.run fuel source).1

/-! ## What may come out of a session -/

/-- A source that is not even begun has a fault in front of its first token. -/
theorem ofString_of_read_eq_error {session : Session} {source : String} {fault : SourceFault}
    (h : session.read source = .error fault) : Tape.ofString source = .error fault := by
  unfold read at h
  cases htape : Tape.ofString source with
  | error other =>
      rw [htape] at h
      cases h
      rfl
  | ok tape =>
      rw [htape] at h
      cases h

/-- Whatever source is run next in a session, it ends in one of the known ways, and the
session stays sound.  Reading it can fail with a fault of its tokens or its grammar
only: a source that does not begin with a token fails with a fault of its tokens, and where another
one is read, the place where reading stops settles which of the two it is. -/
theorem Reachable.ending {session : Session} (h : session.Reachable) (fuel : Nat)
    (source : String) :
    Ending session source (session.run fuel source).conclusion ∧
      (session.run fuel source).session.IsSound ∧
      (∀ fault, session.read source = .error fault →
        Tape.ofString source = .error fault ∧ fault.family = "LexerError") ∧
      (∀ program fault, session.read source = .ok program → program.result = .error fault →
        ∃ tape, Tape.ofString source = .ok tape ∧
          tape.Stops program.declared.names fault fault.family) := by
  obtain ⟨hsound, hending⟩ := h.isSound.run fuel source
  refine ⟨hending, hsound, fun fault hread => ?_, fun program fault hread hresult => ?_⟩
  · have htape := ofString_of_read_eq_error hread
    exact ⟨htape, SourceFault.family_of_isLexical (Tape.isLexical_of_ofString_eq_error htape)⟩
  · obtain ⟨tape, htape, rfl⟩ := Program.exists_of_map_eq_ok hread
    exact ⟨tape, htape, Program.stops_of_read htape hresult⟩

/-- A session in which a class was defined and an instance made. -/
def sampleSession : Session :=
  (Session.run 40 ⟨.empty, .empty, ⟨[("limit", .own (.number (.made 0) 3))]⟩, 0⟩
    "class A:\n  def f(self, x):\n    if x:\n      return x * 2\na = A()\n").session

theorem reachable_sampleSession : sampleSession.Reachable := by
  refine .run (.start 0 0 id ?_) 40 _
  intro entry hentry
  rw [List.mem_singleton.mp hentry]
  exact ⟨rfl, rfl⟩

theorem Reachable.ending_sample :
    sampleSession.Reachable ∧
      (Ending sampleSession "print a.f(limit)\n"
          (sampleSession.run 40 "print a.f(limit)\n").conclusion ∧
        (sampleSession.run 40 "print a.f(limit)\n").session.IsSound ∧
        (∀ fault, sampleSession.read "print a.f(limit)\n" = .error fault →
          Tape.ofString "print a.f(limit)\n" = .error fault ∧ fault.family = "LexerError") ∧
        (∀ program fault, sampleSession.read "print a.f(limit)\n" = .ok program →
          program.result = .error fault →
          ∃ tape, Tape.ofString "print a.f(limit)\n" = .ok tape ∧
            tape.Stops program.declared.names fault fault.family)) ∧
      (sampleSession.run 40 "print a.f(limit)\n").output = "6\n" :=
  ⟨reachable_sampleSession, reachable_sampleSession.ending 40 "print a.f(limit)\n",
    by decide +kernel⟩

/-! ## What becomes of a return -/

/-- In every program that is read in a session, returns are confined to methods: the program
starts in a sound state, and it never stops because it returned. -/
theorem Reachable.returnsConfined {session : Session} (h : session.Reachable) {source : String}
    {classes : Classes} {tree : Node} (hread : session.Reads source classes tree) :
    session.initial.IsSound classes ∧ ReturnsConfined classes tree ∧
      ∀ fuel, (session.run fuel source).conclusion ≠ .failed (.run .returnOutsideMethod) := by
  obtain ⟨hclasses, htree, hstate⟩ := h.isSound.of_reads hread
  refine ⟨hstate, returnsConfined_of_isSound hclasses htree, ?_⟩
  intro fuel hconclusion
  have hending := (h.isSound.run fuel source).2
  rw [hconclusion] at hending
  cases hending with
  | failed _ hfault => exact hfault rfl

private theorem eq_ok_of_toOption {ε α : Type} {result : Except ε α} {value : α}
    (h : result.toOption = some value) : result = .ok value := by
  cases result with
  | error reason => cases h
  | ok found =>
      cases h
      rfl

/-- A method that returns from inside a conditional. -/
theorem Reachable.returnsConfined_sample :
    ∃ classes tree, Session.empty.Reachable ∧
      Session.empty.Reads "class A:\n  def f(self, x):\n    if x:\n      return x\nA().f(1)\n"
        classes tree ∧
      (Session.empty.initial.IsSound classes ∧ ReturnsConfined classes tree ∧
        ∀ fuel, (Session.empty.run fuel
            "class A:\n  def f(self, x):\n    if x:\n      return x\nA().f(1)\n").conclusion ≠
          .failed (.run .returnOutsideMethod)) := by
  have hstart : Session.empty.Reachable := by
    apply Reachable.start 0 0 id
    intro entry hentry
    cases hentry
  have haccepted : ((Session.empty.read
      "class A:\n  def f(self, x):\n    if x:\n      return x\nA().f(1)\n").toOption.bind
        fun program => program.result.toOption).isSome = true := by
    decide +kernel
  obtain ⟨tree, htree⟩ := Option.isSome_iff_exists.mp haccepted
  obtain ⟨program, hprogram, hresult⟩ := Option.bind_eq_some_iff.mp htree
  have hread : Session.empty.Reads
      "class A:\n  def f(self, x):\n    if x:\n      return x\nA().f(1)\n"
      program.declared.classes tree :=
    ⟨program, eq_ok_of_toOption hprogram, eq_ok_of_toOption hresult, rfl⟩
  exact ⟨_, _, hstart, hread, hstart.returnsConfined hread⟩

end Session

end Offside
