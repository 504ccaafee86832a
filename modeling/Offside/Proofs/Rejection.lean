import Offside.Proofs.Grammar.ClassNames
import Offside.Proofs.Session

/-!
# Sources that are refused

A source at fault is refused when it is read, and then nothing runs.  So the session stays as
it was: its variables, its classes and its instances.  A program that was read cannot fail
like that any more, because no fault of running is of the families that a source is refused
with (`RunFault.family_ne`).

Reading shares the class table with the session.  It makes classes behind those that there
are and adds methods to these alone, so what it declares has the classes of the session as
they were, even if the source takes their names or inherits from them
(`Program.get?_declared`).
-/

namespace Offside

/-- No fault of a running program belongs to a family of faults of sources. -/
theorem RunFault.family_ne (fault : RunFault) :
    fault.family ≠ "LexerError" ∧ fault.family ≠ "ParseError" := by
  cases fault <;> simp [family]

namespace Session

variable {session : Session} {fuel : Nat} {source : String} {fault : SourceFault}

/-- Reading the source gives this fault, of its tokens or of its grammar. -/
def Refuses (session : Session) (source : String) (fault : SourceFault) : Prop :=
  session.read source = .error fault ∨
    ∃ program, session.read source = .ok program ∧ program.result = .error fault

/-- A source is refused, or it is read and runs. -/
theorem refuses_or_runs (session : Session) (source : String) :
    (∃ fault, session.Refuses source fault) ∨
      ∃ program tree, session.read source = .ok program ∧ program.result = .ok tree ∧
        ∀ fuel, session.run fuel source = session.execute fuel program tree := by
  cases hread : session.read source with
  | error fault => exact .inl ⟨fault, .inl hread⟩
  | ok program =>
      cases hresult : program.result with
      | error fault => exact .inl ⟨fault, .inr ⟨program, hread, hresult⟩⟩
      | ok tree =>
          exact .inr ⟨program, tree, rfl, hresult, run_of_read hread hresult⟩

/-- A source that is refused does not run. -/
theorem Refuses.run (h : session.Refuses source fault) (fuel : Nat) :
    (session.run fuel source).conclusion = .failed (.source fault) ∧
      (session.run fuel source).output = "" ∧ (session.run fuel source).session = session := by
  unfold Session.run
  obtain hread | ⟨program, hread, hresult⟩ := h
  · rw [hread]
    exact ⟨rfl, rfl, rfl⟩
  · rw [hread]
    simp only [hresult, and_self]

/-- A program that fails while it runs is not refused. -/
theorem family_ne_of_execute {program : Program} {tree : Node} {failure : Failure}
    (h : (session.execute fuel program tree).conclusion = .failed failure) :
    failure.family ≠ "LexerError" ∧ failure.family ≠ "ParseError" := by
  have hconclude : ∃ reason, conclude reason = .failed failure := by
    unfold execute at h
    dsimp only at h
    split at h
    · cases h
    · exact ⟨_, h⟩
  obtain ⟨reason, hreason⟩ := hconclude
  cases reason with
  | fault cause =>
      cases hreason
      exact cause.family_ne
  | unwritable => cases hreason
  | strayReturn => cases hreason
  | outOfFuel => cases hreason

/-- A run reports a fault of the source exactly if reading the source does; then nothing is
written and the session stays as it was.  No program that runs reports one.  Reading a source,
whatever becomes of it, changes no class of the session. -/
theorem Reachable.run_refused (h : session.Reachable) (fuel : Nat) (source : String) :
    (∀ failure : Failure, failure.family = "LexerError" ∨ failure.family = "ParseError" →
      ((session.run fuel source).conclusion = .failed failure ↔
        ∃ fault, failure = .source fault ∧ session.Refuses source fault)) ∧
      (∀ fault, session.Refuses source fault →
        (session.run fuel source).conclusion = .failed (.source fault) ∧
          (session.run fuel source).output = "" ∧
          (session.run fuel source).session = session) ∧
      (∀ program tree failure,
        (session.execute fuel program tree).conclusion = .failed failure →
          failure.family ≠ "LexerError" ∧ failure.family ≠ "ParseError") ∧
      ∀ program, session.read source = .ok program → ∀ id, id < session.classes.count →
        program.declared.classes.get? id = session.classes.get? id := by
  refine ⟨fun failure hfamily => ⟨fun hfailed => ?_, fun hrefuses => ?_⟩,
    fun fault hrefuses => hrefuses.run fuel, fun program tree failure => family_ne_of_execute,
    fun program hread id hid => ?_⟩
  · obtain ⟨fault, hrefuses⟩ | ⟨program, tree, -, -, hruns⟩ := session.refuses_or_runs source
    · rw [(hrefuses.run fuel).1] at hfailed
      cases hfailed
      exact ⟨fault, rfl, hrefuses⟩
    · rw [hruns] at hfailed
      obtain ⟨hlexical, hgrammatical⟩ := family_ne_of_execute hfailed
      exact absurd hfamily (not_or.mpr ⟨hlexical, hgrammatical⟩)
  · obtain ⟨fault, rfl, hrefuses⟩ := hrefuses
    exact (hrefuses.run fuel).1
  · -- the names of the session mean classes that exist, so the parents in the source do
    have hnames (name : String) (cls : ClassId)
        (hcls : (Scope.classes session.globals).get? name = some cls) :
        cls < session.classes.count :=
      h.isSound.state.scope.lt_count hcls
    obtain ⟨tape, htape, rfl⟩ := Program.exists_of_map_eq_ok hread
    exact Program.get?_declared session.sources htape hnames hid

/-- A source that inherits from a class of the session under the same name, and is refused in
the head of its method. -/
theorem Reachable.run_refused_sample :
    sampleSession.Reachable ∧
      (sampleSession.run 40 "class A(A):\n  def g(:\n").conclusion =
        .failed (.source ⟨.mismatch (.exactly (.ofSymbol ')')) (.symbol ':'), 2⟩) ∧
      (∀ fault, sampleSession.Refuses "class A(A):\n  def g(:\n" fault →
        (sampleSession.run 40 "class A(A):\n  def g(:\n").session = sampleSession) ∧
      ∀ program, sampleSession.read "class A(A):\n  def g(:\n" = .ok program →
        ∀ id, id < sampleSession.classes.count →
          program.declared.classes.get? id = sampleSession.classes.get? id := by
  obtain ⟨-, hrefused, -, hkept⟩ :=
    reachable_sampleSession.run_refused 40 "class A(A):\n  def g(:\n"
  exact ⟨reachable_sampleSession, by decide +kernel, fun fault h => (hrefused fault h).2.2, hkept⟩

end Session

end Offside
