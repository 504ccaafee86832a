import Offside.Proofs.Execution.Parallel

/-!
# Marks have no effect

Whether a value owns its object or shares it makes no difference to a program.  States that are
the same except for marks are alike in the sense of `Likeness.unmarked`, and so is whatever comes
of them: truth, texts, comparisons, calls and whole trees (`Likeness.unmarked_coincide`).
-/

namespace Offside.Likeness

open Run

/-- States and values that are the same except for the marks of their values. -/
def unmarked : Likeness where
  serials := Eq
  marks _ _ := True
  marks_self _ := trivial

variable {classes : Classes} {state twin : State}

/-- From states that are the same except for marks, running any tree comes to the same end, with
a value and a state that are again the same except for marks.  So does asking whether a value
counts as true, finding the text of a value, comparing two values, and calling a method. -/
theorem unmarked_coincide (hstate : unmarked.States state twin) (fuel : Nat) :
    (∀ node, Paired unmarked.States unmarked.Values (execute classes fuel node state)
        (execute classes fuel node twin)) ∧
      (∀ value other, unmarked.Values value other →
        Paired unmarked.States Eq (truth value state) (truth other twin) ∧
        (∀ depth, Paired unmarked.States Eq
          (display classes (execute classes fuel) depth value state)
          (display classes (execute classes fuel) depth other twin)) ∧
        ∀ relation right opposite, unmarked.Values right opposite →
          Paired unmarked.States Eq
            (compare classes (execute classes fuel) relation value right state)
            (compare classes (execute classes fuel) relation other opposite twin)) ∧
      ∀ receiver name values others, List.Forall₂ unmarked.Values values others →
        Paired unmarked.States unmarked.Values
          (call classes (execute classes fuel) receiver name values state)
          (call classes (execute classes fuel) receiver name others twin) := by
  -- all objects are like themselves, so nothing is asked of the literals
  have hclasses : classes.LiteralsIn Set.univ := fun _ _ _ _ _ _ _ _ _ => trivial
  have hrun : unmarked.Follows Set.univ (execute classes fuel) :=
    execute_follows (fun object _ => objects_refl (fun _ => rfl) object) hclasses fuel
  refine ⟨fun node => ?_, fun value other hvalue => ⟨?_, fun depth => ?_,
    fun relation right opposite hright => ?_⟩, fun receiver name values others hvalues => ?_⟩
  · exact hrun (fun _ _ _ _ => trivial) state twin hstate
  · exact coincide_truth hvalue state twin hstate
  · exact coincide_display hclasses hrun depth hvalue state twin hstate
  · exact coincide_compare hclasses hrun relation hvalue hright state twin hstate
  · exact coincide_call hclasses hrun receiver name hvalues state twin hstate

/-- A variable that owns its number in one state and shares it in the other. -/
def markedState (owning : Bool) : State :=
  ⟨{ Heap.empty with made := 1 }, ⟨[("x", .holding (.number (.made 0) 5) owning)]⟩, ""⟩

/-- The value of the variable keeps its mark, and the sum does not depend on it. -/
theorem unmarked_coincide_sample :
    unmarked.States (markedState true) (markedState false) ∧
      Paired unmarked.States unmarked.Values
        (execute .empty 3 (.variable "x" []) (markedState true))
        (execute .empty 3 (.variable "x" []) (markedState false)) ∧
      execute .empty 3 (.variable "x" []) (markedState true) =
        .ok (.own (.number (.made 0) 5)) (markedState true) ∧
      execute .empty 3 (.variable "x" []) (markedState false) =
        .ok (.share (.number (.made 0) 5)) (markedState false) ∧
      Paired unmarked.States Eq
        (compare .empty (execute .empty 3) .less (.own (.number (.made 0) 5))
          (.share (.number (.made 0) 5)) (markedState true))
        (compare .empty (execute .empty 3) .less (.share (.number (.made 0) 5))
          (.own (.number (.made 0) 5)) (markedState false)) ∧
      Paired unmarked.States unmarked.Values
        (call .empty (execute .empty 3) 0 "f" [.own (.number (.made 0) 5)] (markedState true))
        (call .empty (execute .empty 3) 0 "f" [.share (.number (.made 0) 5)]
          (markedState false)) := by
  have hvalue (owning mark : Bool) : unmarked.Values
      (.holding (.number (.made 0) 5) owning) (.holding (.number (.made 0) 5) mark) :=
    .holding (objects_refl (fun _ => rfl) _) trivial
  have hstate : unmarked.States (markedState true) (markedState false) :=
    ⟨⟨rfl, fun id => by simp [markedState, Heap.empty], fun _ => rfl, rfl⟩,
      .cons ⟨rfl, hvalue true false⟩ .nil, rfl⟩
  obtain ⟨hnodes, hvalues, hcalls⟩ := @unmarked_coincide .empty _ _ hstate 3
  obtain ⟨-, -, hcompared⟩ := hvalues _ _ (hvalue true false)
  exact ⟨hstate, hnodes _, rfl, rfl, hcompared .less _ _ (hvalue false true),
    hcalls 0 "f" _ _ (.cons (hvalue true false) .nil)⟩

end Offside.Likeness
