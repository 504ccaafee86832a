import Offside.Execution.Node

/-!
# Streams

What an object writes does not depend on where it writes to.  While the methods for its text run,
one after another, nothing is written to the stream; the text is written when the last of them has
ended (`Run.printObject_eq`).  So a value is written to any stream by finding its text, which takes
a buffer, and writing that (`Run.printValue_eq`).
-/

namespace Offside.Run

variable {classes : Classes} {run : Node → Run Handle}

section

variable {σ : Type} (stream : Stream σ) (held : σ) (fuel : Nat)

/-- An object that is no instance is written at once. -/
theorem printObject_plain {object : Object} (h : object.instance? = none) :
    printObject classes run stream held fuel object = (do
      stream.write held (← displayPlain classes object)) := by
  cases object with
  | ofInstance id => cases h
  | number | text | flag | ofClass => rw [printObject.eq_def]

/-- Without fuel an instance is not asked for its text. -/
theorem printObject_zero (id : InstanceId) :
    printObject classes run stream held 0 (.ofInstance id) = (do
      if ← canCall classes id Special.text.name 0 then stop .outOfFuel
      else stream.write held (← displayPlain classes (.ofInstance id))) :=
  rfl

/-- What the method of an instance gives is written in its place. -/
theorem printObject_succ (id : InstanceId) :
    printObject classes run stream held (fuel + 1) (.ofInstance id) = (do
      if ← canCall classes id Special.text.name 0 then
        printValue classes run stream held fuel (← call classes run id Special.text.name [])
      else stream.write held (← displayPlain classes (.ofInstance id))) :=
  rfl

/-- A text that is found is written to the stream, or else to a buffer first. -/
theorem bind_write_eq (text : Run String) :
    text >>= stream.write held = (text >>= Stream.buffer.write "") >>= stream.write held := by
  simp [Stream.buffer]

/-- A value is written to a stream as its text is, if that is so of the object that it holds. -/
theorem printValue_eq_of_printObject
    (h : ∀ object, printObject classes run stream held fuel object =
      printObject classes run .buffer "" fuel object >>= stream.write held) (value : Handle) :
    printValue classes run stream held fuel value =
      printValue classes run .buffer "" fuel value >>= stream.write held := by
  simp only [printValue, bind_assoc]
  refine bind_congr fun found => ?_
  cases found with
  | some object => exact h object
  | none => exact bind_write_eq stream held (pure "None")

/-- An object is written to a stream as it is written to a buffer, with what the buffer holds then
written to the stream. -/
theorem printObject_eq (object : Object) :
    printObject classes run stream held fuel object =
      printObject classes run .buffer "" fuel object >>= stream.write held := by
  induction fuel generalizing object with
  | zero =>
      cases object with
      | number | text | flag | ofClass => exact bind_write_eq stream held _
      | ofInstance id =>
          rw [printObject_zero, printObject_zero, bind_assoc]
          refine bind_congr fun fits => ?_
          cases fits with
          | true => rfl
          | false => exact bind_write_eq stream held _
  | succ fuel ih =>
      cases object with
      | number | text | flag | ofClass => exact bind_write_eq stream held _
      | ofInstance id =>
          rw [printObject_succ, printObject_succ, bind_assoc]
          refine bind_congr fun fits => ?_
          cases fits with
          | true =>
              simp only [if_true, bind_assoc]
              exact bind_congr fun shown => printValue_eq_of_printObject stream held fuel ih shown
          | false => exact bind_write_eq stream held _

/-- The text of a value is what the value writes to a buffer. -/
theorem display_eq_printValue (value : Handle) :
    display classes run fuel value = printValue classes run .buffer "" fuel value := by
  refine bind_congr fun found => ?_
  cases found with
  | some object => rfl
  | none => rfl

/-- A value is written to a stream by finding its text and writing that. -/
theorem printValue_eq (value : Handle) :
    printValue classes run stream held fuel value =
      display classes run fuel value >>= stream.write held := by
  rw [display_eq_printValue]
  exact printValue_eq_of_printObject stream held fuel (printObject_eq stream held fuel) value

end

/-! ## Texts as a recursion -/

/-- The text of a value without a stream: an instance may have a method for it, which may give
another instance, and so on. -/
theorem display_eq (fuel : Nat) (value : Handle) :
    display classes run fuel value = (do
      match ← inspect value with
      | none => return "None"
      | some (.ofInstance id) =>
        if ← canCall classes id Special.text.name 0 then
          match fuel with
          | 0 => stop .outOfFuel
          | fuel + 1 => display classes run fuel (← call classes run id Special.text.name [])
        else displayPlain classes (.ofInstance id)
      | some object => displayPlain classes object) := by
  have hplain (text : Run String) : text >>= Stream.buffer.write "" = text := by
    simp [Stream.buffer]
  refine bind_congr fun found => ?_
  cases found with
  | none => rfl
  | some object =>
      cases object with
      | number | text | flag | ofClass =>
          exact (printObject_plain .buffer "" fuel rfl).trans (hplain _)
      | ofInstance id =>
          cases fuel with
          | zero =>
              refine bind_congr fun fits => ?_
              cases fits with
              | true => rfl
              | false => exact hplain _
          | succ fuel =>
              refine bind_congr fun fits => ?_
              cases fits with
              | true => exact bind_congr fun shown => (display_eq_printValue fuel shown).symm
              | false => exact hplain _

/-! ## Lines -/

/-- Another value on the line is written by finding its text behind the blank. -/
theorem printMore_cons (fuel : Nat) (node : Node) (nodes : List Node) :
    printMore classes run fuel (node :: nodes) = (do
      write " "
      write (← display classes run fuel (← run node))
      printMore classes run fuel nodes) := by
  simp only [printMore, printValue_eq, Stream.output, bind_assoc]

/-- The first value of a line is written by finding its text. -/
theorem printLine_cons (fuel : Nat) (node : Node) (nodes : List Node) :
    printLine classes run fuel (node :: nodes) = (do
      write (← display classes run fuel (← run node))
      printMore classes run fuel nodes
      write "\n") := by
  simp only [printLine, printValue_eq, Stream.output, bind_assoc]

end Offside.Run
