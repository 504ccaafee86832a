/-!
# Line ends

Texts from files end their lines with a line feed, a carriage return, or both in
this order.  `unify` makes all of them line feeds.
-/

namespace Offside.Newline

/-- The characters so far, in reverse, and whether the last of them was read as a
carriage return. -/
structure Progress where
  /-- The characters so far, the last first. -/
  taken : List Char
  /-- Whether a carriage return was just read. -/
  afterReturn : Bool

/-- Takes one character into account. -/
def step (progress : Progress) (character : Char) : Progress :=
  if character = '\r' then ⟨'\n' :: progress.taken, true⟩
  else if character = '\n' ∧ progress.afterReturn then ⟨progress.taken, false⟩
  else ⟨character :: progress.taken, false⟩

/-- Makes every line end a line feed. -/
def unify (text : List Char) : List Char :=
  (text.foldl step ⟨[], false⟩).taken.reverse

private theorem taken_foldl_step {text : List Char} (h : '\r' ∉ text) (taken : List Char) :
    (text.foldl step ⟨taken, false⟩).taken = text.reverse ++ taken := by
  induction text generalizing taken with
  | nil => rfl
  | cons character rest ih =>
    simp only [List.mem_cons, not_or] at h
    have hstep : step ⟨taken, false⟩ character = ⟨character :: taken, false⟩ := by
      simp [step, Ne.symm h.1]
    rw [List.foldl_cons, hstep, ih h.2]
    simp

/-- A text without carriage returns stays as it is. -/
theorem unify_of_not_mem {text : List Char} (h : '\r' ∉ text) : unify text = text := by
  rw [unify, taken_foldl_step h]
  simp

end Offside.Newline
