/-!
# Paths

A path is resolved against the directory where the command runs: empty parts and
single points are dropped, two points take back the part before them, and a path
that begins with a slash starts at the root.

A resolved path is a list of parts, and `render` writes it with a slash before each.
`resolveParts_of_plain` says that a path without points is only joined on.

The length of a path and of each of its parts is limited (`isTooLong`), in bytes.
-/

namespace Offside.CommandLine.Path

/-- A path may hold any character but the one with code zero. -/
def isUsable (path : String) : Bool :=
  !path.toList.contains '\x00'

/-- Takes one part of a path into account. -/
def walk (parts : List String) (part : String) : List String :=
  if part = "" ∨ part = "." then parts
  else if part = ".." then parts.dropLast
  else parts ++ [part]

/-- The parts of a path in a directory. -/
def resolveParts (directory : List String) (path : List String) : List String :=
  path.foldl walk directory

/-- Writes a path from the root. -/
def render (parts : List String) : String :=
  "/" ++ "/".intercalate parts

/-- The parts of a directory that is given from the root. -/
def partsOf (directory : String) : List String :=
  resolveParts [] (directory.splitOn "/")

/-- The parts of the resolved form of a path in a directory that is given from the root. -/
def resolve (directory path : String) : List String :=
  resolveParts (if path.startsWith "/" then [] else partsOf directory) (path.splitOn "/")

/-- The longest part that is looked up. -/
def partLimit : Nat := 255

/-- The length that a path stays below. -/
def lengthLimit : Nat := 4096

/-- Whether a resolved path cannot even be looked up: as a whole, or because of its first
overlong part.  That part is looked up only in a directory that is there, which the
given one and those above it are. -/
def isTooLong (directory : String) (parts : List String) : Bool :=
  let before := parts.takeWhile fun part => part.utf8ByteSize ≤ partLimit
  (render parts).utf8ByteSize ≥ lengthLimit ||
    before.length < parts.length && before.isPrefixOf (partsOf directory)

theorem resolveParts_of_plain (directory path : List String)
    (h : ∀ part ∈ path, part ≠ "" ∧ part ≠ "." ∧ part ≠ "..") :
    resolveParts directory path = directory ++ path := by
  induction path generalizing directory with
  | nil => simp [resolveParts]
  | cons part rest ih =>
    obtain ⟨hempty, hpoint, hpoints⟩ := h part (by simp)
    have hrest := ih (walk directory part) fun other hother => h other (by simp [hother])
    rw [resolveParts] at hrest
    rw [resolveParts, List.foldl_cons, hrest]
    simp [walk, hempty, hpoint, hpoints]

end Offside.CommandLine.Path
