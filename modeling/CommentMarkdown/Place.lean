import CommentMarkdown.Text.Basic

/-!
# Places

The name of a file is read step by step. A slash ends a step, an empty step and a
single dot stay where they are, and two dots lead out of a directory. All files lie
in the directory that names start from, so a name that leaves it finds no file.
Nothing lies below a file: a slash behind its name leads nowhere.

A few names are not read in this way. They stand for the standard output of the
program that uses them, wherever it goes.
-/

namespace CommentMarkdown

/-- What a name leads to. -/
inductive Place
  /-- A file under its own name, be it there or not. -/
  | file (name : Text)
  | directory
  | nowhere
  deriving DecidableEq, Repr

namespace Place

/-- The bytes that a single step can have at most. -/
def longestStep : Nat := 255

/-- The bytes that a name can have at most. -/
def longestName : Nat := 4095

/-- Where steps lead that start inside of the directory of the files or outside of it. -/
def follow : Bool → List Text → Place
  | _, [] => directory
  | inside, step :: rest =>
    if step = [] ∨ step = ['.'] then follow inside rest
    else if step = ['.', '.'] then follow false rest
    else if inside = true ∧ rest = [] ∧ Text.byteSize step ≤ longestStep then file step
    else nowhere

/-- The standard output. It can be written like a file. -/
def standardOutput : Place :=
  file "/dev/stdout".toList

/-- The names of the standard output. -/
def outputNames : List Text :=
  ["/dev/stdout".toList, "/dev/fd/1".toList, "/proc/self/fd/1".toList]

/-- What a name leads to. It ends before a null character, and a slash in front takes it out
of the directory. -/
def ofName (name : Text) : Place :=
  let name := name.takeWhile (· ≠ '\x00')
  if outputNames.contains name then standardOutput
  else if name = [] ∨ longestName < Text.byteSize name then nowhere
  else follow (name.head? ≠ some '/') (name.splitOn '/')

/-- Whether a place is that of a file. -/
def isFile : Place → Bool
  | file _ => true
  | _ => false

/-- A step that stays where it is can be left out. -/
theorem follow_dot (inside : Bool) (rest : List Text) :
    follow inside (['.'] :: rest) = follow inside rest := by
  simp [follow]

/-- Outside of the directory there is no file to be found. -/
theorem isFile_follow_false (steps : List Text) : (follow false steps).isFile = false := by
  induction steps with
  | nil => rfl
  | cons step rest ih =>
    unfold follow
    split
    · exact ih
    · split
      · exact ih
      · simp [isFile]

end Place

end CommentMarkdown
