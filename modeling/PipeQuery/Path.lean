-- SUMMARY: File paths: the directory that a path lies in, and paths below a directory.

/-! # Paths

A path is a text whose parts stand between slashes. Empty parts, and single dots
behind the first part, mean nothing. -/

namespace PipeQuery.Path

/-- Drops slashes and parts without meaning from the end of a path, which is given
backwards. -/
def trimEnd : List Char → List Char
  | '/' :: cs => trimEnd cs
  | ['.'] => []
  | '.' :: '/' :: cs => trimEnd cs
  | cs => cs

/-- How much of a path stands in front of its parts: a slash at the root, or the
dot of the current directory. -/
def lead : List Char → Nat
  | '/' :: _ => 1
  | ['.'] => 1
  | '.' :: '/' :: _ => 1
  | _ => 0

/-- The path without its last part. The root has no parent, and neither has the
empty path. -/
def parent? (path : List Char) : Option (List Char) :=
  let front := path.take (lead path)
  match trimEnd (path.drop (lead path)).reverse with
  | [] => if front = ['.'] then some [] else none
  | cs => some (front ++ (trimEnd ((cs.dropWhile (· != '/')).drop 1)).reverse)

/-- A path below a directory. A path that begins at the root stands for itself. -/
def join (directory path : List Char) : List Char :=
  if path.head? = some '/' then path
  else if directory.getLast?.all (· == '/') then directory ++ path
  else directory ++ '/' :: path

end PipeQuery.Path
