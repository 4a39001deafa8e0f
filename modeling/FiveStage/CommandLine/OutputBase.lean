import FiveStage.Text.Blank

/-!
# The base of the report names

Reports are named after the image: its path without the extension of the file name.
-/

namespace FiveStage

namespace OutputBase

/-- The pieces of a path, the last first, without those at the end that name nothing: empty ones,
and names `.` that stand behind another piece. -/
def significant : List (List Char) → List (List Char)
  | [] :: p :: ps => significant (p :: ps)
  | ['.'] :: p :: ps => significant (p :: ps)
  | ps => ps

/-- The file name of a path with the pieces in front of it, the last first. A path that leads to the
root, to its own directory or up has no file name. -/
def fileName? (path : List Char) : Option (List Char × List (List Char)) :=
  match significant (Text.splitOn '/' path).reverse with
  | [] => none
  | name :: front =>
    if name = [] ∨ name = ['.'] ∨ name = ['.', '.'] then none else some (name, front)

/-- A file name without its extension. A dot at the start begins no extension. -/
def stem (name : List Char) : List Char :=
  let front := (name.reverse.dropWhile (· ≠ '.')).drop 1
  if front.isEmpty then name else front.reverse

/-- The extension of a file name, if it has one. -/
def extension (name : List Char) : List Char := name.drop ((stem name).length + 1)

/-- A path that ends with the stem of its file name. -/
def cutToStem (path : List Char) : List Char :=
  match fileName? path with
  | none => path
  | some (name, front) =>
    (front.reverse.flatMap fun piece => piece ++ ['/']) ++ stem name

/-- A path without the extension of its file name. As many characters as the extension has are taken
off the end before what is left is cut to its stem. -/
def ofImage (path : List Char) : List Char :=
  match fileName? path with
  | none => path
  | some (name, _) => cutToStem (path.take (path.length - (extension name).length))

end OutputBase

end FiveStage
