/-!
# Paths

A path is a text of names separated by slashes. Empty names and single dots between them
mean nothing, but they stay in the text: paths are never cleaned up, since messages show
them as they were put together.
-/

namespace SlipStack.Path

/-- The text is a path from the root of the file system. -/
def isAbsolute (path : String) : Bool :=
  path.toList.head? = some '/'

/-- The names of a path with everything between slashes, meaningless ones included. -/
def segments (path : List Char) : List (List Char) :=
  match path with
  | [] => [[]]
  | c :: rest =>
    if c = '/' then [] :: segments rest
    else
      match segments rest with
      | [] => [[c]]
      | name :: names => (c :: name) :: names

/-- Puts one path after another. An absolute path stands alone. -/
def join (directory path : String) : String :=
  if isAbsolute path || directory = "" then path
  else if directory.toList.getLast? = some '/' then directory ++ path
  else directory ++ "/" ++ path

/-- Whether a name stands for nothing. -/
def isIdle (name : List Char) : Bool :=
  name = [] || name = ['.']

/-- The text in front of the body of a path, and the body reversed. A slash or a single dot
at the start is no part of the body. -/
def split (path : List Char) : List Char × List Char :=
  match path with
  | '/' :: rest => (['/'], rest.reverse)
  | ['.'] => (['.'], [])
  | '.' :: '/' :: rest => (['.'], ('/' :: rest).reverse)
  | _ => ([], path.reverse)

/-- The reversed body without the names at its end that stand for nothing. -/
def trim : Nat → List Char → List Char
  | 0, body => body
  | fuel + 1, body =>
    let name := body.takeWhile (· ≠ '/')
    if body ≠ [] && isIdle name then trim fuel (body.drop (name.length + 1)) else body

/-- The path without its last name. A path without names has none, except that a single dot
is in the empty path. -/
def parent? (path : String) : Option String :=
  let (front, body) := split path.toList
  let trimmed := trim (body.length + 1) body
  if trimmed = [] then
    if front = ['.'] then some "" else none
  else
    let rest := trimmed.dropWhile (· ≠ '/')
    let rest := trim (rest.length + 1) (rest.drop 1)
    some (String.ofList (front ++ rest.reverse))

/-- What follows the last dot of a name, unless that dot is at its start. -/
def extension? (name : String) : Option String :=
  let reversed := name.toList.reverse
  let after := reversed.takeWhile (· ≠ '.')
  let before := (reversed.dropWhile (· ≠ '.')).drop 1
  if before = [] then none else some (String.ofList after.reverse)

end SlipStack.Path
