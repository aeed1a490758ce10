/-!
# Paths

* `Path.parts` — the named parts of a path.
* `Path.name?`, `Path.stem?` — its last part, without and with the ending cut off.
* `Path.scratch` — the path of the scratch file for a file.
* `Path.plain?` — the name, if the path names a file in the current directory.
-/

namespace FlowText.Command.Path

/-- A path, cut at its slashes. -/
def cut : List Char → List (List Char)
  | [] => [[]]
  | c :: cs =>
    if c = '/' then [] :: cut cs
    else match cut cs with
      | [] => [[c]]
      | part :: more => (c :: part) :: more

/-- The part stands for the place where it is met: it is empty or a single dot. -/
def isHere (part : List Char) : Bool := part.isEmpty || part == ['.']

/-- The path starts at the root. -/
def isRooted (path : String) : Bool := path.toList.head? == some '/'

/-- The parts of a path that name something. -/
def parts (path : String) : List (List Char) := (cut path.toList).filter (!isHere ·)

/-- The name of what a path leads to. A path that ends by going up has none. -/
def name? (path : String) : Option (List Char) := (parts path).getLast?.filter (· ≠ ['.', '.'])

/-- A name without its ending: without the last dot and what follows it, unless the name starts
there. -/
def withoutEnding (name : List Char) : List Char :=
  match name.reverse.dropWhile (· ≠ '.') with
  | [] | [_] => name
  | _ :: stem => stem.reverse

/-- The name of what a path leads to, without its ending. -/
def stem? (path : String) : Option String :=
  (name? path).map fun n => String.ofList (withoutEnding n)

/-- The parts of the directory that a named thing is in. -/
def home (path : String) : List (List Char) :=
  if (name? path).isSome then (parts path).dropLast else parts path

/-- **Scratch file.** It stands beside the file, so that it can take the file's place in one
step. -/
def scratch (path : String) : String :=
  let root := if isRooted path then ['/'] else []
  let name := '.' :: (name? path).getD [] ++ ".tmp".toList
  String.ofList (root ++ ['/'].intercalate (home path ++ [name]))

/-- The name of a file in the current directory, if the path leads to one. -/
def plain? (path : String) : Option String :=
  if isRooted path then none
  else match (cut path.toList).reverse with
    | name :: before =>
      if isHere name || name == ['.', '.'] || !before.all isHere then none
      else some (String.ofList name)
    | [] => none

end FlowText.Command.Path
