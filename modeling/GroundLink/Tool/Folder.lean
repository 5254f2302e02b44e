/-! The directory in which a tool is run, and where a path leads from there. A path is a row of names
with slashes between them; an empty name and a single point stay in place, two points go up. -/

namespace GroundLink.Tool

abbrev Name := List Char

/-- What stands between the slashes of a path. -/
def pieces (path : List Char) : List Name :=
  path.foldr
    (fun c ps =>
      match ps with
      | [] => [[c]]
      | p :: rest => if c = '/' then [] :: ps else (c :: p) :: rest)
    [[]]

def isIdle (n : Name) : Bool := n = [] || n = ['.']

/-- The names on a path that lead somewhere. -/
def names (path : String) : List Name := (pieces path.toList).filter (!isIdle ·)

/-- Whether a path ends in such a way that only a directory can be meant. -/
def endsIdle (path : String) : Bool := (pieces path.toList).getLast?.any isIdle

/-- The files in a directory and in those below it, each under its path from there. -/
structure Folder where
  files : List (String × ByteArray)

namespace Folder

/-- Whether a place is the folder itself or a directory that files lie in. -/
def isDirectory (f : Folder) (place : List Name) : Bool :=
  place = [] || f.files.any fun (path, _) => place.isPrefixOf (names path) && names path ≠ place

/-- Follows names from a place. Only directories can be left, and nothing is known above the folder. -/
def follow (f : Folder) : List Name → List Name → Option (List Name)
  | place, [] => some place
  | place, n :: rest =>
    if !f.isDirectory place then none
    else if n ≠ ['.', '.'] then f.follow (place ++ [n]) rest
    else if place = [] then none
    else f.follow place.dropLast rest

/-- The contents of the file a path leads to. Of the files outside only the null device is known, and
there is nothing in it. -/
def read (f : Folder) (path : String) : Option ByteArray :=
  if endsIdle path then none
  else if path.toList.head? = some '/' then
    if names path = names "/dev/null" then some .empty else none
  else do
    let place ← f.follow [] (names path)
    let (_, bytes) ← f.files.find? fun (path, _) => names path = place
    return bytes

end Folder

end GroundLink.Tool
