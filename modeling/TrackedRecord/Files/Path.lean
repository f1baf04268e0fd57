import TrackedRecord.Files.Failure

/-!
# Paths

A path is read as names, one after the other. Where it leads, if all of its names are there, is a place;
`.` stays at a place and `..` goes back to the directory that holds it.
-/

namespace TrackedRecord.Files

/-- The names that lead to a place from where paths start. A place further up is reached by `..` alone;
one that is counted from the top of all directories has `/` as its first name. -/
abbrev Place := List String

namespace Place

/-- The place of the directory that holds a place; the top holds itself. -/
def parent (place : Place) : Place :=
  match place.getLast? with
  | none => [".."]
  | some ".." => place ++ [".."]
  | some "/" => place
  | some _ => place.dropLast

def enter (place : Place) (name : String) : Place :=
  if name = "." then place else if name = ".." then place.parent else place ++ [name]

/-- Whether a place is where paths start, or above. -/
def isAbove (place : Place) : Bool := place.all (· = "..") || place = ["/"]

end Place

namespace Path

/-- The names on a path; slashes next to each other count as one. -/
def names (path : String) : List String := (path.splitOn "/").filter (· ≠ "")

def start (path : String) : Place := if path.startsWith "/" then ["/"] else []

def place (path : String) : Place := (names path).foldl Place.enter (start path)

/-- The places of the directories on the way. -/
def ways (path : String) : List Place :=
  (List.range (names path).length).map fun count => ((names path).take count).foldl Place.enter (start path)

def maxName : Nat := 255

def maxLength : Nat := 4095

/-- Refuses what is no path, whatever files there are. -/
def check (path : String) : Except Failure Unit :=
  if path.toList.contains (Char.ofNat 0) then .error .nulInName
  else if path = "" then .error .notFound
  else if maxLength < path.utf8ByteSize then .error .nameTooLong
  else .ok ()

end Path

end TrackedRecord.Files
