/-!
# Paths

A place in a file tree is the list of the names that lead to it from the root
directory. A path as it is written is cut at its slashes: parts that are empty or a
single dot stand for the directory they are in. For the order of paths as they are
written such parts do not count, and names are compared one by one, so that what is
in a directory comes right after it.
-/

namespace Winnow

abbrev Place := List String

namespace Place

def text (p : Place) : String := "/" ++ "/".intercalate p

end Place

namespace Path

def splitSlashes : List Char → List (List Char)
  | [] => [[]]
  | '/' :: cs => [] :: splitSlashes cs
  | c :: cs =>
    match splitSlashes cs with
    | [] => [[c]]
    | part :: parts => (c :: part) :: parts

def parts (path : String) : List String := (splitSlashes path.toList).map String.ofList

def isAbsolute (path : String) : Bool := path.toList.head? == some '/'

/-- What one part of a path means, in ascending order. -/
inductive Part where
  | root
  | here
  | parent
  | name (s : String)
  deriving DecidableEq, Repr

def Part.key : Part → Nat × String
  | root => (0, "")
  | here => (1, "")
  | parent => (2, "")
  | name s => (3, s)

/-- The parts that count. A leading dot does, as there is nothing in front of it. -/
def meanings (path : String) : List Part :=
  let tail := (parts path).filterMap fun s =>
    if s = "" ∨ s = "." then none else if s = ".." then some .parent else some (.name s)
  if isAbsolute path then .root :: tail
  else if (parts path).head? = some "." then .here :: tail
  else tail

def Part.le (a b : Part) : Bool :=
  a.key.1 < b.key.1 || (a.key.1 == b.key.1 && a.key.2 ≤ b.key.2)

def le (p q : String) : Bool := go (meanings p) (meanings q)
where
  go : List Part → List Part → Bool
    | [], _ => true
    | _ :: _, [] => false
    | a :: as, b :: bs => if a = b then go as bs else a.le b

/-- Paths that are the same for the order stay as they were. -/
def sort (paths : List String) : List String := paths.mergeSort le

def parent? (path : String) : Option String :=
  match (meanings path).reverse with
  | [] | [.root] => none
  | _ :: rest =>
    let names := rest.reverse.filterMap fun
      | .root => none
      | .here => some "."
      | .parent => some ".."
      | .name s => some s
    some ((if isAbsolute path then "/" else "") ++ "/".intercalate names)

def name? (path : String) : Option String :=
  match (meanings path).getLast? with
  | some (.name s) => some s
  | _ => none

def trimSlashes (path : String) : String :=
  match (path.toList.reverse.dropWhile (· == '/')).reverse with
  | [] => path
  | cs => .ofList cs

def join (base path : String) : String :=
  if isAbsolute path || base.isEmpty then path
  else if base.toList.getLast? == some '/' then base ++ path
  else base ++ "/" ++ path

end Path

end Winnow
