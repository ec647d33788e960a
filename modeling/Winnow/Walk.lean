import Winnow.Tree.Basic

/-!
# The files below a root

A walk lists the files at or below a root: every regular file, and the targets of
links as long as they are files outside the root, since those inside are listed
anyway. A link to a directory is not entered. A link that leads nowhere is reported.
Which files are wanted is asked about the place where the file really is. The entries
come in the order in which the tree has them, each of them once.
-/

namespace Winnow.Walk

/-- The place to which a path leads, without any link in it. -/
def canonical (t : Tree) (cwd : Place) (path : String) : Except Error Place :=
  match t.resolve cwd path with
  | .error f => .error (.file path f)
  | .ok (p, _) => .ok p

def ofLink (t : Tree) (root link : Place) : Option (Except Error Place) :=
  match t.resolve [] link.text with
  | .error f => some (.error (.file link.text f))
  | .ok (target, .file _) => if root.isPrefixOf target then none else some (.ok target)
  | .ok (_, _) => none

def ofEntry (t : Tree) (root : Place) : Place × Entry → Option (Except Error Place)
  | (p, .file _) => some (canonical t [] p.text)
  | (p, .link _) => ofLink t root p
  | (_, .dir) => none

-- Faults pass every filter.
def passes (allows : String → Bool) : Except Error Place → Bool
  | .ok p => allows p.text
  | .error _ => true

/-- The listing of the entries below a place that no link leads to any more. -/
def below (t : Tree) (allows : String → Bool) (root : Place) : List (Except Error Place) :=
  ((t.entries.filter fun (p, _) => root.isPrefixOf p).filterMap (ofEntry t root)).filter
    (passes allows)

def files (t : Tree) (allows : String → Bool) (cwd : Place) (root : String) :
    Except Error (List (Except Error Place)) :=
  (canonical t cwd root).map (below t allows)

end Winnow.Walk
