import Winnow.Error
import Winnow.Tree.Path

/-!
# File trees

A tree says for each place what is there: a file with its bytes, a directory, or a
link with the path that it stands for. The root directory is always there. A path is
followed name by name; a link on the way is replaced by what it stands for, at most
forty times, and everything that a name follows has to be a directory.
-/

namespace Winnow

inductive Entry where
  | file (data : List UInt8)
  | dir
  | link (target : String)
  deriving DecidableEq

structure Tree where
  entries : List (Place × Entry)

namespace Tree

def empty : Tree := ⟨[]⟩

instance : Inhabited Tree := ⟨empty⟩

def get? (t : Tree) (p : Place) : Option Entry :=
  if p = [] then some .dir else t.entries.lookup p

def put (t : Tree) (p : Place) (e : Entry) : Tree :=
  if (t.entries.lookup p).isSome then
    ⟨t.entries.map fun (q, was) => if q = p then (q, e) else (q, was)⟩
  else ⟨t.entries ++ [(p, e)]⟩

def maxLinks : Nat := 40

def maxName : Nat := 255

structure IsName (s : String) : Prop where
  ne_empty : s ≠ ""
  ne_here : s ≠ "."
  ne_parent : s ≠ ".."
  no_slash : '/' ∉ s.toList
  no_nul : '\x00' ∉ s.toList
  length_le : s.utf8ByteSize ≤ maxName

instance (s : String) : Decidable (IsName s) :=
  decidable_of_iff (s ≠ "" ∧ s ≠ "." ∧ s ≠ ".." ∧ '/' ∉ s.toList ∧ '\x00' ∉ s.toList ∧
      s.utf8ByteSize ≤ maxName)
    ⟨fun ⟨h1, h2, h3, h4, h5, h6⟩ => ⟨h1, h2, h3, h4, h5, h6⟩,
      fun ⟨h1, h2, h3, h4, h5, h6⟩ => ⟨h1, h2, h3, h4, h5, h6⟩⟩

/-- Each place has one entry, and every place is in a directory of the tree. -/
structure WellFormed (t : Tree) : Prop where
  nodup : (t.entries.map Prod.fst).Nodup
  ne_root : ∀ p e, (p, e) ∈ t.entries → p ≠ []
  parent : ∀ p e, (p, e) ∈ t.entries → t.get? p.dropLast = some .dir
  names : ∀ p e, (p, e) ∈ t.entries → ∀ s ∈ p, IsName s

instance (t : Tree) : Decidable t.WellFormed :=
  decidable_of_iff ((t.entries.map Prod.fst).Nodup ∧ ∀ x ∈ t.entries,
      x.1 ≠ [] ∧ t.get? x.1.dropLast = some .dir ∧ ∀ s ∈ x.1, IsName s)
    ⟨fun ⟨h, h'⟩ => ⟨h, fun p e he => (h' (p, e) he).1, fun p e he => (h' (p, e) he).2.1,
        fun p e he => (h' (p, e) he).2.2⟩,
      fun h => ⟨h.nodup, fun (p, e) he => ⟨h.ne_root p e he, h.parent p e he, h.names p e he⟩⟩⟩

/-- Where the parts of a path lead from a directory, and what is there. Only the last
name may be missing. -/
def find (t : Tree) (links : Nat) (here : Place) : List String →
    Except Fault (Place × Option Entry)
  | [] => .ok (here, some .dir)
  | part :: rest =>
    if part = "" ∨ part = "." then find t links here rest
    else if part = ".." then find t links here.dropLast rest
    else if maxName < part.utf8ByteSize then .error .nameTooLong
    else match t.get? (here ++ [part]) with
      | none => if rest.isEmpty then .ok (here ++ [part], none) else .error .notFound
      | some .dir => find t links (here ++ [part]) rest
      | some (.file data) =>
        if rest.isEmpty then .ok (here ++ [part], some (.file data)) else .error .notDirectory
      | some (.link target) =>
        match links with
        | 0 => .error .linkLoop
        | links + 1 =>
          find t links (if Path.isAbsolute target then [] else here) (Path.parts target ++ rest)
termination_by parts => (links, parts.length)

def locate (t : Tree) (cwd : Place) (path : String) : Except Fault (Place × Option Entry) :=
  if path.isEmpty then .error .notFound
  else if path.toList.contains '\x00' then .error .invalidName
  else t.find maxLinks (if Path.isAbsolute path then [] else cwd) (Path.parts path)

def resolve (t : Tree) (cwd : Place) (path : String) : Except Fault (Place × Entry) :=
  match t.locate cwd path with
  | .error f => .error f
  | .ok (_, none) => .error .notFound
  | .ok (p, some e) => .ok (p, e)

def exists? (t : Tree) (cwd : Place) (path : String) : Bool := (t.resolve cwd path).isOk

/-- The bytes of a file. A directory can be opened but has none. -/
def read (t : Tree) (cwd : Place) (path : String) (ofDirectory : Fault) :
    Except Fault (List UInt8) :=
  match t.resolve cwd path with
  | .error f => .error f
  | .ok (_, .file data) => .ok data
  | .ok (_, _) => .error ofDirectory

/-- Writes a file anew, making it if it is not there. A slash at the end asks for a
directory, which cannot be written. -/
def write (t : Tree) (cwd : Place) (path : String) (data : List UInt8) : Except Fault Tree :=
  match t.locate cwd (Path.trimSlashes path) with
  | .error f => .error f
  | .ok (_, some .dir) => .error .isDirectory
  | .ok (p, _) =>
    if Path.trimSlashes path = path then .ok (t.put p (.file data)) else .error .isDirectory

def makeDirsFrom (t : Tree) (here : Place) : List String → Except Fault (Tree × Place)
  | [] => .ok (t, here)
  | part :: rest =>
    match t.find maxLinks here [part] with
    | .error f => .error f
    | .ok (p, some .dir) => makeDirsFrom t p rest
    | .ok (_, some _) => .error (if rest.isEmpty then .exists else .notDirectory)
    | .ok (p, none) =>
      if p = here ++ [part] then makeDirsFrom (t.put p .dir) p rest else .error .exists

def makeDirs (t : Tree) (cwd : Place) (path : String) : Except Fault Tree :=
  (t.makeDirsFrom (if Path.isAbsolute path then [] else cwd) (Path.parts path)).map Prod.fst

def makeParent (t : Tree) (cwd : Place) (path : String) : Except Fault Tree :=
  match Path.parent? path with
  | none => .ok t
  | some dir => if dir.isEmpty || t.exists? cwd dir then .ok t else t.makeDirs cwd dir

def makeLink (t : Tree) (cwd : Place) (path target : String) : Except Fault Tree :=
  match Path.name? path, t.resolve cwd (Path.join ((Path.parent? path).getD "") ".") with
  | none, _ => .error .exists
  | some _, .error f => .error f
  | some name, .ok (dir, .dir) =>
    if (t.get? (dir ++ [name])).isSome then .error .exists else .ok (t.put (dir ++ [name]) (.link target))
  | some _, .ok (_, _) => .error .notDirectory

end Tree

end Winnow
