import Std.Data.HashMap
import Winnow.Program

/-!
# The command line

Reads into a tree what a run can see of the disk, runs the program on the tree, prints
its output and writes its files. A link is read as a link to the place where it ends,
as that is all that the system tells; one that ends nowhere or in a loop is read as one
of that kind.
-/

namespace Winnow.Disk

abbrev Snapshot := Std.HashMap Place Entry

def nowhere : String := "/ "

/-- What a link that ends nowhere is read as: itself if it is in a loop. -/
def readBroken (place : Place) : IO String := do
  try
    let _ ← IO.FS.readBinFile place.text
    return nowhere
  catch
    | .invalidArgument _ _ _ => return place.text
    | _ => return nowhere

def readLink (place : Place) : IO String := do
  try
    return toString (← IO.FS.realPath place.text)
  catch _ => readBroken place

def readFile (place : Place) : IO (List UInt8) := do
  try
    return (← IO.FS.readBinFile place.text).toList
  catch _ => return []

def readEntry (place : Place) : IO (Option Entry) := do
  let path ← pure (IO.FS.DirEntry.mk place.text "").root
  try
    match (← path.symlinkMetadata).type with
    | .dir => return some .dir
    | .file => return some (.file (← readFile place))
    | .symlink => return some (.link (← readLink place))
    | .other => return none
  catch _ => return none

partial def addPath (s : Snapshot) (here : Place) : List String → IO Snapshot
  | [] => return s
  | part :: rest => do
    if part = "" ∨ part = "." then addPath s here rest
    else if part = ".." then addPath s here.dropLast rest
    else
      let place := here ++ [part]
      let known := s[place]?
      let some e ← if known.isSome then pure known else readEntry place | return s
      let s := s.insert place e
      match e with
      | .link target =>
        if target = place.text then return s else addPath s [] (Path.parts target ++ rest)
      | _ => addPath s place rest

partial def addBelow (s : Snapshot) (here : Place) : IO Snapshot := do
  let mut s := s
  for child in ← (IO.FS.DirEntry.mk here.text "").root.readDir do
    let place := here ++ [child.fileName]
    if let some e ← readEntry place then
      s := s.insert place e
      match e with
      | .dir => s ← addBelow s place
      | .link target => s ← if target = place.text then pure s else addPath s [] (Path.parts target)
      | .file _ => pure ()
  return s

def addRoot (s : Snapshot) (cwd root : String) : IO Snapshot := do
  let path := Path.join cwd root
  let s ← addPath s [] (Path.parts path)
  match Tree.resolve ⟨s.toList⟩ [] path with
  | .ok (place, .dir) => addBelow s place
  | _ => return s

def paths (env : Environment) (l : CommandLine) : List String :=
  Program.configPaths env ++ l.config.toList ++ l.log.toList ++ l.dump.toList

def root (l : CommandLine) : String := (Settings.splitFilters (l.args.getLast?.getD ".")).1

def environment (args : List String) : IO Environment := do
  let cwd := toString (← IO.currentDir)
  let home := (← IO.getEnv "HOME").getD "/"
  let configHome := (← IO.getEnv "XDG_CONFIG_HOME").getD ""
  let configHome := if Path.isAbsolute configHome then configHome else Path.join home ".config"
  let place := (Path.parts cwd).filter (· ≠ "")
  let env : Environment := ⟨.empty, place, home, configHome, .little⟩
  match CommandLine.parse args with
  | .error _ => return env
  | .ok l =>
    let mut s : Snapshot ← addPath ∅ [] (Path.parts cwd)
    for path in paths env l do
      s ← addPath s [] (Path.parts (Path.join cwd path))
    s ← addRoot s cwd (root l)
    return { env with tree := ⟨s.toList⟩ }

def writeFile (env : Environment) (t : Tree) (path : String) : IO Unit := do
  let .ok data := t.read env.cwd path .isDirectory | return
  if (env.tree.read env.cwd path .isDirectory).toOption = some data then return
  if let some dir := Path.parent? path then
    unless dir.isEmpty do IO.FS.createDirAll dir
  IO.FS.writeBinFile path ⟨data.toArray⟩

end Winnow.Disk

open Winnow in
def main (args : List String) : IO UInt32 := do
  let env ← Disk.environment args
  let o := Program.run env args
  for line in o.output do IO.println line
  for line in o.errors do IO.eprintln line
  if let .ok l := CommandLine.parse args then
    for path in l.log.toList ++ l.dump.toList do
      Disk.writeFile env o.tree path
  return .ofNat o.code
