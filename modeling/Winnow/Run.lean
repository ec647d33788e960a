import Winnow.PathFilter
import Winnow.Session
import Winnow.Summary
import Winnow.Walk

/-!
# Searching the files of a tree

A run walks the root and scans every file. The summary counts what happened; the
paths of the files that match and the faults on the way are kept beside it. Faults
stop nothing. A run that was cancelled before it began still looks for its root.

Here the files are scanned one after the other. `Winnow.Pool` says how threads share
them; in which order they do so changes no count and no path that is found.
-/

namespace Winnow

namespace Session

def searchFile (s : Session) (t : Tree) (cwd : Place) (path : String) : Except Error Bool :=
  match t.read cwd path .noDevice with
  | .error f => .error (.file path f)
  | .ok data => .ok (s.isMatch data)

end Session

structure Report where
  summary : Summary
  found : List String
  faults : List Error

namespace Report

def empty : Report := ⟨.zero, [], []⟩

instance : Inhabited Report := ⟨empty⟩

def append (a b : Report) : Report :=
  ⟨a.summary + b.summary, a.found ++ b.found, a.faults ++ b.faults⟩

def ofScan (path : String) : Except Error Bool → Report
  | .ok true => { empty with summary := { Summary.zero with scanned := 1, matched := 1 }, found := [path] }
  | .ok false => { empty with summary := { Summary.zero with scanned := 1 } }
  | .error e =>
    { empty with summary := { Summary.zero with scanned := 1, fileErrors := 1 }, faults := [e] }

def ofEntry (search : String → Except Error Bool) : Except Error String → Report
  | .ok path =>
    { empty with summary := { Summary.zero with queued := 1 } }.append (ofScan path (search path))
  | .error e => { empty with summary := { Summary.zero with walkErrors := 1 }, faults := [e] }

def ofEntries (search : String → Except Error Bool) (entries : List (Except Error String)) :
    Report :=
  entries.foldl (fun r e => r.append (ofEntry search e)) empty

end Report

def Session.run (s : Session) (t : Tree) (cwd : Place) (cancelled : Bool) :
    Except Error Report := do
  let filter ← PathFilter.ofTexts s.settings.filters
  let entries ← Walk.files t filter.allows cwd s.settings.root
  if cancelled then
    return { Report.empty with summary := { Summary.zero with cancelled := true } }
  else
    return .ofEntries (s.searchFile t []) (entries.map (·.map Place.text))

end Winnow
