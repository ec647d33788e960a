import Winnow.Scan
import Winnow.Settings

/-!
# A search session

A session is the settings and what is compiled from them. Each pattern is numbered
and its phrase goes into the automaton under that number; so do its other
spellings, which makes all of them count as the same pattern.
-/

namespace Winnow

structure Session where
  settings : Settings
  roster : Roster
  automaton : Automaton settings.layout

namespace Session

def enter {l : Layout} (variantsOn : Bool) (r : Roster) (a : Automaton l) (p : Pattern) :
    Except Error (Roster × Automaton l) := do
  let id := r.nextId p.polarity
  let a ← a.insertAll [(Utf8.encode p.text, id)]
  let others ← p.alternatives variantsOn
  let a ← a.insertAll (others.toList.map fun s => (Utf8.encode s, id))
  return (r.push p.polarity p.text, a)

def enterAll {l : Layout} (variantsOn : Bool) (r : Roster) (a : Automaton l) :
    List Pattern → Except Error (Roster × Automaton l)
  | [] => .ok (r, a)
  | p :: ps => do
    let (r, a) ← enter variantsOn r a p
    enterAll variantsOn r a ps

def compile (s : Settings) : Except Error Session :=
  if s.patterns.isEmpty then .error .noPatterns
  else do
    let (roster, automaton) ← enterAll s.variants .empty (.empty !s.caseSensitive) s.patterns
    return ⟨s, roster, automaton⟩

def scan (s : Session) : Scan s.settings.layout := .of s.automaton s.roster

def isMatch (s : Session) (buffer : List UInt8) : Bool := s.scan.isMatch buffer

end Session

end Winnow
