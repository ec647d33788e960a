import Winnow.PatternId
import Winnow.Text.Numeral

/-!
# The two lists of patterns

Patterns are numbered as they are entered, each list from 1.
-/

namespace Winnow

structure Roster where
  accept : Array String
  reject : Array String
  deriving DecidableEq, Inhabited

namespace Roster

def empty : Roster := ⟨#[], #[]⟩

def list (r : Roster) : Polarity → Array String
  | .accept => r.accept
  | .reject => r.reject

def nextId (r : Roster) (p : Polarity) : PatternId := .of p ((r.list p).size + 1)

def push (r : Roster) (p : Polarity) (text : String) : Roster :=
  match p with
  | .accept => { r with accept := r.accept.push text }
  | .reject => { r with reject := r.reject.push text }

def get? (r : Roster) (id : PatternId) : Option String := do
  let p ← id.polarity?
  (r.list p)[id.place - 1]?

def isEmpty (r : Roster) : Bool := r.accept.isEmpty && r.reject.isEmpty

def rejectsNothing (r : Roster) : Bool := r.reject.isEmpty

def numbered (texts : Array String) : List String :=
  texts.toList.zipIdx.map fun (text, i) => " # " ++ Text.padLeft 2 (toString (i + 1)) ++ ": " ++ text

def listing (r : Roster) : List String :=
  " # ACCEPT:" :: numbered r.accept ++ " # REJECT:" :: numbered r.reject

end Roster

end Winnow
