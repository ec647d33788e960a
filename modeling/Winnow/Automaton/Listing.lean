import Winnow.Automaton.Basic
import Winnow.Text.Numeral

/-!
# The table as text

Planes and cells that hold nothing are left out. Each cell has a line: its symbol in
hexadecimal and, where the symbol is a printing ASCII byte, as a character; the
plane it leads to; and the group that ends there with its members.
-/

namespace Winnow.Automaton

variable {l : Layout}

def glyph (l : Layout) (symbol : Nat) : Char :=
  if l = .byte ∧ 0x21 ≤ symbol ∧ symbol ≤ 0x7e then .ofNat symbol else '.'

def groupText (number : Int) (ids : OrdSet PatternId) : String :=
  "  group " ++ toString number ++ " \x7b" ++
    ",".intercalate (ids.toList.map PatternId.text) ++ "\x7d"

def cellLine (a : Automaton l) (symbol : Nat) (c : Cell) : String :=
  " #   " ++ Text.hexByte symbol ++ " " ++ String.singleton (glyph l symbol) ++ " -> " ++
    Text.padLeft 3 (toString c.target.toNat) ++
    if c.terminal = 0 then "" else groupText c.terminal (a.endsAt c)

def planeLines (a : Automaton l) (number : Nat) (p : Plane l) : List String :=
  if p.isBlank then []
  else (" # PLANE " ++ toString number) :: p.live.map fun (symbol, c) => a.cellLine symbol c

def listing (a : Automaton l) : List String :=
  a.planes.toList.zipIdx.flatMap fun (p, n) => a.planeLines n p

end Winnow.Automaton
