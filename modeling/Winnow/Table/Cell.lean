/-!
# Transition cells

A cell is one 32-bit word. Its low byte is the plane to go to next, 0 for a dead
end; its high three bytes are a signed number, the group of patterns that end
here, 0 for none. Writing one field leaves the other as it was.
-/

namespace Winnow

structure Cell where
  word : UInt32
  deriving DecidableEq, Inhabited, Repr

namespace Cell

def empty : Cell := ⟨0⟩

def target (c : Cell) : UInt8 := c.word.toUInt8

def terminal (c : Cell) : Int := (c.word.toInt32 >>> 8).toInt

def setTarget (c : Cell) (t : UInt8) : Cell := ⟨c.word &&& 0xffffff00 ||| t.toUInt32⟩

/-- Only the low 24 bits of the number are kept. -/
def setTerminal (c : Cell) (n : Int) : Cell :=
  ⟨UInt32.ofInt n <<< 8 ||| c.word &&& 0xff⟩

def ofFields (target : UInt8) (terminal : Int) : Cell :=
  (empty.setTarget target).setTerminal terminal

def isDeadEnd (c : Cell) : Bool := c.target == 0

@[simp] theorem target_empty : empty.target = 0 := rfl

@[simp] theorem terminal_empty : empty.terminal = 0 := rfl

@[simp] theorem isDeadEnd_iff {c : Cell} : c.isDeadEnd ↔ c.target = 0 := beq_iff_eq

end Cell

end Winnow
