/-!
# Numbers of patterns

Patterns are numbered from 1 in each of two lists, those that must occur and those
that must not. A rejected pattern bears its number negated, so that ascending order
puts the rejected ones first. Number 0 belongs to no pattern.
-/

namespace Winnow

inductive Polarity where
  | accept
  | reject
  deriving DecidableEq, Inhabited, Repr

structure PatternId where
  raw : Int32
  deriving DecidableEq, Inhabited, Repr

namespace PatternId

instance : Ord PatternId := ⟨fun a b => compare a.raw b.raw⟩

theorem compare_eq (a b : PatternId) : compare a b = compare a.raw b.raw := rfl

instance : Std.TransOrd PatternId where
  eq_swap {a b} := Std.OrientedOrd.eq_swap (a := a.raw) (b := b.raw)
  isLE_trans {a b c} := Std.TransOrd.isLE_trans (a := a.raw) (b := b.raw) (c := c.raw)

instance : Std.LawfulEqOrd PatternId where
  compare_self {a} := Std.ReflOrd.compare_self (a := a.raw)
  eq_of_compare {a b} h := by
    cases a; cases b
    exact congrArg _ (Std.LawfulEqOrd.eq_of_compare h)

def none : PatternId := ⟨0⟩

/-- The number of the pattern at a place, counted from 1; places wrap at 32 bits. -/
def of : Polarity → Nat → PatternId
  | .accept, n => ⟨.ofNat n⟩
  | .reject, n => ⟨-.ofNat n⟩

def isAccept (i : PatternId) : Bool := 0 < i.raw

def isReject (i : PatternId) : Bool := i.raw < 0

def place (i : PatternId) : Nat := i.raw.toInt.natAbs

def polarity? (i : PatternId) : Option Polarity :=
  if i.isReject then some .reject else if i.isAccept then some .accept else .none

def text (i : PatternId) : String :=
  if i.isReject then toString i.raw.toInt else "+" ++ toString i.raw.toInt

end PatternId

end Winnow
