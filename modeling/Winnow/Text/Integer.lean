/-!
# Signed integers of 64 bits in decimal

A sign, or none, and digits. Reading goes from the left and stops at the first
character that is no digit or takes the number out of range, whichever comes first.
-/

namespace Winnow.Text

inductive IntegerFault where
  | empty
  | badDigit
  | tooLarge
  | tooSmall
  deriving DecidableEq, Repr

def IntegerFault.message : IntegerFault → String
  | empty => "cannot parse integer from empty string"
  | badDigit => "invalid digit found in string"
  | tooLarge => "number too large to fit in target type"
  | tooSmall => "number too small to fit in target type"

def digit? (c : Char) : Option Nat := if c.isDigit then some (c.toNat - '0'.toNat) else none

def readDigits (bound : Nat) (beyond : IntegerFault) (n : Nat) :
    List Char → Except IntegerFault Nat
  | [] => .ok n
  | c :: cs =>
    match digit? c with
    | none => .error .badDigit
    | some d => if n * 10 + d ≤ bound then readDigits bound beyond (n * 10 + d) cs else .error beyond

def readInteger : List Char → Except IntegerFault Int
  | [] => .error .empty
  | ['+'] | ['-'] => .error .badDigit
  | '-' :: cs => (readDigits 0x8000000000000000 .tooSmall 0 cs).map fun n => -n
  | '+' :: cs => (readDigits 0x7fffffffffffffff .tooLarge 0 cs).map Int.ofNat
  | cs => (readDigits 0x7fffffffffffffff .tooLarge 0 cs).map Int.ofNat

end Winnow.Text
