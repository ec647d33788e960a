/-!
# Numbers in fixed columns
-/

namespace Winnow.Text

def padLeft (width : Nat) (s : String) : String :=
  .ofList (List.replicate (width - s.length) ' ') ++ s

def hexDigit (n : Nat) : Char := (Nat.toDigits 16 (n % 16)).headD '0'

def hexByte (b : Nat) : String := .ofList [hexDigit (b / 16), hexDigit b]

end Winnow.Text
