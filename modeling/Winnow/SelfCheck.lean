import Winnow.Session

/-!
# The built-in check

Known texts are searched in both layouts, and each answer is compared with the one
that is expected.
-/

namespace Winnow.SelfCheck

structure Case where
  name : String
  accept : List String
  reject : List String
  text : String
  expected : Bool

def cases : List Case := [
  ⟨"case-folded accept", ["hello"], [], "Hello World", true⟩,
  ⟨"missing accept", ["cat", "dog"], [], "cat", false⟩,
  ⟨"reject present", ["cat"], ["bad"], "cat bad stuff", false⟩,
  ⟨"reject absent", ["copyright"], ["Lettvin"], "Copyright 2020 Acme Corp", true⟩,
  ⟨"duplicate accept", ["twin", "twin"], [], "one twin", true⟩,
  ⟨"empty input", ["ab"], [], "", false⟩]

def layouts : List Layout := [.byte, .nibble]

def layoutName : Layout → String
  | .byte => "Byte"
  | .nibble => "Nibble"

def settings (l : Layout) (c : Case) : Settings :=
  { Settings.of (c.accept.map (.plain .accept) ++ c.reject.map (.plain .reject)) "." with
    layout := l }

def passes (l : Layout) (c : Case) : Except Error Bool := do
  return (← Session.compile (settings l c)).isMatch (Utf8.encode c.text) == c.expected

def line (l : Layout) (c : Case) (passed : Bool) : String :=
  " # " ++ (if passed then "PASS" else "FAIL") ++ " " ++ layoutName l ++ " " ++ c.name ++ ": \"" ++
    c.text ++ "\""

def run : Except Error (List String × Bool) := do
  let pairs := layouts.flatMap fun l => cases.map (l, ·)
  let results ← pairs.mapM fun (l, c) => return (l, c, ← passes l c)
  let passed := results.countP (·.2.2)
  let total := toString passed ++ " of " ++ toString results.length ++ " passed"
  return (results.map (fun (l, c, ok) => line l c ok) ++ [" # " ++ total], passed == results.length)

end Winnow.SelfCheck
