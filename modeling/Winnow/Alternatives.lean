import Winnow.OrdSet
import Winnow.Text.Utf8
import Winnow.Variant

/-!
# Alternative spellings

Each kind of variant turns a phrase into other ways to write it: initials for an
acronym, a stem for a contraction, a longer stem for an ellipsis, and all phrases
one deletion, doubling or swap of neighbours away. The set of alternatives has each
spelling once and leaves out the phrase itself and what is too short to be a
pattern. The other kinds are named but have no spellings yet.
-/

namespace Winnow

def minPatternBytes : Nat := 2

namespace Variant

def isStopWord (word : List Char) : Bool :=
  let w := word.map Char.toLower
  w == ['o', 'f'] || w == ['t', 'h', 'e']

def initials (phrase : List Char) : List Char :=
  ((Text.words phrase).filter (!isStopWord ·)).filterMap List.head?

def acronyms (phrase : List Char) : List (List Char) :=
  let cs := initials phrase
  if cs.length < 2 then []
  else
    [cs, cs.intersperse ' ', cs.flatMap ([·, '.']),
      ['.', ' '].intercalate (cs.map ([·])) ++ ['.']]

def isVowel (c : Char) : Bool := "AaEeIiOoUu".toList.contains c

def vowelPlaces (phrase : List Char) : List Nat :=
  (((phrase.zipIdx.drop 1).filter (isVowel ·.1)).take 2).map Prod.snd

def contractions (phrase : List Char) : List (List Char) :=
  (vowelPlaces phrase).flatMap fun n => [phrase.take n ++ ['.'], phrase.take n]

def minStem : Nat := 8

def stems (phrase : List Char) : List (List Char) :=
  (List.range' minStem (phrase.length - 1 - minStem)).map phrase.take

def without (phrase : List Char) (i : Nat) : List Char := phrase.eraseIdx i

def doubled (phrase : List Char) (i : Nat) : List Char := phrase.take (i + 1) ++ phrase.drop i

def swapped : List Char → Nat → List Char
  | a :: b :: cs, 0 => b :: a :: cs
  | a :: cs, i + 1 => a :: swapped cs i
  | cs, _ => cs

def minSlipChars : Nat := 5

def slipsAt (phrase : List Char) : Nat → List (List Char)
  | 0 => [without phrase 0, doubled phrase 0]
  | i + 1 => [without phrase (i + 1), doubled phrase (i + 1), swapped phrase i]

def slips (phrase : List Char) : List (List Char) :=
  if phrase.length < minSlipChars then [] else (List.range phrase.length).flatMap (slipsAt phrase)

def spellings (v : Variant) (phrase : List Char) : Except Error (List (List Char)) :=
  match v with
  | acronym => .ok (acronyms phrase)
  | contraction => .ok (contractions phrase)
  | ellipses => .ok (stems phrase)
  | levenshtein => .ok (slips phrase)
  | fatFinger | sensitive | thesaurus | unicode => .error (.unimplementedVariant v.name)

def alternatives (vs : List Variant) (phrase : String) : Except Error (OrdSet String) := do
  let found := (← vs.mapM (·.spellings phrase.toList)).flatten.map String.ofList
  return .ofList (found.filter fun s => minPatternBytes ≤ s.utf8ByteSize && s != phrase)

end Variant

end Winnow
