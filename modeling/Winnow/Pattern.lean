import Winnow.Alternatives
import Winnow.PatternId

/-!
# Patterns as they are written

A token is a sign, or none, and a phrase, which a list of variants in brackets may
follow. A minus means that the phrase must not occur. Only one sign is taken off,
so a phrase may begin with one. The list ends at the first closing bracket, which
has to be the last character.
-/

namespace Winnow

structure Pattern where
  text : String
  polarity : Polarity
  variants : List Variant
  deriving DecidableEq, Inhabited

namespace Pattern

def takeSign : List Char → Polarity × List Char
  | '-' :: cs => (.reject, cs)
  | '+' :: cs => (.accept, cs)
  | cs => (.accept, cs)

def splitBracket (body : List Char) : List Char × Option (List Char) :=
  match body.span (· != '[') with
  | (text, []) => (text, none)
  | (text, _ :: rest) => (text, some rest)

def closedList? (rest : List Char) : Option (List Char) :=
  match rest.span (· != ']') with
  | (list, [_]) => some list
  | _ => none

def phraseAndVariants (token : String) (body : List Char) :
    Except Error (List Char × List Variant) :=
  match splitBracket body with
  | (text, none) => .ok (text, [])
  | (text, some rest) =>
    match closedList? rest with
    | none => .error (.malformedVariant token)
    | some list => do return (text, ← Variant.ofList list)

/-- Reads a token. Where variants are off, a bracket is a character like any other. -/
def ofToken (variantsOn : Bool) (token : String) : Except Error Pattern := do
  let (polarity, body) := takeSign token.toList
  let (text, variants) ← if variantsOn then phraseAndVariants token body else .ok (body, [])
  let text := String.ofList text
  if text.utf8ByteSize < minPatternBytes then .error (.patternTooShort token)
  else return { text, polarity, variants }

def plain (polarity : Polarity) (text : String) : Pattern := ⟨text, polarity, []⟩

def alternatives (p : Pattern) (variantsOn : Bool) : Except Error (OrdSet String) :=
  if variantsOn then Variant.alternatives p.variants p.text else .ok ∅

end Pattern

end Winnow
