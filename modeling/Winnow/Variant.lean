import Winnow.Error
import Winnow.Text.Blank

/-!
# Kinds of variants and how lists of them are written

A kind has a full name and a letter. A list is written with commas; an item is one
full name or a run of letters, and names come first. No full name is also a run of
letters, so a list says one thing.
-/

namespace Winnow

inductive Variant where
  | acronym
  | contraction
  | ellipses
  | fatFinger
  | levenshtein
  | sensitive
  | thesaurus
  | unicode
  deriving DecidableEq, Inhabited, Repr

namespace Variant

def all : List Variant :=
  [acronym, contraction, ellipses, fatFinger, levenshtein, sensitive, thesaurus, unicode]

def name : Variant → String
  | acronym => "acronym"
  | contraction => "contraction"
  | ellipses => "ellipses"
  | fatFinger => "fatfinger"
  | levenshtein => "levenshtein1"
  | sensitive => "sensitive"
  | thesaurus => "thesaurus"
  | unicode => "unicode"

def letter : Variant → Char
  | acronym => 'a'
  | contraction => 'c'
  | ellipses => 'e'
  | fatFinger => 'f'
  | levenshtein => 'l'
  | sensitive => 's'
  | thesaurus => 't'
  | unicode => 'u'

def ofLetter? (c : Char) : Option Variant := all.find? (·.letter == c)

def ofName? (s : List Char) : Option Variant :=
  all.find? fun v => v.name.toList == s || [v.letter] == s

def ofItem (item : List Char) : Except Error (List Variant) :=
  match ofName? item with
  | some v => .ok [v]
  | none =>
    match item.mapM ofLetter? with
    | some vs => .ok vs
    | none => .error (.unknownVariant (.ofList item))

def ofList (list : List Char) : Except Error (List Variant) := do
  return (← (Text.commaItems list).mapM ofItem).flatten

theorem ofLetter?_letter (v : Variant) : ofLetter? v.letter = some v := by cases v <;> decide

theorem ofName?_name (v : Variant) : ofName? v.name.toList = some v := by
  cases v <;> decide +kernel

end Variant

end Winnow
