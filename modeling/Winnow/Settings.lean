import Winnow.CommandLine
import Winnow.Pattern
import Winnow.Table.Plane

/-!
# Settings of a search

A search is set up from the command line and from defaults, which a file may give.
The last argument is the path; leading digits with a dash are the number of threads
for each processor; all others are patterns. When several things are wrong the
order is: no path, the threads, the queue, the patterns from left to right, no
patterns.
-/

namespace Winnow

structure Defaults where
  caseSensitive : Bool
  nibbles : Bool
  suppressErrors : Bool
  variants : Bool
  oversize : Nat
  queueDepth : Nat
  deriving DecidableEq, Repr

def Defaults.standard : Defaults := ⟨false, false, false, false, 1, 8⟩

instance : Inhabited Defaults := ⟨.standard⟩

structure Settings where
  patterns : List Pattern
  root : String
  filters : List String
  caseSensitive : Bool
  layout : Layout
  suppressErrors : Bool
  variants : Bool
  oversize : Nat
  queueDepth : Nat
  deriving DecidableEq

namespace Settings

def of (patterns : List Pattern) (root : String) : Settings where
  patterns := patterns
  root := root
  filters := []
  caseSensitive := false
  layout := .byte
  suppressErrors := false
  variants := false
  oversize := Defaults.standard.oversize
  queueDepth := Defaults.standard.queueDepth

def withOversize (s : Settings) (n : Nat) : Settings := { s with oversize := max 1 (min 9 n) }

def withQueueDepth (s : Settings) (n : Nat) : Settings := { s with queueDepth := max 1 n }

def acceptCount (s : Settings) : Nat := s.patterns.countP (·.polarity == .accept)

def dashDigit? (word : String) : Option Nat :=
  match word.toList with
  | ['-', d] => if '1' ≤ d ∧ d ≤ '9' then some (d.toNat - '0'.toNat) else none
  | _ => none

def takeDigits (last : Option Nat) : List String → Option Nat × List String
  | [] => (last, [])
  | w :: ws =>
    match dashDigit? w with
    | some n => takeDigits (some n) ws
    | none => (last, w :: ws)

/-- A path and the filters in braces at its end. The first opening brace counts, and
the closing one has to be the last character. -/
def splitFilters (token : String) : String × List String :=
  match token.toList.reverse with
  | '}' :: rest =>
    match rest.reverse.span (· != '{') with
    | (_, []) => (token, [])
    | (root, _ :: list) => (.ofList root, (Text.commaItems list).map String.ofList)
  | _ => (token, [])

def ofCommandLine (l : CommandLine) (d : Defaults) : Except Error Settings := do
  let variants := l.variant || d.variants
  let (digit, words) := takeDigits none l.args
  let some path := words.getLast? | .error .missingPath
  let oversize := (digit <|> l.oversize).getD d.oversize
  if ¬(1 ≤ oversize ∧ oversize ≤ 9) then
    .error (.config ("oversize must be between 1 and 9, got " ++ toString oversize))
  if d.queueDepth = 0 then .error (.config "queue_depth must be at least 1")
  let patterns ← words.dropLast.mapM (Pattern.ofToken variants)
  if patterns.isEmpty then .error .noPatterns
  let (root, filters) := splitFilters path
  return {
    patterns, root, filters, variants, oversize
    caseSensitive := l.case || d.caseSensitive
    layout := if l.nibbles || d.nibbles then .nibble else .byte
    suppressErrors := l.suppress || d.suppressErrors
    queueDepth := d.queueDepth }

end Settings

end Winnow
