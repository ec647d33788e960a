import Winnow.Regex.CaseOrbit
import Winnow.Regex.Property

/-!
# Regular expressions

A regular expression over characters, with tests of what stands before and after a
place, and what it matches. Matching sends a set of places in a text to the set of
places that a match from one of them can end at, so it does not depend on which of
several matches is preferred.
-/

namespace Winnow.Regex

inductive CharClass where
  | none
  | range (low high : Char)
  | word
  | digit
  | space
  | union (a b : CharClass)
  | both (a b : CharClass)
  | except (a b : CharClass)
  | either (a b : CharClass)
  | complement (a : CharClass)
  | folded (a : CharClass)
  deriving DecidableEq, Repr

namespace CharClass

def contains : CharClass → Char → Bool
  | none, _ => false
  | range low high, c => low ≤ c && c ≤ high
  | word, c => isWord c
  | digit, c => isDigit c
  | space, c => isSpace c
  | union a b, c => a.contains c || b.contains c
  | both a b, c => a.contains c && b.contains c
  | except a b, c => a.contains c && !b.contains c
  | either a b, c => a.contains c != b.contains c
  | complement a, c => !a.contains c
  | folded a, c => (caseOrbit c).any a.contains

def single (c : Char) : CharClass := range c c

def ofRanges (rs : List (Char × Char)) : CharClass :=
  rs.foldl (fun a (low, high) => union a (range low high)) none

end CharClass

inductive Look where
  | textStart
  | textEnd
  | lineStart
  | lineEnd
  | boundary
  | noBoundary
  | wordStart
  | wordEnd
  | wordStartHalf
  | wordEndHalf
  deriving DecidableEq, Repr

structure LookMode where
  carriageReturn : Bool
  word : CharClass
  deriving DecidableEq, Repr

def Look.holds (m : LookMode) (before after : Option Char) : Look → Bool
  | textStart => before.isNone
  | textEnd => after.isNone
  | lineStart =>
    before.isNone || before == some '\n' ||
      (m.carriageReturn && before == some '\r' && after != some '\n')
  | lineEnd =>
    if m.carriageReturn then
      after.isNone || after == some '\r' || (after == some '\n' && before != some '\r')
    else after.isNone || after == some '\n'
  | boundary => before.any m.word.contains != after.any m.word.contains
  | noBoundary => before.any m.word.contains == after.any m.word.contains
  | wordStart => !before.any m.word.contains && after.any m.word.contains
  | wordEnd => before.any m.word.contains && !after.any m.word.contains
  | wordStartHalf => !before.any m.word.contains
  | wordEndHalf => !after.any m.word.contains

end Regex

open Regex in
inductive Regex where
  | empty
  | chars (c : CharClass)
  | look (m : LookMode) (l : Look)
  | cat (a b : Regex)
  | alt (a b : Regex)
  | times (a : Regex) (least : Nat) (most : Option Nat)
  deriving DecidableEq, Repr

namespace Regex

abbrev Places := Array Bool

def Places.union (s t : Places) : Places := s.zipWith (· || ·) t

def step (text : Array Char) (c : CharClass) (s : Places) : Places :=
  .ofFn (n := s.size) fun i =>
    match i.val with
    | 0 => false
    | j + 1 => s[j]?.getD false && (text[j]?.any c.contains)

def keep (text : Array Char) (m : LookMode) (l : Look) (s : Places) : Places :=
  .ofFn (n := s.size) fun i =>
    s[i] && l.holds m (if i.val = 0 then none else text[i.val - 1]?) text[i.val]?

def repeatExactly (f : Places → Places) : Nat → Places → Places
  | 0, s => s
  | n + 1, s => repeatExactly f n (f s)

def repeatUpTo (f : Places → Places) : Nat → Places → Places
  | 0, s => s
  | n + 1, s =>
    let t := s.union (f s)
    if t = s then s else repeatUpTo f n t

def advance (text : Array Char) : Regex → Places → Places
  | empty, s => s
  | chars c, s => step text c s
  | look m l, s => keep text m l s
  | cat a b, s => advance text b (advance text a s)
  | alt a b, s => (advance text a s).union (advance text b s)
  | times a least most, s =>
    let f := advance text a
    let rounds := match most with
      | some most => most - least
      | none => text.size + 1
    repeatUpTo f rounds (repeatExactly f least s)

def isMatch (r : Regex) (s : String) : Bool :=
  let text := s.toList.toArray
  (advance text r (.replicate (text.size + 1) true)).any id

end Regex

end Winnow
