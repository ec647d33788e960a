import Winnow.Regex.Basic
import Winnow.Text.Blank

/-!
# Reading regular expressions

The syntax is that of expressions without look-around and back-references: classes
with nesting and set operations, counted repetition, groups with flags, and escapes
of which every one has to be known. Flags hold from where they are set to the end of
the group. What would match part of a character only is refused.
-/

namespace Winnow.Regex

structure Flags where
  ignoreCase : Bool
  multiLine : Bool
  dotAll : Bool
  carriageReturn : Bool
  unicode : Bool
  spaced : Bool
  deriving DecidableEq, Repr

def Flags.standard : Flags := ⟨false, false, false, false, true, false⟩

def asciiWord : CharClass := .ofRanges [('0', '9'), ('A', 'Z'), ('_', '_'), ('a', 'z')]

def asciiSpace : CharClass := .ofRanges [('\t', '\r'), (' ', ' ')]

def Flags.lookMode (f : Flags) : LookMode :=
  ⟨f.carriageReturn, if f.unicode then .word else asciiWord⟩

def asciiOrbit (c : CharClass) : CharClass :=
  let pairs := (List.range 26).map fun i => (Char.ofNat (0x41 + i), Char.ofNat (0x61 + i))
  pairs.foldl (fun a (u, l) =>
    let a := if c.contains u then .union a (.single l) else a
    if c.contains l then .union a (.single u) else a) c

def Flags.fold (f : Flags) (c : CharClass) : CharClass :=
  if !f.ignoreCase then c else if f.unicode then .folded c else asciiOrbit c

def Flags.skip (f : Flags) (cs : List Char) : List Char :=
  if f.spaced then go cs.length cs else cs
where
  go : Nat → List Char → List Char
    | 0, cs => cs
    | n + 1, cs =>
      match cs with
      | '#' :: rest => go n ((rest.dropWhile (· != '\n')).drop 1)
      | c :: rest => if Text.isBlank c then go n rest else c :: rest
      | [] => []

inductive Atom where
  | literal (c : Char)
  | byte (n : Nat)
  | cls (c : CharClass)
  | look (l : Look)

def hexDigit? (c : Char) : Option Nat :=
  if c.isDigit then some (c.toNat - '0'.toNat)
  else if 'a' ≤ c ∧ c ≤ 'f' then some (c.toNat - 'a'.toNat + 10)
  else if 'A' ≤ c ∧ c ≤ 'F' then some (c.toNat - 'A'.toNat + 10)
  else none

def codePoint? (ds : List Char) : Option Char := do
  let ns ← ds.mapM hexDigit?
  if ns.isEmpty then none
  let n := ns.foldl (fun n d => n * 16 + d) 0
  if n.isValidChar then some (.ofNat n) else none

def hexEscape? (f : Flags) (length : Nat) (cs : List Char) : Option (Char × List Char) :=
  match f.skip cs with
  | '{' :: cs =>
    match cs.span (· != '}') with
    | (ds, _ :: rest) => (codePoint? (ds.filter fun c => !(f.spaced && Text.isBlank c))).map (·, rest)
    | (_, []) => none
  | cs =>
    if (cs.take length).length < length then none
    else (codePoint? (cs.take length)).map (·, cs.drop length)

def isPunctuation (c : Char) : Bool :=
  c.toNat < 0x80 && !c.isAlphanum && c != '<' && c != '>'

def perlClass? (f : Flags) (c : Char) : Option CharClass :=
  let positive := match c.toLower with
    | 'd' => some (if f.unicode then .digit else .range '0' '9')
    | 's' => some (if f.unicode then .space else asciiSpace)
    | 'w' => some (if f.unicode then .word else asciiWord)
    | _ => none
  if !c.isUpper then positive
  else if f.unicode then positive.map .complement
  else none

def bracedBoundary? (f : Flags) (cs : List Char) : Option (Option (Look × List Char)) :=
  let isName (c : Char) : Bool := c.isAlpha || c == '-'
  match cs with
  | '{' :: rest =>
    match f.skip rest with
    | [] => none
    | c :: cs =>
      if !isName c then some none
      else
        let (name, rest) := (c :: cs).span isName
        match rest with
        | '}' :: rest =>
          match String.ofList name with
          | "start" => some (some (.wordStart, rest))
          | "end" => some (some (.wordEnd, rest))
          | "start-half" => some (some (.wordStartHalf, rest))
          | "end-half" => some (some (.wordEndHalf, rest))
          | _ => none
        | _ => none
  | _ => some none

def escape? (f : Flags) (cs : List Char) : Option (Atom × List Char) :=
  match cs with
  | [] => none
  | c :: cs =>
    let hex (n : Nat) : Option (Atom × List Char) :=
      (hexEscape? f n cs).map fun (h, cs) =>
        (if f.unicode ∨ c ≠ 'x' ∨ h.toNat < 0x80 ∨ 0xff < h.toNat then .literal h
          else .byte h.toNat, cs)
    match c with
    | 'x' => hex 2
    | 'u' => hex 4
    | 'U' => hex 8
    | 'a' => some (.literal '\x07', cs)
    | 'f' => some (.literal '\x0c', cs)
    | 't' => some (.literal '\t', cs)
    | 'n' => some (.literal '\n', cs)
    | 'r' => some (.literal '\r', cs)
    | 'v' => some (.literal '\x0b', cs)
    | 'A' => some (.look .textStart, cs)
    | 'z' => some (.look .textEnd, cs)
    | 'B' => some (.look .noBoundary, cs)
    | '<' => some (.look .wordStart, cs)
    | '>' => some (.look .wordEnd, cs)
    | 'b' =>
      match bracedBoundary? f cs with
      | none => none
      | some none => some (.look .boundary, cs)
      | some (some (l, cs)) => some (.look l, cs)
    | _ =>
      match perlClass? f c with
      | some k => some (.cls k, cs)
      | none => if isPunctuation c then some (.literal c, cs) else none

def namedClass? : String → Option CharClass
  | "alnum" => some (.ofRanges [('0', '9'), ('A', 'Z'), ('a', 'z')])
  | "alpha" => some (.ofRanges [('A', 'Z'), ('a', 'z')])
  | "ascii" => some (.range '\x00' '\x7f')
  | "blank" => some (.ofRanges [('\t', '\t'), (' ', ' ')])
  | "cntrl" => some (.ofRanges [('\x00', '\x1f'), ('\x7f', '\x7f')])
  | "digit" => some (.range '0' '9')
  | "graph" => some (.range '!' '~')
  | "lower" => some (.range 'a' 'z')
  | "print" => some (.range ' ' '~')
  | "punct" => some (.ofRanges [('!', '/'), (':', '@'), ('[', '`'), ('\x7b', '~')])
  | "space" => some asciiSpace
  | "upper" => some (.range 'A' 'Z')
  | "word" => some asciiWord
  | "xdigit" => some (.ofRanges [('0', '9'), ('A', 'F'), ('a', 'f')])
  | _ => none

def bracketName? (f : Flags) (cs : List Char) : Option (CharClass × List Char) :=
  match cs with
  | ':' :: cs =>
    let (negated, cs) := match cs with
      | '^' :: cs => (true, cs)
      | cs => (false, cs)
    match cs.span (· != ':') with
    | (name, ':' :: ']' :: rest) =>
      (namedClass? (.ofList name)).bind fun k =>
        if !negated then some (k, rest)
        else if f.unicode then some (.complement k, rest)
        else some (.both (.complement k) (.range '\x00' '\x7f'), rest)
    | _ => none
  | _ => none

def bracketAtom? (f : Flags) (cs : List Char) : Option (Atom × List Char) :=
  match cs with
  | [] => none
  | '\\' :: cs => escape? f cs
  | c :: cs => some (.literal c, cs)

def classLiteral? (f : Flags) : Atom → Option Char
  | .literal c => if f.unicode ∨ c.toNat < 0x80 then some c else none
  | _ => none

def bracketItem? (f : Flags) (cs : List Char) : Option (CharClass × List Char) := do
  let (a, cs) ← bracketAtom? f cs
  let alone : Option CharClass := match a with
    | .cls k => some k
    | a => (classLiteral? f a).map .single
  match f.skip cs with
  | '-' :: rest =>
    match f.skip rest with
    | [] => none
    | ']' :: _ | '-' :: _ => return (← alone, '-' :: rest)
    | rest =>
      let (b, cs) ← bracketAtom? f rest
      let low ← classLiteral? f a
      let high ← classLiteral? f b
      if low ≤ high then some (.range low high, cs) else none
  | cs => return (← alone, cs)

/-- Hyphens at the start of a class, and a bracket that comes first, are literal. -/
def bracketStart (f : Flags) (fuel : Nat) (k : CharClass) (cs : List Char) :
    CharClass × List Char :=
  match fuel, f.skip cs with
  | fuel + 1, '-' :: cs => bracketStart f fuel (.union k (.single '-')) cs
  | _, ']' :: cs => if k = .none then (.single ']', cs) else (k, ']' :: cs)
  | _, cs => (k, cs)

inductive SetOp where
  | both
  | except
  | either

def SetOp.apply : SetOp → CharClass → CharClass → CharClass
  | both, a, b => .both a b
  | except, a, b => .except a b
  | either, a, b => .either a b

abbrev LeftSide := Option (SetOp × CharClass)

def LeftSide.join (f : Flags) (left : LeftSide) (k : CharClass) : CharClass :=
  match left with
  | none => k
  | some (op, a) => op.apply (f.fold a) (f.fold k)

mutual

def bracket? (fuel : Nat) (f : Flags) (cs : List Char) : Option (CharClass × List Char) :=
  match fuel with
  | 0 => none
  | fuel + 1 => do
    let (negated, cs) := match f.skip cs with
      | '^' :: cs => (true, cs)
      | cs => (false, cs)
    let (k, cs) := bracketStart f cs.length .none cs
    let (k, cs) ← bracketRest? fuel f none k cs
    let k := f.fold k
    if !negated then some (k, cs)
    else if f.unicode then some (.complement k, cs)
    else none

def bracketRest? (fuel : Nat) (f : Flags) (left : LeftSide) (k : CharClass) (cs : List Char) :
    Option (CharClass × List Char) :=
  match fuel, f.skip cs with
  | 0, _ | _, [] => none
  | _ + 1, ']' :: cs => some (left.join f k, cs)
  | fuel + 1, '[' :: cs =>
    match bracketName? f cs with
    | some (n, cs) => bracketRest? fuel f left (.union k n) cs
    | none => do
      let (n, cs) ← bracket? fuel f cs
      bracketRest? fuel f left (.union k n) cs
  | fuel + 1, '&' :: '&' :: cs => bracketRest? fuel f (some (.both, left.join f k)) .none cs
  | fuel + 1, '-' :: '-' :: cs => bracketRest? fuel f (some (.except, left.join f k)) .none cs
  | fuel + 1, '~' :: '~' :: cs => bracketRest? fuel f (some (.either, left.join f k)) .none cs
  | fuel + 1, cs => do
    let (n, cs) ← bracketItem? f cs
    bracketRest? fuel f left (.union k n) cs

end

def decimal? (f : Flags) (cs : List Char) : Option (Option Nat × List Char) :=
  let cs := cs.dropWhile Text.isBlank
  let (ds, cs) := takeDigits cs.length cs
  let cs := f.skip (cs.dropWhile Text.isBlank)
  if ds.isEmpty then some (none, cs)
  else
    let n := ds.foldl (fun n d => n * 10 + d) 0
    if n < UInt32.size then some (some n, cs) else none
where
  takeDigits : Nat → List Char → List Nat × List Char
    | n + 1, c :: cs =>
      if c.isDigit then
        let (ds, cs) := takeDigits n (f.skip cs)
        ((c.toNat - '0'.toNat) :: ds, cs)
      else ([], c :: cs)
    | _, cs => ([], cs)

/-- A question mark after a repetition only says which match is preferred. -/
def skipLazy (cs : List Char) : List Char :=
  match cs with
  | '?' :: cs => cs
  | cs => cs

def bounds? (f : Flags) (cs : List Char) : Option ((Nat × Option Nat) × List Char) := do
  let (least, cs) ← decimal? f (f.skip cs)
  let (range, cs) ← match cs with
    | ',' :: cs =>
      match f.skip cs with
      | '}' :: cs => return ((← least, none), skipLazy (f.skip cs))
      | cs =>
        let least ← least
        let (most, cs) ← decimal? f cs
        some ((least, some (← most)), cs)
    | cs =>
      let n ← least
      some ((n, some n), cs)
  let '}' :: cs := cs | none
  if range.2.any (· < range.1) then none
  return (range, skipLazy (f.skip cs))

def setFlag? (on : Bool) (f : Flags) : Char → Option Flags
  | 'i' => some { f with ignoreCase := on }
  | 'm' => some { f with multiLine := on }
  | 's' => some { f with dotAll := on }
  | 'R' => some { f with carriageReturn := on }
  | 'u' => some { f with unicode := on }
  | 'x' => some { f with spaced := on }
  | 'U' => some f
  | _ => none

def flags? (seen : List Char) (f : Flags) : List Char → Option (Flags × Char × List Char × Bool)
  | [] => none
  | c :: cs =>
    if c = ':' ∨ c = ')' then
      if seen.getLast? = some '-' then none else some (f, c, cs, seen.isEmpty)
    else if seen.contains c then none
    else if c = '-' then flags? (seen ++ [c]) f cs
    else do flags? (seen ++ [c]) (← setFlag? (!seen.contains '-') f c) cs

def isNameStart (c : Char) : Bool :=
  c == '_' || c.isAlpha || (0x80 ≤ c.toNat && isWord c && !isDigit c)

def isNameRest (c : Char) : Bool :=
  c == '.' || c == '[' || c == ']' || c == '_' || c.isAlphanum || (0x80 ≤ c.toNat && isWord c)

def groupName? (names : List String) (cs : List Char) : Option (String × List Char) :=
  match cs.span (· != '>') with
  | (c :: name, _ :: rest) =>
    if isNameStart c ∧ name.all isNameRest ∧ ¬names.contains (.ofList (c :: name)) then
      some (.ofList (c :: name), rest)
    else none
  | _ => none

/-- The part of a sequence that a repetition sign would apply to, and what is in
front of it. Flags are nothing that can be repeated. -/
structure Sequence where
  front : Regex
  last : Option Regex

namespace Sequence

def start : Sequence := ⟨.empty, none⟩

def toRegex (s : Sequence) : Regex :=
  match s.last with
  | none => s.front
  | some r => if s.front = .empty then r else .cat s.front r

def push (s : Sequence) (r : Regex) : Sequence := ⟨s.toRegex, some r⟩

def close (s : Sequence) : Sequence := ⟨s.toRegex, none⟩

def repeatLast? (s : Sequence) (least : Nat) (most : Option Nat) : Option Sequence :=
  s.last.map fun r => { s with last := some (.times r least most) }

end Sequence

def literal (f : Flags) (c : Char) : Regex := .chars (f.fold (.single c))

def ofAtom? (f : Flags) : Atom → Option Regex
  | .literal c => some (literal f c)
  | .byte _ => none
  | .cls k => some (.chars k)
  | .look l => some (.look f.lookMode l)

def dot? (f : Flags) : Option Regex :=
  if !f.unicode then none
  else if f.dotAll then some (.chars (.complement .none))
  else if f.carriageReturn then
    some (.chars (.complement (.union (.single '\n') (.single '\r'))))
  else some (.chars (.complement (.single '\n')))

structure Reading where
  flags : Flags
  names : List String
  done : Option Regex
  seq : Sequence

namespace Reading

def start (f : Flags) (names : List String) : Reading := ⟨f, names, none, .start⟩

def toRegex (r : Reading) : Regex :=
  match r.done with
  | none => r.seq.toRegex
  | some a => .alt a r.seq.toRegex

def nextBranch (r : Reading) : Reading := { r with done := some r.toRegex, seq := .start }

def push (r : Reading) (x : Regex) : Reading := { r with seq := r.seq.push x }

def repeatLast? (r : Reading) (least : Nat) (most : Option Nat) : Option Reading :=
  (r.seq.repeatLast? least most).map fun seq => { r with seq }

end Reading

/-- The start of a group, after its bracket: flags for the rest of the group around
it, or the flags and names with which its inside is read. -/
def groupStart? (r : Reading) (cs : List Char) :
    Option ((Flags ⊕ (Flags × List String)) × List Char) :=
  match r.flags.skip cs with
  | '?' :: '=' :: _ | '?' :: '!' :: _ | '?' :: '<' :: '=' :: _ | '?' :: '<' :: '!' :: _ => none
  | '?' :: 'P' :: '<' :: cs | '?' :: '<' :: cs =>
    (groupName? r.names cs).map fun (n, cs) => (.inr (r.flags, n :: r.names), cs)
  | '?' :: cs => do
    let (f, stop, cs, isEmpty) ← flags? [] r.flags cs
    if stop = ':' then some (.inr (f, r.names), cs)
    else if isEmpty then none
    else some (.inl f, cs)
  | cs => some (.inr (r.flags, r.names), cs)

def sequence? (fuel : Nat) (r : Reading) (cs : List Char) : Option (Reading × List Char) :=
  match fuel, r.flags.skip cs with
  | _, [] => some (r, [])
  | 0, _ => none
  | _ + 1, ')' :: cs => some (r, ')' :: cs)
  | fuel + 1, '|' :: cs => sequence? fuel r.nextBranch cs
  | fuel + 1, '(' :: cs => do
    match ← groupStart? r cs with
    | (.inl f, cs) => sequence? fuel { r with flags := f, seq := r.seq.close } cs
    | (.inr (f, names), cs) =>
      let (inside, cs) ← sequence? fuel (.start f names) cs
      let ')' :: cs := cs | none
      sequence? fuel { r.push inside.toRegex with names := inside.names } cs
  | fuel + 1, '[' :: cs => do
    let (k, cs) ← bracket? (2 * cs.length + 2) r.flags cs
    sequence? fuel (r.push (.chars k)) cs
  | fuel + 1, '?' :: cs => do sequence? fuel (← r.repeatLast? 0 (some 1)) (skipLazy cs)
  | fuel + 1, '*' :: cs => do sequence? fuel (← r.repeatLast? 0 none) (skipLazy cs)
  | fuel + 1, '+' :: cs => do sequence? fuel (← r.repeatLast? 1 none) (skipLazy cs)
  | fuel + 1, '{' :: cs => do
    let ((least, most), cs) ← bounds? r.flags cs
    sequence? fuel (← r.repeatLast? least most) cs
  | fuel + 1, '.' :: cs => do sequence? fuel (r.push (← dot? r.flags)) cs
  | fuel + 1, '^' :: cs =>
    let l := if r.flags.multiLine then Look.lineStart else .textStart
    sequence? fuel (r.push (.look r.flags.lookMode l)) cs
  | fuel + 1, '$' :: cs =>
    let l := if r.flags.multiLine then Look.lineEnd else .textEnd
    sequence? fuel (r.push (.look r.flags.lookMode l)) cs
  | fuel + 1, '\\' :: cs => do
    let (a, cs) ← escape? r.flags cs
    sequence? fuel (r.push (← ofAtom? r.flags a)) cs
  | fuel + 1, c :: cs => sequence? fuel (r.push (literal r.flags c)) cs

def read? (s : String) : Option Regex := do
  let cs := s.toList
  let (r, []) ← sequence? (cs.length + 1) (.start .standard []) cs | none
  return r.toRegex

end Winnow.Regex
