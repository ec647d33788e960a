import Winnow.Toml.Scalar

/-!
# Reading TOML

A document is a sequence of lines: a table header, a key with its value, or
nothing, each with a comment or without. Arrays may go on over several lines,
tables in braces may not. Values nest to a fixed depth.
-/

namespace Winnow.Toml

def isSpace (c : Char) : Bool := c == ' ' || c == '\t'

def isControl (c : Char) : Bool := (c.toNat < 0x20 && c != '\t') || c.toNat == 0x7f

def skipSpaces (cs : List Char) : List Char := cs.dropWhile isSpace

def lineBreak? : List Char → Option (List Char)
  | '\n' :: cs => some cs
  | '\r' :: '\n' :: cs => some cs
  | _ => none

def skipComment : List Char → List Char
  | '#' :: cs => cs.dropWhile (!isControl ·)
  | cs => cs

def lineEnd? (cs : List Char) : Option (List Char) :=
  match skipComment (skipSpaces cs) with
  | [] => some []
  | cs => lineBreak? cs

def skipLines (fuel : Nat) (cs : List Char) : List Char :=
  match fuel with
  | 0 => cs
  | fuel + 1 =>
    let cs := skipComment (skipSpaces cs)
    match lineBreak? cs with
    | some cs => skipLines fuel cs
    | none => cs

def skipBlankLines (cs : List Char) : List Char := skipLines cs.length cs

def codePoint? (n : Nat) (cs : List Char) : Option (Char × List Char) := do
  let ds ← (cs.take n).mapM (digitIn? 16)
  let v := natOfDigits 16 ds
  if ds.length = n ∧ v.isValidChar then some (.ofNat v, cs.drop n) else none

def escape? : List Char → Option (Char × List Char)
  | 'b' :: cs => some ('\x08', cs)
  | 't' :: cs => some ('\t', cs)
  | 'n' :: cs => some ('\n', cs)
  | 'f' :: cs => some ('\x0c', cs)
  | 'r' :: cs => some ('\r', cs)
  | '"' :: cs => some ('"', cs)
  | '\\' :: cs => some ('\\', cs)
  | 'u' :: cs => codePoint? 4 cs
  | 'U' :: cs => codePoint? 8 cs
  | _ => none

def basicLine (fuel : Nat) (cs : List Char) : Option (List Char × List Char) :=
  match fuel, cs with
  | 0, _ | _, [] => none
  | _ + 1, '"' :: cs => some ([], cs)
  | fuel + 1, '\\' :: cs => do
    let (c, cs) ← escape? cs
    let (s, cs) ← basicLine fuel cs
    return (c :: s, cs)
  | fuel + 1, c :: cs =>
    if isControl c then none
    else do
      let (s, cs) ← basicLine fuel cs
      return (c :: s, cs)

def literalLine : List Char → Option (List Char × List Char)
  | [] => none
  | '\'' :: cs => some ([], cs)
  | c :: cs =>
    if isControl c then none
    else do
      let (s, cs) ← literalLine cs
      return (c :: s, cs)

/-- Three quotes end a string of several lines; up to two more belong to it. -/
def closeQuotes (q : Char) (cs : List Char) : Option (List Char × List Char) :=
  let n := (cs.takeWhile (· == q)).length
  if n < 3 ∨ 5 < n then none else some (List.replicate (n - 3) q, cs.drop n)

def continuation? (cs : List Char) : Option (List Char) := do
  let cs ← lineBreak? (skipSpaces cs)
  return cs.dropWhile fun c => isSpace c || c == '\n' || c == '\r'

def manyLines (q : Char) (fuel : Nat) (cs : List Char) : Option (List Char × List Char) :=
  match fuel, cs with
  | 0, _ | _, [] => none
  | fuel + 1, c :: cs =>
    let goOn (s : List Char) (cs : List Char) : Option (List Char × List Char) := do
      let (t, cs) ← manyLines q fuel cs
      return (s ++ t, cs)
    match closeQuotes q (c :: cs), lineBreak? (c :: cs) with
    | some r, _ => some r
    | none, some cs => goOn ['\n'] cs
    | none, none =>
      if c = '\\' ∧ q = '"' then
        match escape? cs, continuation? cs with
        | some (e, cs), _ => goOn [e] cs
        | none, some cs => goOn [] cs
        | none, none => none
      else if isControl c ∨ 5 < ((c :: cs).takeWhile (· == q)).length then none
      else goOn [c] cs

/-- A line break right after the opening quotes does not count. -/
def skipFirstBreak (cs : List Char) : List Char := (lineBreak? cs).getD cs

def string? (cs : List Char) : Option (String × List Char) :=
  (match cs with
    | '"' :: '"' :: '"' :: cs => manyLines '"' (cs.length + 1) (skipFirstBreak cs)
    | '\'' :: '\'' :: '\'' :: cs => manyLines '\'' (cs.length + 1) (skipFirstBreak cs)
    | '"' :: cs => basicLine (cs.length + 1) cs
    | '\'' :: cs => literalLine cs
    | _ => none).map fun (s, cs) => (.ofList s, cs)

def isBare (c : Char) : Bool := c.isAlphanum || c == '_' || c == '-'

def simpleKey? (cs : List Char) : Option (String × List Char) :=
  match cs with
  | '"' :: cs => (basicLine (cs.length + 1) cs).map fun (s, cs) => (.ofList s, cs)
  | '\'' :: cs => (literalLine cs).map fun (s, cs) => (.ofList s, cs)
  | _ =>
    match cs.span isBare with
    | ([], _) => none
    | (s, cs) => some (.ofList s, cs)

def key? (fuel : Nat) (cs : List Char) : Option ((List String × String) × List Char) :=
  match fuel with
  | 0 => none
  | fuel + 1 => do
    let (k, cs) ← simpleKey? (skipSpaces cs)
    match skipSpaces cs with
    | '.' :: cs =>
      let ((path, last), cs) ← key? fuel cs
      return ((k :: path, last), cs)
    | cs => return (([], k), cs)

def isScalarChar (c : Char) : Bool :=
  c.isAlphanum || c == '_' || c == '-' || c == '+' || c == '.' || c == ':'

/-- The text of a scalar; one blank may stand between a date and a time. -/
def scalarText (cs : List Char) : List Char × List Char :=
  match cs.span isScalarChar with
  | (date, ' ' :: c :: rest) =>
    if isDate date && c.isDigit then
      match (c :: rest).span isScalarChar with
      | (time, rest) => (date ++ ' ' :: time, rest)
    else (date, ' ' :: c :: rest)
  | r => r

def maxDepth : Nat := 80

mutual

def value? (fuel depth : Nat) (cs : List Char) : Option (Value × List Char) :=
  match fuel, cs with
  | 0, _ | _, [] => none
  | fuel + 1, '[' :: cs => if depth = 0 then none else items? fuel (depth - 1) [] (skipBlankLines cs)
  | fuel + 1, '{' :: cs => if depth = 0 then none else
    match skipSpaces cs with
    | '}' :: cs => some (.table .braces [], cs)
    | cs => pairs? fuel (depth - 1) (.braces, []) cs
  | _ + 1, c :: cs =>
    if c = '"' ∨ c = '\'' then (string? (c :: cs)).map fun (s, cs) => (.string s, cs)
    else
      let (text, cs) := scalarText (c :: cs)
      (scalar? text).map fun v => (v, cs)

def items? (fuel depth : Nat) (done : List Value) (cs : List Char) : Option (Value × List Char) :=
  match fuel, cs with
  | 0, _ => none
  | _ + 1, ']' :: cs => some (.array done, cs)
  | fuel + 1, cs => do
    let (v, cs) ← value? fuel depth cs
    match skipBlankLines cs with
    | ',' :: cs => items? fuel depth (done ++ [v]) (skipBlankLines cs)
    | ']' :: cs => some (.array (done ++ [v]), cs)
    | _ => none

def pairs? (fuel depth : Nat) (done : Branch) (cs : List Char) : Option (Value × List Char) :=
  match fuel with
  | 0 => none
  | fuel + 1 => do
    let ((path, k), cs) ← key? cs.length cs
    let '=' :: cs := cs | none
    let (v, cs) ← value? fuel depth (skipSpaces cs)
    let done ← addPair path k v done
    match skipSpaces cs with
    | ',' :: cs => pairs? fuel depth done cs
    | '}' :: cs => some (.table .braces done.2, cs)
    | _ => none

end

abbrev Document := Entries × List String

def Document.update (d : Document) (here : List String) (change : Branch → Option Branch) :
    Option Document :=
  (change (.header, d.1)).map fun t => (t.2, here)

def line? (d : Document) (cs : List Char) : Option (Document × List Char) :=
  match skipSpaces cs with
  | '[' :: '[' :: cs => do
    let ((path, k), cs) ← key? cs.length cs
    let ']' :: ']' :: cs := cs | none
    return (← d.update (path ++ [k]) (descend false (openRow k) path), ← lineEnd? cs)
  | '[' :: cs => do
    let ((path, k), cs) ← key? cs.length cs
    let ']' :: cs := cs | none
    return (← d.update (path ++ [k]) (descend false (openTable k) path), ← lineEnd? cs)
  | cs =>
    match lineEnd? cs with
    | some cs => some (d, cs)
    | none => do
      let ((path, k), cs) ← key? cs.length cs
      let '=' :: cs := cs | none
      let (v, cs) ← value? (2 * cs.length + 2) maxDepth (skipSpaces cs)
      return (← d.update d.2 (within (addPair path k v) d.2), ← lineEnd? cs)

def lines? (fuel : Nat) (d : Document) (cs : List Char) : Option Document :=
  match fuel, cs with
  | _, [] => some d
  | 0, _ => none
  | fuel + 1, cs => do
    let (d, cs) ← line? d cs
    lines? fuel d cs

def read? (s : String) : Option Entries :=
  let cs := match s.toList with
    | '\ufeff' :: cs => cs
    | cs => cs
  (lines? cs.length ([], []) cs).map Prod.fst

end Winnow.Toml
