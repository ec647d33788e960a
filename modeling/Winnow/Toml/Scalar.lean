import Winnow.Toml.Value

/-!
# TOML numbers, dates and times

The text of a scalar that is not a string is a run of characters without blanks,
save for the one blank that may stand between a date and a time. Each kind is
recognised by its whole text.
-/

namespace Winnow.Toml

def digitIn? (base : Nat) (c : Char) : Option Nat :=
  let d? :=
    if c.isDigit then some (c.toNat - '0'.toNat)
    else if 'a' ≤ c ∧ c ≤ 'f' then some (c.toNat - 'a'.toNat + 10)
    else if 'A' ≤ c ∧ c ≤ 'F' then some (c.toNat - 'A'.toNat + 10)
    else none
  d?.filter (· < base)

def digits? (base : Nat) (cs : List Char) : Option (List Nat) :=
  match cs with
  | [] => none
  | [c] => do return [← digitIn? base c]
  | c :: '_' :: rest => do return (← digitIn? base c) :: (← digits? base rest)
  | c :: rest => do return (← digitIn? base c) :: (← digits? base rest)

def natOfDigits (base : Nat) (ds : List Nat) : Nat := ds.foldl (fun n d => n * base + d) 0

def decimal? (cs : List Char) : Option (List Nat) := do
  let ds ← digits? 10 cs
  if ds.length > 1 ∧ ds.head? = some 0 then none else some ds

def splitSign : List Char → Bool × List Char
  | '-' :: cs => (true, cs)
  | '+' :: cs => (false, cs)
  | cs => (false, cs)

def integer? (cs : List Char) : Option Int :=
  match cs with
  | '0' :: 'x' :: ds => (digits? 16 ds).map fun ds => natOfDigits 16 ds
  | '0' :: 'o' :: ds => (digits? 8 ds).map fun ds => natOfDigits 8 ds
  | '0' :: 'b' :: ds => (digits? 2 ds).map fun ds => natOfDigits 2 ds
  | _ =>
    let (negative, ds) := splitSign cs
    (decimal? ds).map fun ds =>
      if negative then -(natOfDigits 10 ds : Int) else natOfDigits 10 ds

def exponent? (cs : List Char) : Option Int :=
  let (negative, ds) := splitSign cs
  (digits? 10 ds).map fun ds =>
    if negative then -(natOfDigits 10 ds : Int) else natOfDigits 10 ds

def float? (cs : List Char) : Option Value := do
  let (_, cs) := splitSign cs
  if cs = ['i', 'n', 'f'] ∨ cs = ['n', 'a', 'n'] then return .special
  let (mantissa, power) := cs.span fun c => c ≠ 'e' ∧ c ≠ 'E'
  let (whole, fraction) := mantissa.span (· ≠ '.')
  if power.isEmpty ∧ fraction.isEmpty then none
  let ws ← decimal? whole
  let fs ← match fraction with
    | [] => some []
    | _ :: fs => digits? 10 fs
  let e ← match power with
    | [] => some 0
    | _ :: es => exponent? es
  return .float (natOfDigits 10 (ws ++ fs)) (e - fs.length)

def fixed? (n : Nat) (cs : List Char) : Option Nat :=
  if cs.length = n ∧ cs.all Char.isDigit then some (natOfDigits 10 (cs.map (·.toNat - '0'.toNat)))
  else none

def isLeapYear (y : Nat) : Bool := y % 4 == 0 && (y % 100 != 0 || y % 400 == 0)

def daysIn (year month : Nat) : Nat :=
  if month = 2 then (if isLeapYear year then 29 else 28)
  else if month = 4 ∨ month = 6 ∨ month = 9 ∨ month = 11 then 30
  else 31

def isDate (cs : List Char) : Bool :=
  match fixed? 4 (cs.take 4), fixed? 2 ((cs.drop 5).take 2), fixed? 2 (cs.drop 8) with
  | some y, some m, some d =>
    cs[4]? == some '-' && cs[7]? == some '-' && 1 ≤ m && m ≤ 12 && 1 ≤ d && d ≤ daysIn y m
  | _, _, _ => false

def isTime (cs : List Char) : Bool :=
  match fixed? 2 (cs.take 2), fixed? 2 ((cs.drop 3).take 2), fixed? 2 ((cs.drop 6).take 2) with
  | some h, some m, some s =>
    cs[2]? == some ':' && cs[5]? == some ':' && h ≤ 23 && m ≤ 59 && s ≤ 60 &&
      match cs.drop 8 with
      | [] => true
      | '.' :: ds => !ds.isEmpty && ds.all Char.isDigit
      | _ => false
  | _, _, _ => false

def isOffset (cs : List Char) : Bool :=
  match cs with
  | ['Z'] | ['z'] => true
  | sign :: cs =>
    match fixed? 2 (cs.take 2), fixed? 2 (cs.drop 3) with
    | some h, some m =>
      (sign == '+' || sign == '-') && cs[2]? == some ':' && h ≤ 24 && m ≤ 59 && h * 60 + m ≤ 1440
    | _, _ => false
  | [] => false

def isDatetime (cs : List Char) : Bool :=
  match cs.drop 10 with
  | [] => isDate cs || isTime cs
  | mark :: rest =>
    let (time, offset) := rest.span fun c => c.isDigit || c == ':' || c == '.'
    isTime cs || ((mark == 'T' || mark == 't' || mark == ' ') && isDate (cs.take 10) &&
      isTime time && (offset.isEmpty || isOffset offset))

def scalar? (cs : List Char) : Option Value :=
  if cs = "true".toList then some (.boolean true)
  else if cs = "false".toList then some (.boolean false)
  else if isDatetime cs then some .datetime
  else match integer? cs with
    | some n => some (.integer n)
    | none => float? cs

end Winnow.Toml
