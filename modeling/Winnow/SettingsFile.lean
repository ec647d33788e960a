import Winnow.Settings
import Winnow.Toml.Reader

/-!
# Defaults from a settings file

The file is TOML; its `search` table gives the defaults. Keys that are not known
are passed over, but every number in the file has to be within range. The six
values can also be given as an array, in their order, from which the last may be
missing. A date in place of the table gives nothing.
-/

namespace Winnow

namespace Toml

def isFinite (digits : Nat) (exponent : Int) : Bool :=
  let bound := Nat.pow 2 1024 - Nat.pow 2 970
  if digits = 0 then true
  else if 400 < exponent then false
  else if 0 ≤ exponent then digits * Nat.pow 10 exponent.toNat < bound
  else
    let size := (Nat.toDigits 10 digits).length
    if (size : Int) + exponent ≤ 308 then true
    else digits < bound * Nat.pow 10 (-exponent).toNat

mutual

def Value.inRange : Value → Bool
  | .integer n => -(2 ^ 127) ≤ n && n < 2 ^ 128
  | .float digits exponent => isFinite digits exponent
  | .array vs => allInRange vs
  | .table _ es => entriesInRange es
  | .tables rows => rowsInRange rows
  | .string _ | .special | .boolean _ | .datetime => true

def allInRange : List Value → Bool
  | [] => true
  | v :: vs => v.inRange && allInRange vs

def entriesInRange : List (String × Value) → Bool
  | [] => true
  | (_, v) :: es => v.inRange && entriesInRange es

def rowsInRange : List (List (String × Value)) → Bool
  | [] => true
  | r :: rs => entriesInRange r && rowsInRange rs

end

def boolean? : Value → Option Bool
  | .boolean b => some b
  | _ => none

def natBelow? (bound : Nat) : Value → Option Nat
  | .integer n => if 0 ≤ n ∧ n < bound then some n.toNat else none
  | _ => none

end Toml

namespace Defaults

open Toml

def orElse {α β : Type} (read : α → Option β) (there : Option α) (was : β) : Option β :=
  match there with
  | some a => read a
  | none => some was

def ofParts? (part : String → Nat → Option Value) : Option Defaults := do
  let d := standard
  return {
    caseSensitive := ← orElse boolean? (part "case_sensitive" 0) d.caseSensitive
    nibbles := ← orElse boolean? (part "nibbles" 1) d.nibbles
    suppressErrors := ← orElse boolean? (part "suppress_errors" 2) d.suppressErrors
    variants := ← orElse boolean? (part "variants" 3) d.variants
    oversize := ← orElse (natBelow? UInt8.size) (part "oversize" 4) d.oversize
    queueDepth := ← orElse (natBelow? UInt64.size) (part "queue_depth" 5) d.queueDepth }

def ofEntries? (root : Entries) : Option Defaults :=
  if entriesInRange root then
    match root.get? "search" with
    | none | some .datetime => some standard
    | some (.table _ es) => ofParts? fun k _ => Entries.get? es k
    | some (.array vs) => ofParts? fun _ i => vs[i]?
    | some _ => none
  else none

def ofToml? (s : String) : Option Defaults := do ofEntries? (← read? s)

end Defaults

namespace SettingsFile

def cannotRead (path : String) : String := "Failed to read config file: " ++ path

def cannotParse (path : String) : String := "Failed to parse config file: " ++ path

def load (path : String) : Option String → Except String Defaults
  | none => .error (cannotRead path)
  | some text =>
    match Defaults.ofToml? text with
    | some d => .ok d
    | none => .error (cannotParse path)

end SettingsFile

end Winnow
