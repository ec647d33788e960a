/-!
# TOML documents

A table knows how it came about, since that decides what may still be added to it:
by its own header, as a step on the way to another header, as a step of a dotted
key, or within braces. Tables under a double-bracket header form a row of their
own kind, apart from arrays of values.
-/

namespace Winnow.Toml

inductive Origin where
  | header
  | implied
  | dotted
  | braces
  deriving DecidableEq, Repr

inductive Value where
  | string (s : String)
  | integer (n : Int)
  | float (digits : Nat) (exponent : Int)
  | special
  | boolean (b : Bool)
  | datetime
  | array (items : List Value)
  | table (origin : Origin) (entries : List (String × Value))
  | tables (rows : List (List (String × Value)))
  deriving Repr

abbrev Entries := List (String × Value)

namespace Entries

def get? (es : Entries) (k : String) : Option Value := es.lookup k

def set (es : Entries) (k : String) (v : Value) : Entries :=
  match es with
  | [] => [(k, v)]
  | (k', v') :: rest => if k' = k then (k, v) :: rest else (k', v') :: set rest k v

end Entries

abbrev Branch := Origin × Entries

/-- Changes the table at the end of a path, making the tables on the way. A path
leads into the last of a row of tables. It cannot lead through braces nor, where it
is part of a dotted key, through a table that has a header. -/
def descend (dotted : Bool) (change : Branch → Option Branch) :
    List String → Branch → Option Branch
  | [], t => change t
  | k :: ks, (origin, es) =>
    match es.get? k with
    | none => do
      let (o, sub) ← descend dotted change ks (if dotted then .dotted else .implied, [])
      return (origin, es ++ [(k, .table o sub)])
    | some (.table o sub) =>
      if o = .braces ∨ (dotted ∧ o = .header) then none
      else do
        let (o, sub) ← descend dotted change ks (o, sub)
        return (origin, es.set k (.table o sub))
    | some (.tables rows) =>
      match rows.getLast? with
      | none => none
      | some row => do
        let (_, row) ← descend dotted change ks (.header, row)
        return (origin, es.set k (.tables (rows.dropLast ++ [row])))
    | some _ => none

/-- A new entry of a table. A table made by dotted keys grows by dotted keys only,
and any other by single keys only. -/
def addEntry (dotted : Bool) (k : String) (v : Value) : Branch → Option Branch
  | (origin, es) =>
    if (origin = .dotted) ≠ dotted ∨ (es.get? k).isSome then none
    else some (origin, es ++ [(k, v)])

def addPair (path : List String) (k : String) (v : Value) (t : Branch) : Option Branch :=
  descend (!path.isEmpty) (addEntry (!path.isEmpty) k v) path t

/-- A table gets its header; it may only have been implied before. -/
def openTable (k : String) : Branch → Option Branch
  | (origin, es) =>
    match es.get? k with
    | none => some (origin, es ++ [(k, .table .header [])])
    | some (.table .implied sub) => some (origin, es.set k (.table .header sub))
    | some _ => none

def openRow (k : String) : Branch → Option Branch
  | (origin, es) =>
    match es.get? k with
    | none => some (origin, es ++ [(k, .tables [[]])])
    | some (.tables rows) => some (origin, es.set k (.tables (rows ++ [[]])))
    | some _ => none

def within (change : Branch → Option Branch) : List String → Branch → Option Branch
  | [], t => change t
  | k :: ks, (origin, es) =>
    match es.get? k with
    | some (.table o sub) => do
      let (o, sub) ← within change ks (o, sub)
      return (origin, es.set k (.table o sub))
    | some (.tables rows) =>
      match rows.getLast? with
      | none => none
      | some row => do
        let (_, row) ← within change ks (.header, row)
        return (origin, es.set k (.tables (rows.dropLast ++ [row])))
    | _ => none

end Winnow.Toml
