import Winnow.Table.IdGroups
import Winnow.Table.Plane
import Winnow.Table.StartBytes
import Winnow.Text.AsciiCase

/-!
# The automaton

The states are planes, numbered by a byte; plane 0 stands for a dead end and plane 1
is the root. In the byte layout one cell is read for each byte. In the nibble layout
a byte takes two: its high half leads to a plane in between, whose cell for the low
half is the cell of the byte.

Inserting a pattern makes the planes it needs on the way. When case is ignored both
forms of a letter lead to the same plane, so the two forms of a word share their
end. There are 256 plane numbers; a pattern that needs one more is refused, and
what had been made for it stays. So an insertion answers with the automaton it
leaves behind, and apart from that whether it succeeded.
-/

namespace Winnow

structure Automaton (l : Layout) where
  caseless : Bool
  planes : Array (Plane l)
  groups : IdGroups
  starts : StartBytes
  deriving DecidableEq

structure Slot where
  plane : UInt8
  symbol : Nat
  deriving DecidableEq, Repr

def highNibble (b : UInt8) : Nat := b.toNat / 16

def lowNibble (b : UInt8) : Nat := b.toNat % 16

namespace Automaton

variable {l : Layout}

def root : UInt8 := 1

def maxPlane : Nat := 255

def empty (caseless : Bool) : Automaton l := ⟨caseless, #[.blank, .blank], .empty, .empty⟩

instance : Inhabited (Automaton l) := ⟨empty true⟩

def size (a : Automaton l) : Nat := a.planes.size

def plane (a : Automaton l) (n : UInt8) : Plane l := a.planes[n.toNat]?.getD .blank

def isEmpty (a : Automaton l) : Bool := (a.plane root).isBlank

def cell (a : Automaton l) (s : Slot) : Cell := (a.plane s.plane).get s.symbol

def setCell (a : Automaton l) (s : Slot) (c : Cell) : Automaton l :=
  { a with planes := a.planes.modify s.plane.toNat (·.set s.symbol c) }

def endsAt (a : Automaton l) (c : Cell) : OrdSet PatternId := a.groups.get c.terminal.toNat

def step (a : Automaton l) (state byte : UInt8) : Cell :=
  match l, a with
  | .byte, a => a.cell ⟨state, byte.toNat⟩
  | .nibble, a =>
    let mid := (a.cell ⟨state, highNibble byte⟩).target
    if mid = 0 then .empty else a.cell ⟨mid, lowNibble byte⟩

def walk (a : Automaton l) (state : UInt8) : List UInt8 → List Cell
  | [] => []
  | b :: bs =>
    let c := a.step state b
    if c.isDeadEnd then [c] else c :: walk a c.target bs

def live (a : Automaton l) : List (Nat × Nat × Cell) :=
  a.planes.toList.zipIdx.flatMap fun (p, n) => p.live.map fun (symbol, c) => (n, symbol, c)

def targetsInRange (a : Automaton l) : Bool :=
  a.planes.all fun p => p.cells.all fun c => c.target.toNat < a.size

def forms (a : Automaton l) (b : UInt8) : UInt8 × UInt8 :=
  if a.caseless then (AsciiCase.upper b, AsciiCase.lower b) else (b, b)

def allocate (a : Automaton l) : Except Error (UInt8 × Automaton l) :=
  if a.size ≤ maxPlane then
    .ok (.ofNat a.size, { a with planes := a.planes.push .blank })
  else
    .error (.automatonFull maxPlane)

/-- Where the cell of a byte is, making the plane in between if there is none. -/
def locate (a : Automaton l) (state byte : UInt8) : Automaton l × Except Error Slot :=
  match l, a with
  | .byte, a => (a, .ok ⟨state, byte.toNat⟩)
  | .nibble, a =>
    let high : Slot := ⟨state, highNibble byte⟩
    let mid := (a.cell high).target
    if mid ≠ 0 then (a, .ok ⟨mid, lowNibble byte⟩)
    else match a.allocate with
      | .error e => (a, .error e)
      | .ok (fresh, a) =>
        (a.setCell high ((a.cell high).setTarget fresh), .ok ⟨fresh, lowNibble byte⟩)

def locateForms (a : Automaton l) (state byte : UInt8) :
    Automaton l × Except Error (Slot × Slot) :=
  let (first, second) := a.forms byte
  match a.locate state first with
  | (a, .error e) => (a, .error e)
  | (a, .ok s) =>
    if first = second then (a, .ok (s, s))
    else match a.locate state second with
      | (a, .error e) => (a, .error e)
      | (a, .ok t) => (a, .ok (s, t))

def next? (a : Automaton l) (s t : Slot) : Option UInt8 :=
  if (a.cell s).target ≠ 0 then some (a.cell s).target
  else if (a.cell t).target ≠ 0 then some (a.cell t).target
  else none

def lead (a : Automaton l) (s t : Slot) (next : UInt8) : Automaton l :=
  let a := a.setCell s ((a.cell s).setTarget next)
  a.setCell t ((a.cell t).setTarget next)

def descend (a : Automaton l) (state byte : UInt8) :
    Automaton l × Except Error (UInt8 × Slot × Slot) :=
  match a.locateForms state byte with
  | (a, .error e) => (a, .error e)
  | (a, .ok (s, t)) =>
    match a.next? s t with
    | some next => (a.lead s t next, .ok (next, s, t))
    | none =>
      match a.allocate with
      | .error e => (a, .error e)
      | .ok (next, a) => (a.lead s t next, .ok (next, s, t))

/-- Down along a word that starts with `byte`: where the cells of its last byte are. -/
def descendAlong (a : Automaton l) (state byte : UInt8) :
    List UInt8 → Automaton l × Except Error (Slot × Slot)
  | [] =>
    match a.descend state byte with
    | (a, .error e) => (a, .error e)
    | (a, .ok (_, s, t)) => (a, .ok (s, t))
  | b :: bs =>
    match a.descend state byte with
    | (a, .error e) => (a, .error e)
    | (a, .ok (next, _)) => descendAlong a next b bs

def enlist (a : Automaton l) (s : Slot) (group : Nat) (id : PatternId) : Automaton l :=
  let a := a.setCell s ((a.cell s).setTerminal group)
  { a with groups := a.groups.insert group id }

/-- The pattern ends at this cell: in the group that it has, else in the group that
was made for the other form of the byte, else in a new one. -/
def mark (a : Automaton l) (s : Slot) (id : PatternId) (made : Option Nat) :
    Automaton l × Except Error (Option Nat) :=
  if (a.cell s).terminal ≠ 0 then (a.enlist s (a.cell s).terminal.toNat id, .ok made)
  else match made with
    | some group => (a.enlist s group id, .ok made)
    | none =>
      match a.groups.allocate with
      | .error e => (a, .error e)
      | .ok (group, groups) => ({ a with groups }.enlist s group id, .ok (some group))

def markForms (a : Automaton l) (s t : Slot) (id : PatternId) :
    Automaton l × Except Error Unit :=
  match a.mark s id none with
  | (a, .error e) => (a, .error e)
  | (a, .ok made) =>
    if s = t then (a, .ok ())
    else match a.mark t id made with
      | (a, .error e) => (a, .error e)
      | (a, .ok _) => (a, .ok ())

def noteStart (a : Automaton l) (b : UInt8) : Automaton l :=
  { a with starts := (a.starts.insert (a.forms b).1).insert (a.forms b).2 }

def insert (a : Automaton l) (pattern : List UInt8) (id : PatternId) :
    Automaton l × Except Error Unit :=
  match pattern with
  | [] => (a, .ok ())
  | b :: bs =>
    match (a.noteStart b).descendAlong root b bs with
    | (a, .error e) => (a, .error e)
    | (a, .ok (s, t)) => a.markForms s t id

def insertAll (a : Automaton l) : List (List UInt8 × PatternId) → Except Error (Automaton l)
  | [] => .ok a
  | (pattern, id) :: rest =>
    match a.insert pattern id with
    | (a, .ok ()) => insertAll a rest
    | (_, .error e) => .error e

/-- The automaton after all of the insertions, whether any is refused or not. -/
def insertEach (a : Automaton l) : List (List UInt8 × PatternId) → Automaton l
  | [] => a
  | (pattern, id) :: rest => insertEach (a.insert pattern id).1 rest

@[simp] theorem size_empty (caseless : Bool) : (empty caseless : Automaton l).size = 2 := rfl

@[simp] theorem insert_nil (a : Automaton l) (id : PatternId) : a.insert [] id = (a, .ok ()) := rfl

theorem insertEach_append (a : Automaton l) (words more : List (List UInt8 × PatternId)) :
    a.insertEach (words ++ more) = (a.insertEach words).insertEach more := by
  induction words generalizing a with
  | nil => rfl
  | cons w ws ih => exact ih _

theorem insertEach_eq_of_insertAll {a b : Automaton l} {words : List (List UInt8 × PatternId)}
    (h : a.insertAll words = .ok b) : a.insertEach words = b := by
  induction words generalizing a with
  | nil => cases h; rfl
  | cons w ws ih =>
    rcases hi : a.insert w.1 w.2 with ⟨a', res⟩
    cases res with
    | error e => simp [insertAll, hi] at h
    | ok u =>
      simp only [insertAll, hi] at h
      simpa [insertEach, hi] using ih h

@[simp] theorem size_setCell (a : Automaton l) (s : Slot) (c : Cell) :
    (a.setCell s c).size = a.size := by
  simp [setCell, size]

theorem plane_setCell (a : Automaton l) (s : Slot) (c : Cell) (n : UInt8) :
    (a.setCell s c).plane n =
      if s.plane = n ∧ n.toNat < a.size then (a.plane n).set s.symbol c else a.plane n := by
  simp only [plane, setCell, Array.getElem?_modify, size]
  by_cases h : s.plane = n
  · subst h
    by_cases hn : s.plane.toNat < a.planes.size
    · simp [hn]
    · simp [hn]
  · simp [h, UInt8.toNat_inj]

theorem cell_setCell (a : Automaton l) (s t : Slot) (c : Cell) :
    (a.setCell s c).cell t =
      if s = t ∧ s.plane.toNat < a.size ∧ s.symbol < l.width then c else a.cell t := by
  obtain ⟨p, i⟩ := s
  obtain ⟨q, j⟩ := t
  simp only [cell, plane_setCell, Slot.mk.injEq]
  by_cases h : p = q
  · subst h
    by_cases hp : p.toNat < a.size
    · simp [hp, Plane.get_set]
    · simp [hp]
  · simp [h]

end Automaton

end Winnow
