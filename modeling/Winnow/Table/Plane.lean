import Winnow.Table.Cell

/-!
# Planes of cells

A plane is one row of the table: a cell for every symbol. A symbol is a whole byte
or half of one, as the layout says. Reading outside the plane gives the empty cell
and writing there changes nothing, so a plane is a function of its symbols:
`get_set` says all there is to say about it.
-/

namespace Winnow

inductive Layout where
  | byte
  | nibble
  deriving DecidableEq, Inhabited, Repr

namespace Layout

def width : Layout → Nat
  | byte => 256
  | nibble => 16

def mask (l : Layout) : Nat := l.width - 1

def isNibble : Layout → Bool
  | byte => false
  | nibble => true

end Layout

structure Plane (l : Layout) where
  cells : Vector Cell l.width
  deriving DecidableEq

namespace Plane

variable {l : Layout}

def blank : Plane l := ⟨.replicate l.width .empty⟩

instance : Inhabited (Plane l) := ⟨blank⟩

def get (p : Plane l) (symbol : Nat) : Cell := p.cells[symbol]?.getD .empty

def set (p : Plane l) (symbol : Nat) (c : Cell) : Plane l := ⟨p.cells.setIfInBounds symbol c⟩

def isBlank (p : Plane l) : Bool := p.cells.all (·.word == 0)

def live (p : Plane l) : List (Nat × Cell) :=
  (List.range l.width).filterMap fun symbol =>
    let c := p.get symbol
    if c.word == 0 then none else some (symbol, c)

theorem ext_get {p q : Plane l} (h : ∀ i, p.get i = q.get i) : p = q := by
  obtain ⟨cells⟩ := p
  obtain ⟨cells'⟩ := q
  refine congrArg mk (Vector.ext fun i hi => ?_)
  have hc := h i
  rw [get, get, Vector.getElem?_eq_getElem hi, Vector.getElem?_eq_getElem hi] at hc
  exact hc

@[simp] theorem get_blank (symbol : Nat) : (blank : Plane l).get symbol = .empty := by
  simp only [get, blank]
  cases h : (Vector.replicate l.width Cell.empty)[symbol]? with
  | none => rfl
  | some c => simp [Vector.getElem?_replicate] at h; simp [h.2]

theorem get_set (p : Plane l) (i j : Nat) (c : Cell) :
    (p.set i c).get j = if i = j ∧ i < l.width then c else p.get j := by
  simp only [get, set, Vector.getElem?_setIfInBounds]
  by_cases h : i = j
  · by_cases hw : i < l.width
    · simp_all
    · subst h
      simp [hw]
  · simp [h]

@[simp] theorem get_set_self (p : Plane l) {i : Nat} (h : i < l.width) (c : Cell) :
    (p.set i c).get i = c := by
  simp [get_set, h]

end Plane

end Winnow
