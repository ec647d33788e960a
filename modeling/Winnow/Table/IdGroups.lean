import Winnow.Error
import Winnow.OrdSet
import Winnow.PatternId

/-!
# Groups of pattern numbers

Each place where a pattern ends names a group, the numbers of all patterns that end
there. Groups are numbered from 1 in the order in which they are made; group 0 is
no group and holds nothing. A cell has 24 signed bits for the number of its group,
which bounds how many there can be.
-/

namespace Winnow

structure IdGroups where
  sets : Array (OrdSet PatternId)
  deriving DecidableEq

namespace IdGroups

def empty : IdGroups := ⟨#[]⟩

instance : Inhabited IdGroups := ⟨empty⟩

def size (g : IdGroups) : Nat := g.sets.size

def isEmpty (g : IdGroups) : Bool := g.sets.isEmpty

def get : IdGroups → Nat → OrdSet PatternId
  | _, 0 => ∅
  | g, n + 1 => g.sets[n]?.getD ∅

def maxNumber : Nat := 0x7fffff

def allocate (g : IdGroups) : Except Error (Nat × IdGroups) :=
  if g.size < maxNumber then .ok (g.size + 1, ⟨g.sets.push ∅⟩) else .error (.groupsFull maxNumber)

def insert (g : IdGroups) : Nat → PatternId → IdGroups
  | 0, _ => g
  | n + 1, id => ⟨g.sets.modify n (·.insert id)⟩

def toList (g : IdGroups) : List (Nat × OrdSet PatternId) :=
  (List.range g.size).map fun n => (n + 1, g.get (n + 1))

@[simp] theorem size_empty : empty.size = 0 := rfl

@[simp] theorem get_zero (g : IdGroups) : g.get 0 = ∅ := rfl

@[simp] theorem size_insert (g : IdGroups) (n : Nat) (id : PatternId) :
    (g.insert n id).size = g.size := by
  cases n <;> simp [insert, size]

theorem get_of_size_lt (g : IdGroups) {n : Nat} (h : g.size < n) : g.get n = ∅ := by
  cases n with
  | zero => rfl
  | succ n =>
    have : g.sets[n]? = none := Array.getElem?_eq_none (by simpa [size] using Nat.le_of_lt_succ h)
    simp [get, this]

theorem get_insert (g : IdGroups) (n m : Nat) (id : PatternId) :
    (g.insert n id).get m =
      if n = m ∧ 0 < n ∧ n ≤ g.size then (g.get m).insert id else g.get m := by
  cases n with
  | zero => simp [insert]
  | succ n =>
    cases m with
    | zero => simp
    | succ m =>
      simp only [insert, get, Array.getElem?_modify, size]
      by_cases h : n = m
      · subst h
        by_cases hn : n < g.sets.size
        · simp [hn, Nat.succ_le_of_lt hn]
        · simp [hn, Nat.not_le.2 (Nat.lt_succ_of_le (Nat.le_of_not_lt hn))]
      · simp [h]

theorem get_allocate {g g' : IdGroups} {n : Nat} (h : g.allocate = .ok (n, g')) (m : Nat) :
    g'.get m = g.get m := by
  unfold allocate at h
  split at h
  · injection h with h
    injection h with _ h
    subst h
    cases m with
    | zero => rfl
    | succ m => simp only [get, Array.getElem?_push]; split <;> simp_all
  · cases h

end IdGroups

end Winnow
