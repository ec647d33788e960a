import Winnow.OrdSet

/-!
# The bytes that can start a pattern

The set is held twice: as a table with a mark for every byte and as the ascending
list of the marked bytes. `find?` looks for the first byte of the set in a buffer.
For a set of up to three bytes it compares with each of them, and beyond that it
reads the table; both ways give the same place.
-/

namespace Winnow

def isMarked (table : Vector Bool 256) (b : UInt8) : Bool :=
  have : b.toNat < 256 := b.toNat_lt
  table[b.toNat]

structure StartBytes where
  table : Vector Bool 256
  bytes : OrdSet UInt8
  table_eq : ∀ b : UInt8, isMarked table b = true ↔ b ∈ bytes

namespace StartBytes

def empty : StartBytes := ⟨.replicate 256 false, ∅, by simp [isMarked]⟩

instance : Inhabited StartBytes := ⟨empty⟩

def contains (s : StartBytes) (b : UInt8) : Bool := isMarked s.table b

def size (s : StartBytes) : Nat := s.bytes.size

def isEmpty (s : StartBytes) : Bool := s.bytes.isEmpty

theorem contains_iff {s : StartBytes} {b : UInt8} : s.contains b ↔ b ∈ s.bytes := s.table_eq b

@[ext] theorem ext {s t : StartBytes} (h : s.bytes = t.bytes) : s = t := by
  obtain ⟨st, sb, hs⟩ := s
  obtain ⟨tt, tb, ht⟩ := t
  subst h
  have : st = tt := Vector.ext fun i hi => by
    have h := (hs (.ofNatLT i hi)).trans (ht (.ofNatLT i hi)).symm
    simp only [isMarked, UInt8.toNat_ofNatLT] at h
    exact Bool.eq_iff_iff.2 h
  subst this
  rfl

instance : DecidableEq StartBytes := fun s t =>
  decidable_of_iff (s.bytes = t.bytes) ⟨ext, fun h => h ▸ rfl⟩

def insert (s : StartBytes) (b : UInt8) : StartBytes where
  table := s.table.set b.toNat true b.toNat_lt
  bytes := s.bytes.insert b
  table_eq c := by
    simp only [isMarked, Vector.getElem_set, OrdSet.mem_insert, ← s.table_eq c]
    by_cases h : b.toNat = c.toNat
    · simp [h, UInt8.toNat_inj.1 h.symm]
    · have : c ≠ b := fun e => h (e ▸ rfl)
      simp [h, this]

@[simp] theorem bytes_insert (s : StartBytes) (b : UInt8) :
    (s.insert b).bytes = s.bytes.insert b := rfl

theorem insert_of_mem {s : StartBytes} {b : UInt8} (h : b ∈ s.bytes) : s.insert b = s :=
  ext (OrdSet.insert_of_mem h)

def find? (s : StartBytes) (buffer : List UInt8) : Option Nat :=
  match s.bytes.toList with
  | [] => none
  | [a] => buffer.findIdx? (· == a)
  | [a, b] => buffer.findIdx? fun x => x == a || x == b
  | [a, b, c] => buffer.findIdx? fun x => x == a || x == b || x == c
  | _ => buffer.findIdx? s.contains

theorem find?_eq (s : StartBytes) (buffer : List UInt8) :
    s.find? buffer = buffer.findIdx? (fun b => decide (b ∈ s.bytes.toList)) := by
  have h (b : UInt8) : s.contains b = decide (b ∈ s.bytes.toList) := by
    rw [Bool.eq_iff_iff, contains_iff, decide_eq_true_iff, OrdSet.mem_toList]
  unfold find?
  split <;> rename_i hb
  · symm; simp [hb]
  · simp [hb, Bool.beq_eq_decide_eq]
  · simp [hb, Bool.beq_eq_decide_eq, Bool.decide_or]
  · simp [hb, Bool.beq_eq_decide_eq, Bool.decide_or, Bool.or_assoc]
  · exact congrArg (buffer.findIdx? ·) (funext h)

theorem lt_of_find? {s : StartBytes} {buffer : List UInt8} {n : Nat}
    (h : s.find? buffer = some n) : n < buffer.length := by
  rw [find?_eq] at h
  exact (List.findIdx?_eq_some_iff_getElem.1 h).1

end StartBytes

end Winnow
