import Mathlib.Data.Finset.Card
import Mathlib.Order.Bounds.Basic
import Winnow.Table.StartBytes

/-!
# What a set of bytes finds

A set holds the bytes that were put into it, each once, and it makes no difference to a search
how many they are. Sets of up to three bytes are searched for by routines of their own, of which
nothing is used but that each finds the first place of its bytes; a larger set is searched for by
the marks in its table.
-/

namespace Winnow

/-- Where the first of some bytes stands in a buffer, if one of them does. -/
inductive FirstPlace (bytes buffer : List UInt8) : Option Nat → Prop
  | found {n : Nat} (h : IsLeast {i | ∃ b ∈ bytes, buffer[i]? = some b} n) :
      FirstPlace bytes buffer (some n)
  | absent (h : ∀ b ∈ buffer, b ∉ bytes) : FirstPlace bytes buffer none

/-- Routines that look for one byte, for either of two and for any of three. -/
structure ByteSearch where
  one (a : UInt8) (buffer : List UInt8) : Option Nat
  two (a b : UInt8) (buffer : List UInt8) : Option Nat
  three (a b c : UInt8) (buffer : List UInt8) : Option Nat

namespace ByteSearch

structure Sound (r : ByteSearch) : Prop where
  one (a : UInt8) (buffer : List UInt8) : FirstPlace [a] buffer (r.one a buffer)
  two (a b : UInt8) (buffer : List UInt8) : FirstPlace [a, b] buffer (r.two a b buffer)
  three (a b c : UInt8) (buffer : List UInt8) : FirstPlace [a, b, c] buffer (r.three a b c buffer)

def comparing : ByteSearch where
  one a buffer := buffer.findIdx? (· == a)
  two a b buffer := buffer.findIdx? fun x => x == a || x == b
  three a b c buffer := buffer.findIdx? fun x => x == a || x == b || x == c

end ByteSearch

variable {xs ys buffer : List UInt8} {m n : Option Nat}

section FirstPlace

theorem FirstPlace.congr (hmem : ∀ b, b ∈ xs ↔ b ∈ ys) (h : FirstPlace xs buffer n) :
    FirstPlace ys buffer n := by
  cases h with
  | found h =>
    simp only [hmem] at h
    exact .found h
  | absent h =>
    simp only [hmem] at h
    exact .absent h

theorem FirstPlace.unique (h : FirstPlace xs buffer m) (h' : FirstPlace xs buffer n) : m = n := by
  cases h with
  | found h =>
    cases h' with
    | found h' => exact congrArg some (h.unique h')
    | absent h' =>
      obtain ⟨b, hb, hat⟩ := h.1
      exact absurd hb (h' b (List.mem_of_getElem? hat))
  | absent h =>
    cases h' with
    | found h' =>
      obtain ⟨b, hb, hat⟩ := h'.1
      exact absurd hb (h b (List.mem_of_getElem? hat))
    | absent => rfl

theorem firstPlace_findIdx? {test : UInt8 → Bool} (htest : ∀ b, test b = true ↔ b ∈ xs)
    (buffer : List UInt8) : FirstPlace xs buffer (buffer.findIdx? test) := by
  cases hfind : buffer.findIdx? test with
  | none =>
    rw [List.findIdx?_eq_none_iff] at hfind
    refine .absent fun b hb hmem => ?_
    exact Bool.false_ne_true ((hfind b hb).symm.trans ((htest b).2 hmem))
  | some n =>
    obtain ⟨hn, hpass, hfirst⟩ := List.findIdx?_eq_some_iff_getElem.1 hfind
    refine .found ⟨⟨_, (htest _).1 hpass, List.getElem?_eq_getElem hn⟩, ?_⟩
    intro i hi
    obtain ⟨b, hb, hat⟩ := hi
    obtain ⟨hlt, rfl⟩ := List.getElem?_eq_some_iff.1 hat
    by_contra hin
    exact hfirst i (Nat.lt_of_not_le hin) ((htest _).2 hb)

theorem ByteSearch.comparing_sound : comparing.Sound where
  one a buffer := firstPlace_findIdx? (by simp) buffer
  two a b buffer := firstPlace_findIdx? (by simp) buffer
  three a b c buffer := firstPlace_findIdx? (by simp [or_assoc]) buffer

end FirstPlace

namespace StartBytes

def ofList (xs : List UInt8) : StartBytes := xs.foldl insert empty

/-- A byte that is not marked yet is marked, put at the end of the list, and the list sorted. -/
def markAndSort (kept : Vector Bool 256 × List UInt8) (b : UInt8) :
    Vector Bool 256 × List UInt8 :=
  if isMarked kept.1 b then kept
  else (kept.1.set b.toNat true b.toNat_lt, (kept.2 ++ [b]).mergeSort)

def findWith (r : ByteSearch) (s : StartBytes) (buffer : List UInt8) : Option Nat :=
  match s.bytes.toList with
  | [] => none
  | [a] => r.one a buffer
  | [a, b] => r.two a b buffer
  | [a, b, c] => r.three a b c buffer
  | _ => buffer.findIdx? s.contains

theorem find?_eq_findWith (s : StartBytes) (buffer : List UInt8) :
    s.find? buffer = s.findWith .comparing buffer := rfl

theorem firstPlace_findWith {r : ByteSearch} (hr : r.Sound) (s : StartBytes)
    (buffer : List UInt8) : FirstPlace s.bytes.toList buffer (s.findWith r buffer) := by
  -- no byte, one, two, three, and more than three
  unfold findWith
  split <;> rename_i hbytes
  · rw [hbytes]
    exact .absent fun b _ => List.not_mem_nil
  · rw [hbytes]
    exact hr.one _ buffer
  · rw [hbytes]
    exact hr.two _ _ buffer
  · rw [hbytes]
    exact hr.three _ _ _ buffer
  · exact firstPlace_findIdx? (fun b => contains_iff) buffer

theorem pairwise_lt (s : StartBytes) : s.bytes.toList.Pairwise (· < ·) :=
  s.bytes.ascending.imp Std.compare_eq_lt.1

theorem toList_insert_eq_mergeSort {s : StartBytes} {b : UInt8} (hb : b ∉ s.bytes) :
    (s.insert b).bytes.toList = (s.bytes.toList ++ [b]).mergeSort := by
  have hsorted : (s.bytes.toList ++ [b]).mergeSort.Pairwise (· ≤ ·) := by
    have htrans (x y z : UInt8) (hxy : decide (x ≤ y) = true) (hyz : decide (y ≤ z) = true) :
        decide (x ≤ z) = true :=
      decide_eq_true (UInt8.le_trans (of_decide_eq_true hxy) (of_decide_eq_true hyz))
    have htotal (x y : UInt8) : (decide (x ≤ y) || decide (y ≤ x)) = true := by
      simpa using UInt8.le_total x y
    exact (List.pairwise_mergeSort htrans htotal _).imp of_decide_eq_true
  have hnodup : (s.bytes.toList ++ [b]).Nodup := by
    rw [List.nodup_append_comm]
    exact List.nodup_cons.2 ⟨hb, s.bytes.nodup⟩
  have hperm : (s.insert b).bytes.toList.Perm (s.bytes.toList ++ [b]) := by
    refine (List.perm_ext_iff_of_nodup (s.insert b).bytes.nodup hnodup).2 fun x => ?_
    rw [OrdSet.mem_toList, bytes_insert, OrdSet.mem_insert, List.mem_append, List.mem_singleton,
      or_comm]
    rfl
  exact (hperm.trans (List.mergeSort_perm _ _).symm).eq_of_pairwise
    (fun _ _ _ _ => UInt8.le_antisymm) ((s.insert b).pairwise_lt.imp UInt8.le_of_lt) hsorted

theorem insert_eq_markAndSort (s : StartBytes) (b : UInt8) :
    ((s.insert b).table, (s.insert b).bytes.toList) = markAndSort (s.table, s.bytes.toList) b := by
  rw [markAndSort]
  split
  · rename_i hb
    rw [insert_of_mem ((s.table_eq b).1 hb)]
  · rename_i hb
    rw [toList_insert_eq_mergeSort (mt (s.table_eq b).2 hb)]
    rfl

theorem ofList_eq_markAndSort (xs : List UInt8) :
    ((ofList xs).table, (ofList xs).bytes.toList) =
      xs.foldl markAndSort (.replicate 256 false, []) :=
  (List.foldl_hom (fun s : StartBytes => (s.table, s.bytes.toList)) fun s b =>
    (insert_eq_markAndSort s b).symm).symm

theorem bytes_ofList (xs : List UInt8) : (ofList xs).bytes = .ofList xs :=
  (List.foldl_hom bytes fun _ _ => rfl).symm

theorem mem_toList_ofList (xs : List UInt8) (b : UInt8) :
    b ∈ (ofList xs).bytes.toList ↔ b ∈ xs := by
  rw [bytes_ofList, OrdSet.mem_toList, OrdSet.mem_ofList]

theorem size_ofList (xs : List UInt8) : (ofList xs).size = xs.toFinset.card := by
  have hmem : (ofList xs).bytes.toList.toFinset = xs.toFinset := by
    ext b
    rw [List.mem_toFinset, List.mem_toFinset, mem_toList_ofList]
  rw [← hmem, List.toFinset_card_of_nodup (ofList xs).bytes.nodup]
  rfl

theorem contains_ofList (xs : List UInt8) (b : UInt8) :
    (ofList xs).contains b = true ↔ b ∈ xs := by
  rw [contains_iff, ← OrdSet.mem_toList, mem_toList_ofList]

theorem firstPlace_findWith_ofList {r : ByteSearch} (hr : r.Sound) (xs buffer : List UInt8) :
    FirstPlace xs buffer ((ofList xs).findWith r buffer) :=
  (firstPlace_findWith hr _ buffer).congr (mem_toList_ofList xs)

/-- Table and list are what marking, adding and sorting make of the bytes one by one. The bytes
that were put in are those of the set, in ascending order and each once, and the table marks
these and no others. A search finds the first place in the buffer with one of them.
It is the search by the table, whatever the size of the set, and it comes to the same with any
other routines that find first places. -/
theorem ofList_finds_first (xs : List UInt8) :
    ((ofList xs).table, (ofList xs).bytes.toList) =
      xs.foldl markAndSort (.replicate 256 false, []) ∧
    (ofList xs).bytes.toList.Pairwise (· < ·) ∧
    (∀ b, b ∈ (ofList xs).bytes.toList ↔ b ∈ xs) ∧
    (∀ b, (ofList xs).contains b = true ↔ b ∈ xs) ∧
    (ofList xs).size = xs.toFinset.card ∧
    (∀ buffer, FirstPlace xs buffer ((ofList xs).find? buffer)) ∧
    (∀ buffer, (ofList xs).find? buffer = buffer.findIdx? (ofList xs).contains) ∧
    ∀ r : ByteSearch, r.Sound → ∀ buffer,
      (ofList xs).findWith r buffer = (ofList xs).find? buffer := by
  have hfind (buffer : List UInt8) : FirstPlace xs buffer ((ofList xs).find? buffer) := by
    rw [find?_eq_findWith]
    exact firstPlace_findWith_ofList ByteSearch.comparing_sound xs buffer
  refine ⟨ofList_eq_markAndSort xs, pairwise_lt _, mem_toList_ofList xs, contains_ofList xs,
    size_ofList xs, hfind, ?_, ?_⟩
  · intro buffer
    exact (hfind buffer).unique (firstPlace_findIdx? (contains_ofList xs) buffer)
  · intro r hr buffer
    exact (firstPlace_findWith_ofList hr xs buffer).unique (hfind buffer)

theorem ofList_finds_first_of_three_bytes :
    ByteSearch.comparing.Sound ∧ (ofList [113, 32, 113, 0]).bytes.toList = [0, 32, 113] ∧
      (ofList [113, 32, 113, 0]).findWith .comparing [97, 113, 32] = some 1 ∧
      (ofList [113, 32, 113, 0, 97]).findWith .comparing [97, 113, 32] = some 0 := by
  have hsound := ByteSearch.comparing_sound
  have hthree := (ofList_finds_first [113, 32, 113, 0]).2.2.2.2.2.2.2 _ hsound
  have hfour := (ofList_finds_first [113, 32, 113, 0, 97]).2.2.2.2.2.2.2 _ hsound
  refine ⟨hsound, by decide, ?_, ?_⟩
  · rw [hthree]
    decide
  · rw [hfour]
    decide

end StartBytes

end Winnow
