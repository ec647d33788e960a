/-!
# Finite sets kept in ascending order

A set is the list of its members, smallest first and each once, so two sets with
the same members are equal values. Sets of pattern numbers, of bytes and of
alternative spellings are all of this kind. The order is that of `compare`.
-/

namespace Winnow

variable {α : Type} [Ord α]

def Ascending (xs : List α) : Prop := xs.Pairwise fun a b => compare a b = .lt

structure OrdSet (α : Type) [Ord α] where
  toList : List α
  ascending : Ascending toList

namespace OrdSet

@[ext] theorem ext {s t : OrdSet α} (h : s.toList = t.toList) : s = t := by
  cases s; cases t; simp_all

instance [DecidableEq α] : DecidableEq (OrdSet α) := fun s t =>
  decidable_of_iff (s.toList = t.toList) ⟨ext, fun h => h ▸ rfl⟩

instance : Membership α (OrdSet α) := ⟨fun s a => a ∈ s.toList⟩

theorem mem_toList {s : OrdSet α} {a : α} : a ∈ s.toList ↔ a ∈ s := Iff.rfl

def empty : OrdSet α := ⟨[], .nil⟩

instance : EmptyCollection (OrdSet α) := ⟨empty⟩

instance : Inhabited (OrdSet α) := ⟨empty⟩

@[simp] theorem toList_empty : (∅ : OrdSet α).toList = [] := rfl

@[simp] theorem not_mem_empty (a : α) : a ∉ (∅ : OrdSet α) := List.not_mem_nil

def size (s : OrdSet α) : Nat := s.toList.length

def isEmpty (s : OrdSet α) : Bool := s.toList.isEmpty

@[simp] theorem isEmpty_iff {s : OrdSet α} : s.isEmpty ↔ s = ∅ := by
  simp only [isEmpty, List.isEmpty_iff]
  exact ⟨fun h => ext h, fun h => h ▸ rfl⟩

def contains [DecidableEq α] (s : OrdSet α) (a : α) : Bool := s.toList.contains a

theorem contains_iff [DecidableEq α] {s : OrdSet α} {a : α} : s.contains a ↔ a ∈ s := by
  simp [contains, mem_toList]

def place (a : α) : List α → List α
  | [] => [a]
  | b :: bs =>
    match compare a b with
    | .lt => a :: b :: bs
    | .eq => b :: bs
    | .gt => b :: place a bs

theorem mem_place [Std.LawfulEqOrd α] {a x : α} {bs : List α} :
    x ∈ place a bs ↔ x = a ∨ x ∈ bs := by
  induction bs with
  | nil => simp [place]
  | cons b bs ih =>
    simp only [place]
    split
    · simp
    · rename_i h
      simp [Std.LawfulEqOrd.eq_of_compare h]
    · simp [ih]; grind

theorem ascending_place [Std.TransOrd α] [Std.LawfulEqOrd α] {a : α} {bs : List α}
    (h : Ascending bs) : Ascending (place a bs) := by
  induction bs with
  | nil => simp [place, Ascending]
  | cons b bs ih =>
    obtain ⟨hb, hbs⟩ := List.pairwise_cons.1 h
    simp only [place]
    split
    · rename_i hab
      refine List.pairwise_cons.2 ⟨fun x hx => ?_, h⟩
      rcases List.mem_cons.1 hx with rfl | hx
      · exact hab
      · exact Std.TransCmp.lt_trans hab (hb x hx)
    · exact h
    · rename_i hab
      refine List.pairwise_cons.2 ⟨fun x hx => ?_, ih hbs⟩
      rcases mem_place.1 hx with rfl | hx
      · exact Std.OrientedCmp.lt_of_gt hab
      · exact hb x hx

theorem nodup [Std.LawfulEqOrd α] (s : OrdSet α) : s.toList.Nodup := by
  refine s.ascending.imp ?_
  rintro a b hab rfl
  simp at hab

section
variable [Std.TransOrd α] [Std.LawfulEqOrd α]

def insert (s : OrdSet α) (a : α) : OrdSet α := ⟨place a s.toList, ascending_place s.ascending⟩

@[simp] theorem mem_insert {s : OrdSet α} {a x : α} : x ∈ s.insert a ↔ x = a ∨ x ∈ s :=
  mem_place

def ofList (xs : List α) : OrdSet α := xs.foldl insert ∅

theorem mem_foldl_insert {xs : List α} {s : OrdSet α} {x : α} :
    x ∈ xs.foldl insert s ↔ x ∈ xs ∨ x ∈ s := by
  induction xs generalizing s with
  | nil => simp
  | cons a xs ih => simp [ih]; grind

@[simp] theorem mem_ofList {xs : List α} {x : α} : x ∈ ofList xs ↔ x ∈ xs := by
  simp [ofList, mem_foldl_insert]

theorem eq_of_mem_iff {s t : OrdSet α} (h : ∀ x, x ∈ s ↔ x ∈ t) : s = t := by
  have antisymm (a b : α) (_ : a ∈ s.toList) (_ : b ∈ t.toList) (hab : compare a b = .lt)
      (hba : compare b a = .lt) : a = b :=
    absurd (Std.TransCmp.lt_trans hab hba) (by simp)
  refine ext (List.Perm.eq_of_pairwise antisymm s.ascending t.ascending ?_)
  exact (List.perm_ext_iff_of_nodup s.nodup t.nodup).2 h

theorem insert_of_mem {s : OrdSet α} {a : α} (h : a ∈ s) : s.insert a = s := by
  refine eq_of_mem_iff fun x => ?_
  rw [mem_insert, or_iff_right_of_imp]
  rintro rfl
  exact h

end

def filter (p : α → Bool) (s : OrdSet α) : OrdSet α :=
  ⟨s.toList.filter p, s.ascending.filter p⟩

@[simp] theorem mem_filter {p : α → Bool} {s : OrdSet α} {x : α} :
    x ∈ s.filter p ↔ x ∈ s ∧ p x := List.mem_filter

end OrdSet

end Winnow
