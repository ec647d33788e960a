import Mathlib.Data.List.Lex
import Mathlib.Data.Prod.Lex
import Mathlib.Data.String.Basic
import Winnow.Tree.Path

/-!
# The order of paths

Parts of paths are ranked by their kind and then by their name, and paths are compared
as the lists of their ranks. This is a total order on what paths mean, so sorting gives
the same however the paths came.
-/

namespace Winnow.Path

def Part.rank (a : Part) : Nat ×ₗ String := toLex a.key

theorem Part.rank_injective : Function.Injective Part.rank := by
  intro a b h
  have hk : a.key = b.key := toLex.injective h
  cases a <;> cases b <;> simp_all [Part.key]

theorem Part.le_iff {a b : Part} : a.le b = true ↔ a.rank ≤ b.rank := by
  rw [Prod.Lex.le_iff]
  simp only [Part.le, Bool.or_eq_true, Bool.and_eq_true, decide_eq_true_eq, beq_iff_eq]
  rfl

theorem go_iff {as bs : List Part} :
    le.go as bs = true ↔ as.map Part.rank ≤ bs.map Part.rank := by
  induction as generalizing bs with
  | nil => simp [le.go, ← not_lt]
  | cons a as ih =>
    cases bs with
    | nil => simp [le.go, ← not_lt]
    | cons b bs =>
      rw [le.go, List.map_cons, List.map_cons, ← not_lt, List.cons_lt_cons_iff]
      by_cases hab : a = b
      · subst hab
        simp [ih]
      · have hr : b.rank ≠ a.rank := fun h => hab (Part.rank_injective h).symm
        simp [hab, hr, Part.le_iff]

theorem le_iff {p q : String} :
    le p q = true ↔ (meanings p).map Part.rank ≤ (meanings q).map Part.rank := go_iff

theorem le_trans {p q r : String} (hpq : le p q = true) (hqr : le q r = true) : le p r = true :=
  le_iff.2 ((le_iff.1 hpq).trans (le_iff.1 hqr))

theorem le_total (p q : String) : (le p q || le q p) = true := by
  rw [Bool.or_eq_true, le_iff, le_iff]
  exact LinearOrder.le_total _ _

theorem pairwise_sort (paths : List String) :
    (sort paths).Pairwise fun p q => le p q = true := by
  unfold sort
  apply List.pairwise_mergeSort
  · intro p q r hpq hqr
    exact Path.le_trans hpq hqr
  · exact Path.le_total

theorem sort_perm (paths : List String) : (sort paths).Perm paths := List.mergeSort_perm _ _

theorem map_meanings_sort {ps qs : List String} (h : ps.Perm qs) :
    (sort ps).map meanings = (sort qs).map meanings := by
  have hperm : (sort ps).Perm (sort qs) := (sort_perm ps).trans (h.trans (sort_perm qs).symm)
  have ranked (paths : List String) : ((sort paths).map meanings).Pairwise fun as bs =>
      as.map Part.rank ≤ bs.map Part.rank := by
    rw [List.pairwise_map]
    exact (pairwise_sort paths).imp le_iff.1
  refine List.Perm.eq_of_pairwise ?_ (ranked ps) (ranked qs) (hperm.map meanings)
  intro as bs _ _ hab hba
  exact Part.rank_injective.list_map (le_antisymm hab hba)

end Winnow.Path
