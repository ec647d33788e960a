import Mathlib.Data.List.SplitBy
import Mathlib.Data.Set.Card
import Winnow.Proofs.Alternatives

/-!
# How many slips there are

A slip leaves a character out, writes it twice, or swaps it with a different neighbour.
Wherever it is made in a run of equal characters, a slip of the first two kinds gives the
same spelling, and characters are swapped only where one run meets the next. So a phrase of
`r` runs has `3 * r - 1` slips, although the generator makes nearly three for each character.
-/

namespace Winnow

theorem OrdSet.encard_eq_size {α : Type} [Ord α] [Std.LawfulEqOrd α] (s : OrdSet α) :
    {a | a ∈ s}.encard = s.size := by
  classical
  have hset : {a | a ∈ s} = (s.toList.toFinset : Set α) := (List.coe_toFinset s.toList).symm
  rw [hset, Set.encard_coe_eq_coe_finsetCard, List.toFinset_card_of_nodup s.nodup]
  rfl

namespace Variant

variable {c d : Char} {cs ds : List Char}

def runs (cs : List Char) : List (List Char) := cs.splitBy (· == ·)

theorem length_splitBy_loop (c : Char) (cs u : List Char) (rs : List (List Char)) :
    (List.splitBy.loop (· == ·) cs c u rs).length =
      rs.length + (List.splitBy.loop (· == ·) cs c [] []).length := by
  induction cs generalizing c u rs with
  | nil => simp [List.splitBy.loop]
  | cons d cs ih =>
    simp only [List.splitBy.loop]
    split
    · rw [ih, ih d [c]]
      simp
    · rw [ih, ih d [] [_]]
      simp [Nat.add_assoc]

theorem length_runs_cons (c d : Char) (cs : List Char) :
    (runs (c :: d :: cs)).length = (runs (d :: cs)).length + if c = d then 0 else 1 := by
  have hruns : (runs (c :: d :: cs)).length =
      (List.splitBy.loop (· == ·) (d :: cs) c [] []).length := rfl
  have htail : (runs (d :: cs)).length = (List.splitBy.loop (· == ·) cs d [] []).length := rfl
  rw [hruns, htail, List.splitBy.loop]
  by_cases h : c = d
  · rw [beq_iff_eq.2 h, if_pos h, length_splitBy_loop, List.length_nil, Nat.zero_add, Nat.add_zero]
  · rw [beq_eq_false_iff_ne.2 h, if_neg h, length_splitBy_loop, Nat.add_comm]
    rfl

theorem length_runs_pos (c : Char) (cs : List Char) : 0 < (runs (c :: cs)).length := by
  apply List.length_pos_of_ne_nil
  exact List.splitBy_ne_nil.2 (List.cons_ne_nil c cs)

/-- What a phrase becomes when one of its characters is written `k` times in its place. -/
def repeated (k : Nat) (cs : List Char) : Set (List Char) :=
  {ds | ∃ u c v, cs = u ++ c :: v ∧ ds = u ++ List.replicate k c ++ v}

def omissions (cs : List Char) : Set (List Char) := repeated 0 cs

def doublings (cs : List Char) : Set (List Char) := repeated 2 cs

def swaps (cs : List Char) : Set (List Char) :=
  {ds | ∃ u c d v, c ≠ d ∧ cs = u ++ c :: d :: v ∧ ds = u ++ d :: c :: v}

section Generator

theorem exists_split {i : Nat} (h : i < cs.length) : ∃ u c v, cs = u ++ c :: v ∧ u.length = i := by
  refine ⟨cs.take i, cs[i], cs.drop (i + 1), ?_, ?_⟩
  · rw [← List.drop_eq_getElem_cons h, List.take_append_drop]
  · rw [List.length_take, Nat.min_eq_left (Nat.le_of_lt h)]

theorem mem_repeated {k : Nat} {edit : List Char → Nat → List Char}
    (hedit : ∀ u c v, edit (u ++ c :: v) u.length = u ++ List.replicate k c ++ v) :
    ds ∈ repeated k cs ↔ ∃ i < cs.length, ds = edit cs i := by
  constructor
  · intro h
    obtain ⟨u, c, v, hcs, hds⟩ := h
    refine ⟨u.length, by simp [hcs], ?_⟩
    rw [hcs, hedit, hds]
  · intro h
    obtain ⟨i, hi, hds⟩ := h
    obtain ⟨u, c, v, hcs, rfl⟩ := exists_split hi
    refine ⟨u, c, v, hcs, ?_⟩
    rw [hds, hcs, hedit]

theorem mem_omissions : ds ∈ omissions cs ↔ ∃ i < cs.length, ds = without cs i := by
  apply mem_repeated
  intro u c v
  rw [without, List.eraseIdx_append_of_length_le (Nat.le_refl _), Nat.sub_self]
  simp

theorem mem_doublings : ds ∈ doublings cs ↔ ∃ i < cs.length, ds = doubled cs i := by
  apply mem_repeated
  intro u c v
  rw [doubled, List.take_length_add_append, List.drop_left]
  simp [List.replicate_succ]

theorem swapped_append (u : List Char) (c d : Char) (v : List Char) :
    swapped (u ++ c :: d :: v) u.length = u ++ d :: c :: v := by
  induction u with
  | nil => rfl
  | cons b u ih => rw [List.cons_append, List.length_cons, swapped, ih, List.cons_append]

/-- Where the neighbours are equal the generator writes the phrase again. -/
theorem mem_swaps : ds ∈ swaps cs ↔ ds ≠ cs ∧ ∃ i, i + 1 < cs.length ∧ ds = swapped cs i := by
  constructor
  · intro h
    obtain ⟨u, c, d, v, hne, hcs, hds⟩ := h
    refine ⟨?_, u.length, by simp [hcs], ?_⟩
    · rw [hcs, hds]
      simp [Ne.symm hne]
    · rw [hcs, swapped_append, hds]
  · intro h
    obtain ⟨hsame, i, hi, hds⟩ := h
    obtain ⟨u, c, w, hcs, rfl⟩ := exists_split (Nat.lt_of_succ_lt hi)
    have hw : w ≠ [] := by
      intro hnil
      simp [hcs, hnil] at hi
    obtain ⟨d, v, rfl⟩ := List.exists_cons_of_ne_nil hw
    rw [hcs, swapped_append] at hds
    refine ⟨u, c, d, v, ?_, hcs, hds⟩
    intro hcd
    rw [hds, hcs, hcd] at hsame
    exact hsame rfl

theorem mem_slips (hcs : minSlipChars ≤ cs.length) (hne : ds ≠ cs) :
    ds ∈ slips cs ↔ ds ∈ omissions cs ∪ doublings cs ∪ swaps cs := by
  rw [slips, if_neg (Nat.not_lt.2 hcs), List.mem_flatMap]
  simp only [Set.mem_union, mem_omissions, mem_doublings, mem_swaps, List.mem_range]
  constructor
  · intro h
    obtain ⟨i, hi, h⟩ := h
    -- the first character has no neighbour before it to be swapped with
    cases i with
    | zero =>
      simp only [slipsAt, List.mem_cons, List.not_mem_nil, or_false] at h
      obtain h | h := h
      · exact Or.inl (Or.inl ⟨0, hi, h⟩)
      · exact Or.inl (Or.inr ⟨0, hi, h⟩)
    | succ i =>
      simp only [slipsAt, List.mem_cons, List.not_mem_nil, or_false] at h
      obtain h | h | h := h
      · exact Or.inl (Or.inl ⟨i + 1, hi, h⟩)
      · exact Or.inl (Or.inr ⟨i + 1, hi, h⟩)
      · exact Or.inr ⟨hne, i, hi, h⟩
  · intro h
    obtain (⟨i, hi, h⟩ | ⟨i, hi, h⟩) | ⟨-, i, hi, h⟩ := h
    · refine ⟨i, hi, ?_⟩
      cases i <;> simp [slipsAt, h]
    · refine ⟨i, hi, ?_⟩
      cases i <;> simp [slipsAt, h]
    · exact ⟨i + 1, hi, by simp [slipsAt, h]⟩

end Generator

section Counting

variable {k : Nat}

theorem repeated_nil (k : Nat) : repeated k [] = ∅ := by simp [repeated]

theorem repeated_cons (k : Nat) (c : Char) (cs : List Char) :
    repeated k (c :: cs) = insert (List.replicate k c ++ cs) ((c :: ·) '' repeated k cs) := by
  ext ds
  constructor
  · intro h
    obtain ⟨u, x, v, h, hds⟩ := h
    cases u with
    | nil =>
      cases h
      exact Or.inl hds
    | cons b u =>
      cases h
      exact Or.inr ⟨u ++ List.replicate k x ++ v, ⟨u, x, v, rfl, rfl⟩, hds.symm⟩
  · intro h
    obtain rfl | ⟨es, ⟨u, x, v, rfl, rfl⟩, rfl⟩ := h
    · exact ⟨[], c, cs, rfl, rfl⟩
    · exact ⟨c :: u, x, v, rfl, rfl⟩

theorem replicate_mem_repeated (k : Nat) (c : Char) (cs : List Char) :
    List.replicate k c ++ cs ∈ repeated k (c :: cs) :=
  ⟨[], c, cs, rfl, rfl⟩

theorem head?_of_mem_repeated (h : ds ∈ repeated (k + 1) (c :: cs)) : ds.head? = some c := by
  rw [repeated_cons] at h
  obtain rfl | ⟨es, -, rfl⟩ := h
  · rfl
  · rfl

theorem mem_swaps_cons : ds ∈ swaps (c :: d :: cs) ↔
    c ≠ d ∧ ds = d :: c :: cs ∨ ds ∈ (c :: ·) '' swaps (d :: cs) := by
  constructor
  · intro h
    obtain ⟨u, x, y, v, hxy, h, hds⟩ := h
    cases u with
    | nil =>
      cases h
      exact Or.inl ⟨hxy, hds⟩
    | cons b u =>
      obtain ⟨rfl, htail⟩ := List.cons.inj h
      exact Or.inr ⟨u ++ y :: x :: v, ⟨u, x, y, v, hxy, htail, rfl⟩, hds.symm⟩
  · intro h
    obtain ⟨hcd, rfl⟩ | ⟨es, ⟨u, x, y, v, hxy, htail, rfl⟩, rfl⟩ := h
    · exact ⟨[], c, d, cs, hcd, rfl, rfl⟩
    · exact ⟨c :: u, x, y, v, hxy, congrArg (c :: ·) htail, rfl⟩

theorem swaps_singleton (c : Char) : swaps [c] = ∅ := by
  apply Set.eq_empty_of_forall_notMem
  intro ds hds
  obtain ⟨u, x, y, v, -, h, -⟩ := hds
  have hlength := congrArg List.length h
  simp only [List.length_append, List.length_cons, List.length_nil] at hlength
  omega

/-- A set of spellings that has a new one where a run begins, and otherwise only those of the
rest of the phrase, is counted by the runs. -/
theorem encard_eq_runs (slips : List Char → Set (List Char)) {n : ℕ∞}
    (last : ∀ c, (slips [c]).encard = n)
    (within : ∀ c cs, slips (c :: c :: cs) = (c :: ·) '' slips (c :: cs))
    (between : ∀ c d cs, c ≠ d → ∃ new ∉ (c :: ·) '' slips (d :: cs),
      slips (c :: d :: cs) = insert new ((c :: ·) '' slips (d :: cs)))
    (c : Char) (cs : List Char) :
    (slips (c :: cs)).encard = n + ((runs (c :: cs)).length - 1 : ℕ) := by
  induction cs generalizing c with
  | nil => simp [last, runs, List.splitBy, List.splitBy.loop]
  | cons d cs ih =>
    have hinj : Function.Injective (c :: · : List Char → List Char) := List.cons_injective
    have hpos := length_runs_pos d cs
    rw [length_runs_cons]
    by_cases h : c = d
    · subst h
      rw [within, hinj.encard_image, ih, if_pos rfl, Nat.add_zero]
    · obtain ⟨new, hnew, heq⟩ := between c d cs h
      have hsub : (runs (d :: cs)).length + 1 - 1 = (runs (d :: cs)).length - 1 + 1 := by omega
      rw [heq, Set.encard_insert_of_notMem hnew, hinj.encard_image, ih, if_neg h, hsub,
        Nat.cast_add, Nat.cast_one, add_assoc]

theorem encard_repeated (hk : k ≠ 1) (cs : List Char) : (repeated k cs).encard = (runs cs).length := by
  cases cs with
  | nil => simp [repeated_nil, runs]
  | cons c cs =>
    have hpos := length_runs_pos c cs
    have hone : (runs (c :: cs)).length = 1 + ((runs (c :: cs)).length - 1) := by omega
    rw [hone, Nat.cast_add, Nat.cast_one]
    apply encard_eq_runs (repeated k)
    · intro c
      simp [repeated_cons, repeated_nil]
    · intro c cs
      -- the first of two equal characters gives what the second gives
      rw [repeated_cons k c (c :: cs)]
      apply Set.insert_eq_of_mem
      refine ⟨List.replicate k c ++ cs, replicate_mem_repeated k c cs, ?_⟩
      change List.replicate (k + 1) c ++ cs = _
      rw [List.replicate_succ', List.append_assoc]
      rfl
    · intro c d cs hne
      refine ⟨List.replicate k c ++ d :: cs, ?_, repeated_cons k c (d :: cs)⟩
      intro h
      obtain ⟨es, hes, he⟩ := h
      match k with
      | 0 => exact hne (List.cons.inj he).1
      | k + 2 =>
        have hhead := head?_of_mem_repeated hes
        rw [(List.cons.inj he).2] at hhead
        exact hne (Option.some.inj hhead)

theorem encard_swaps (c : Char) (cs : List Char) :
    (swaps (c :: cs)).encard = ((runs (c :: cs)).length - 1 : ℕ) := by
  rw [← zero_add (Nat.cast _)]
  apply encard_eq_runs swaps
  · intro c
    rw [swaps_singleton, Set.encard_empty]
  · intro c cs
    ext ds
    rw [mem_swaps_cons, or_iff_right (fun h => h.1 rfl)]
  · intro c d cs hne
    refine ⟨d :: c :: cs, ?_, ?_⟩
    · intro h
      obtain ⟨es, -, he⟩ := h
      exact hne (List.cons.inj he).1
    · ext ds
      rw [mem_swaps_cons, Set.mem_insert_iff, and_iff_right hne]

theorem length_of_mem_repeated (h : ds ∈ repeated k cs) : ds.length + 1 = cs.length + k := by
  obtain ⟨u, c, v, rfl, rfl⟩ := h
  simp only [List.length_append, List.length_cons, List.length_replicate]
  omega

theorem length_of_mem_swaps (h : ds ∈ swaps cs) : ds.length = cs.length := by
  obtain ⟨u, c, d, v, -, rfl, rfl⟩ := h
  simp

theorem encard_slips (c : Char) (cs : List Char) :
    let r := (runs (c :: cs)).length
    (omissions (c :: cs) ∪ doublings (c :: cs) ∪ swaps (c :: cs)).encard = (3 * r - 1 : ℕ) := by
  intro r
  have hr : 0 < r := length_runs_pos c cs
  have hdisj : Disjoint (omissions (c :: cs)) (doublings (c :: cs)) := by
    apply Set.disjoint_left.2
    intro ds h1 h2
    have hlength1 := length_of_mem_repeated h1
    have hlength2 := length_of_mem_repeated h2
    omega
  have hdisj' : Disjoint (omissions (c :: cs) ∪ doublings (c :: cs)) (swaps (c :: cs)) := by
    apply Set.disjoint_left.2
    intro ds h1 h2
    have hlength2 := length_of_mem_swaps h2
    obtain h1 | h1 := h1
    · have hlength1 := length_of_mem_repeated h1
      omega
    · have hlength1 := length_of_mem_repeated h1
      omega
  have hsum : r + r + (r - 1) = 3 * r - 1 := by omega
  rw [Set.encard_union_eq hdisj', Set.encard_union_eq hdisj, omissions, doublings,
    encard_repeated (by decide), encard_repeated (by decide), encard_swaps, ← hsum, Nat.cast_add,
    Nat.cast_add]

theorem ne_of_mem_slips (h : ds ∈ omissions cs ∪ doublings cs ∪ swaps cs) : ds ≠ cs := by
  intro he
  subst he
  obtain (h | h) | h := h
  · have hlength := length_of_mem_repeated h
    omega
  · have hlength := length_of_mem_repeated h
    omega
  · exact (mem_swaps.1 h).1 rfl

theorem length_le_of_mem_slips (h : ds ∈ omissions cs ∪ doublings cs ∪ swaps cs) :
    cs.length ≤ ds.length + 1 := by
  obtain (h | h) | h := h
  · have hlength := length_of_mem_repeated h
    omega
  · have hlength := length_of_mem_repeated h
    omega
  · have hlength := length_of_mem_swaps h
    omega

end Counting

theorem alternatives_levenshtein_of_short {phrase : String} (h : phrase.length < minSlipChars) :
    alternatives [.levenshtein] phrase = .ok ∅ := by
  rw [alternatives_singleton (v := .levenshtein) rfl, slips, String.length_toList, if_pos h]
  rfl

theorem kept_of_mem_slips {phrase s : String} (h : minSlipChars ≤ phrase.length)
    (hs : s.toList ∈ omissions phrase.toList ∪ doublings phrase.toList ∪ swaps phrase.toList) :
    s ≠ phrase ∧ minPatternBytes ≤ s.utf8ByteSize := by
  constructor
  · exact mt (congrArg String.toList) (ne_of_mem_slips hs)
  · have hchars := length_le_of_mem_slips hs
    have hbytes := length_le_utf8ByteSize s
    rw [String.length_toList] at hchars
    unfold minSlipChars at h
    unfold minPatternBytes
    omega

theorem exists_alternatives_levenshtein {phrase : String} (h : minSlipChars ≤ phrase.length) :
    ∃ others, alternatives [.levenshtein] phrase = .ok others ∧ ∀ s, s ∈ others ↔
      s.toList ∈ omissions phrase.toList ∪ doublings phrase.toList ∪ swaps phrase.toList := by
  obtain ⟨others, he, hmem⟩ := exists_alternatives_singleton
    (show levenshtein.spellings phrase.toList = .ok (slips phrase.toList) from rfl)
  refine ⟨others, he, fun s => ?_⟩
  have hlength : minSlipChars ≤ phrase.toList.length := by rwa [String.length_toList]
  rw [hmem]
  constructor
  · intro hs
    obtain ⟨hds, -, hne⟩ := hs
    apply (mem_slips hlength ?_).1 hds
    intro he
    exact hne (String.toList_injective he)
  · intro hs
    obtain ⟨hne, hlong⟩ := kept_of_mem_slips h hs
    exact ⟨(mem_slips hlength (ne_of_mem_slips hs)).2 hs, hlong, hne⟩

theorem bijective_toList : Function.Bijective String.toList := by
  constructor
  · intro s t h
    exact String.toList_injective h
  · intro cs
    exact ⟨String.ofList cs, String.toList_ofList⟩

/-- The alternatives are the slips, of which there are as many as the runs say. -/
theorem alternatives_levenshtein (phrase : String) :
    ∃ others, alternatives [.levenshtein] phrase = .ok others ∧
      (phrase.length < 5 → others = ∅) ∧
      (5 ≤ phrase.length →
        let cs := phrase.toList
        let r := (runs cs).length
        (∀ s, s ∈ others ↔ s.toList ∈ omissions cs ∪ doublings cs ∪ swaps cs) ∧
        (∀ s : String, s.toList ∈ omissions cs ∪ doublings cs ∪ swaps cs →
          s ≠ phrase ∧ minPatternBytes ≤ s.utf8ByteSize) ∧
        (omissions cs).encard = r ∧ (doublings cs).encard = r ∧
        (swaps cs).encard = (r - 1 : ℕ) ∧ others.size = 3 * r - 1) := by
  by_cases h : phrase.length < 5
  · refine ⟨∅, alternatives_levenshtein_of_short h, ?_, ?_⟩
    · intro _
      rfl
    · intro hlong
      omega
  · have hlong := Nat.le_of_not_lt h
    obtain ⟨others, he, hmem⟩ := exists_alternatives_levenshtein hlong
    refine ⟨others, he, fun hshort => absurd hshort h, fun _ => ?_⟩
    intro cs r
    obtain ⟨c, cs', hcs⟩ : ∃ c cs', cs = c :: cs' := by
      apply List.exists_cons_of_length_pos
      rw [String.length_toList]
      omega
    refine ⟨hmem, fun s => kept_of_mem_slips hlong, encard_repeated (by decide) cs,
      encard_repeated (by decide) cs, ?_, ?_⟩
    · change (swaps cs).encard = ((runs cs).length - 1 : ℕ)
      rw [hcs, encard_swaps]
    · have hset : {s | s ∈ others} =
          Set.preimage String.toList (omissions cs ∪ doublings cs ∪ swaps cs) := Set.ext hmem
      have hcard : {s | s ∈ others}.encard = (3 * (runs cs).length - 1 : ℕ) := by
        rw [hset, Set.encard_preimage_of_bijective bijective_toList, hcs, encard_slips]
      rw [OrdSet.encard_eq_size] at hcard
      exact_mod_cast hcard

theorem alternatives_levenshtein_of_double_letter :
    5 ≤ "hello".length ∧ ∃ others, alternatives [.levenshtein] "hello" = .ok others ∧
      "helo" ∈ others ∧ others.size = 11 := by
  have hlong : 5 ≤ "hello".length := by decide
  obtain ⟨others, he, -, h⟩ := alternatives_levenshtein "hello"
  obtain ⟨hmem, -, -, -, -, hsize⟩ := h hlong
  have hslip : "helo".toList ∈ omissions "hello".toList :=
    ⟨['h', 'e'], 'l', ['l', 'o'], by decide, by decide⟩
  exact ⟨hlong, others, he, (hmem "helo").2 (Or.inl (Or.inl hslip)), hsize⟩

end Variant

end Winnow
