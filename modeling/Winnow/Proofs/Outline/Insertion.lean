import Winnow.Proofs.Outline.Descent

/-!
# Insertion follows the outline

A pattern that has found its place is marked there, in a group of its own or in the one
that the word already has; there is always a number for a new group, for no more words
than planes have ends. So an insertion fails only for want of plane numbers, and the
automaton after any insertions, refused ones among them, follows the outline after the
same insertions.
-/

namespace Winnow

theorem IdGroups.mem_get_insert {g : IdGroups} {k : Nat} (hk : 0 < k) (hg : k ≤ g.size)
    (id i : PatternId) (m : Nat) :
    i ∈ (g.insert k id).get m ↔ i ∈ g.get m ∨ m = k ∧ i = id := by
  rw [get_insert]
  by_cases hm : k = m
  · subst hm
    simp only [hk, hg, and_self, ↓reduceIte, OrdSet.mem_insert, true_and]
    exact or_comm
  · simp [hm, Ne.symm hm]

namespace Automaton

open AsciiCase (fold)

variable {l : Layout} {a b : Automaton l} {o : Outline}

theorem size_enlist (a : Automaton l) (s : Slot) (k : Nat) (id : PatternId) :
    (a.enlist s k id).size = a.size :=
  size_setCell a s _

theorem cell_enlist (a : Automaton l) {s : Slot} (k : Nat) (id : PatternId)
    (hs : s.plane.toNat < a.size ∧ s.symbol < l.width) (x : Slot) :
    (a.enlist s k id).cell x = if x = s then (a.cell x).setTerminal k else a.cell x := by
  have h : (a.enlist s k id).cell x = (a.setCell s ((a.cell s).setTerminal k)).cell x := rfl
  rw [h, cell_setCell]
  by_cases hx : x = s
  · simp [hx, hs]
  · simp [hx, Ne.symm hx]

def enlistForms (a : Automaton l) (s t : Slot) (k : Nat) (id : PatternId) : Automaton l :=
  if s = t then a.enlist s k id else (a.enlist s k id).enlist t k id

theorem size_enlistForms (a : Automaton l) (s t : Slot) (k : Nat) (id : PatternId) :
    (a.enlistForms s t k id).size = a.size := by
  unfold enlistForms
  split
  · exact size_enlist a s k id
  · exact (size_enlist _ t k id).trans (size_enlist a s k id)

theorem cell_enlistForms (a : Automaton l) {s t : Slot} (k : Nat) (id : PatternId)
    (hs : s.plane.toNat < a.size ∧ s.symbol < l.width)
    (ht : t.plane.toNat < a.size ∧ t.symbol < l.width) (x : Slot) :
    (a.enlistForms s t k id).cell x =
      if x = s ∨ x = t then (a.cell x).setTerminal k else a.cell x := by
  unfold enlistForms
  split
  · rename_i he
    subst he
    simp [cell_enlist a k id hs]
  · rename_i hne
    rw [cell_enlist _ k id (by rwa [size_enlist]), cell_enlist a k id hs]
    by_cases hxs : x = s
    · simp [hxs, hne]
    · simp [hxs]

theorem groups_enlist (a : Automaton l) (s : Slot) (k : Nat) (id : PatternId) :
    (a.enlist s k id).groups = a.groups.insert k id := rfl

theorem size_groups_enlistForms (a : Automaton l) (s t : Slot) (k : Nat) (id : PatternId) :
    (a.enlistForms s t k id).groups.size = a.groups.size := by
  unfold enlistForms
  split <;> simp [groups_enlist]

theorem mem_groups_enlistForms (a : Automaton l) (s t : Slot) {k : Nat} (id : PatternId)
    (hk : 0 < k) (hg : k ≤ a.groups.size) (i : PatternId) (m : Nat) :
    i ∈ (a.enlistForms s t k id).groups.get m ↔ i ∈ a.groups.get m ∨ m = k ∧ i = id := by
  unfold enlistForms
  split
  · exact IdGroups.mem_get_insert hk hg id i m
  · rw [groups_enlist, groups_enlist, IdGroups.mem_get_insert hk (by simpa using hg),
      IdGroups.mem_get_insert hk hg, or_assoc, or_self]

@[simp] theorem caseless_enlistForms (a : Automaton l) (s t : Slot) (k : Nat) (id : PatternId) :
    (a.enlistForms s t k id).caseless = a.caseless := by
  unfold enlistForms
  split <;> rfl

@[simp] theorem starts_enlistForms (a : Automaton l) (s t : Slot) (k : Nat) (id : PatternId) :
    (a.enlistForms s t k id).starts = a.starts := by
  unfold enlistForms
  split <;> rfl

theorem markForms_of_named {a : Automaton l} {s t : Slot} {k : Nat} (id : PatternId)
    (hs : s.plane.toNat < a.size ∧ s.symbol < l.width) (hk : 0 < k)
    (hcs : (a.cell s).terminal = k) (hct : (a.cell t).terminal = k) :
    a.markForms s t id = (a.enlistForms s t k id, .ok ()) := by
  have hk0 : (k : Int) ≠ 0 := by omega
  have h1 : a.mark s id none = (a.enlist s k id, .ok none) := by
    rw [mark, hcs, if_pos hk0, Int.toNat_natCast]
  rw [markForms, h1]
  by_cases hst : s = t
  · simp [hst, enlistForms]
  · have h2 : ((a.enlist s k id).cell t).terminal = k := by
      rw [cell_enlist a k id hs, if_neg (Ne.symm hst), hct]
    simp [hst, enlistForms, mark, h2, Nat.ne_of_gt hk]

theorem markForms_of_unnamed {a : Automaton l} {s t : Slot} {g : IdGroups} {k : Nat}
    (id : PatternId) (hs : s.plane.toNat < a.size ∧ s.symbol < l.width)
    (hg : a.groups.allocate = .ok (k, g))
    (hcs : (a.cell s).terminal = 0) (hct : (a.cell t).terminal = 0) :
    a.markForms s t id = (enlistForms { a with groups := g } s t k id, .ok ()) := by
  have h1 : a.mark s id none = (enlist { a with groups := g } s k id, .ok (some k)) := by
    simp [mark, hcs, hg]
  rw [markForms, h1]
  by_cases hst : s = t
  · simp [hst, enlistForms]
  · have h2 : ((enlist { a with groups := g } s k id).cell t).terminal = 0 := by
      rw [cell_enlist { a with groups := g } k id hs, if_neg (Ne.symm hst)]
      exact hct
    simp [hst, enlistForms, mark, h2]

namespace Follows

theorem mem_group_mark (h : a.Follows o) {v : List UInt8} {id : PatternId}
    (hm : (o.mark v id).Valid l) (u : List UInt8) (i : PatternId) :
    i ∈ a.groups.get (numberIn (o.mark v id).ends u) ∨
        numberIn (o.mark v id).ends u = numberIn (o.mark v id).ends v ∧ i = id ↔
      (u, i) ∈ (o.mark v id).marks := by
  rw [Outline.mem_marks_mark]
  by_cases huv : u = v
  · subst huv
    have hold : i ∈ a.groups.get (numberIn (o.mark u id).ends u) ↔ (u, i) ∈ o.marks := by
      rw [Outline.endNumber_mark_self]
      split
      · exact h.mem_group u i
      · rename_i hu
        rw [IdGroups.get_of_size_lt _ (by rw [h.groups_size]; exact Nat.lt_succ_self _)]
        simp only [OrdSet.not_mem_empty, false_iff]
        exact fun hm => hu (h.valid.end_mem_of_mark hm)
    simp [hold]
  · have hne : numberIn (o.mark v id).ends u ≠ numberIn (o.mark v id).ends v := by
      intro he
      have hv := (hm.mem_ends_iff v).2 ⟨id, (o.mem_marks_mark v v id id).2 (Or.inr ⟨rfl, rfl⟩)⟩
      exact huv (numberIn_inj hv he.symm).symm
    rw [o.endNumber_mark_of_ne huv] at hne ⊢
    simp only [hne, huv, false_and, or_false]
    exact h.mem_group u i

/-- Every cell of a word names the group of the word, and that has one more member. -/
theorem mark (h : a.Follows o) {v : List UInt8} (hv : v ≠ []) (hn : .word v ∈ o.nodes)
    {id : PatternId} (caseless_eq : b.caseless = a.caseless) (starts_eq : b.starts = a.starts)
    (size_eq : b.size = a.size) {names : Slot → Prop} [DecidablePred names]
    (names_iff : ∀ s, names s ↔ o.LeadsTo l (.word v) s)
    (cell_eq : ∀ s, b.cell s = if names s
      then (a.cell s).setTerminal (numberIn (o.mark v id).ends v) else a.cell s)
    (groups_size : b.groups.size = (o.mark v id).ends.length)
    (mem_group : ∀ i m, i ∈ b.groups.get m ↔
      i ∈ a.groups.get m ∨ m = numberIn (o.mark v id).ends v ∧ i = id) :
    b.Follows (o.mark v id) := by
  have hm := h.valid.mark hv hn id
  refine ⟨hm, caseless_eq.trans h.caseless_eq, starts_eq.trans h.starts_eq,
    size_eq.trans h.size_eq, ?_, ?_, groups_size, ?_⟩
  · intro i
    rw [cell_eq, if_neg (mt (names_iff _).1 (h.valid.not_leadsTo_zero _ i)), h.blank]
  · intro m hmem i hi
    have plane_eq : (o.mark v id).plane m = o.plane m := rfl
    rw [plane_eq, cell_eq, h.cell_eq m hmem i hi, hm.cell_mark]
    exact if_congr ((names_iff _).trans (h.valid.leadsTo_iff hmem hi)) rfl rfl
  · intro u i
    rw [mem_group]
    exact h.mem_group_mark hm u i

theorem allocate_groups (h : a.Follows o) :
    ∃ g, a.groups.allocate = .ok (o.ends.length + 1, g) ∧ g.size = o.ends.length + 1 ∧
      ∀ m, g.get m = a.groups.get m := by
  have hs : a.groups.size < IdGroups.maxNumber := by
    have he := h.valid.length_ends_le
    have hl := h.valid.length_le
    rw [h.groups_size]
    unfold maxPlane at hl
    unfold IdGroups.maxNumber
    omega
  have ha : a.groups.allocate = .ok (o.ends.length + 1, ⟨a.groups.sets.push ∅⟩) := by
    rw [IdGroups.allocate, if_pos hs, h.groups_size]
  refine ⟨_, ha, ?_, IdGroups.get_allocate ha⟩
  rw [← h.groups_size]
  exact Array.size_push _

theorem markForms (h : a.Follows o) {u : List UInt8} {c : UInt8}
    (hn : .word (u ++ fold o.caseless [c]) ∈ o.nodes) (id : PatternId) :
    let f := AsciiCase.forms o.caseless c
    let r := a.markForms (o.slot l u f.1) (o.slot l u f.2) id
    r.1.Follows (o.mark (u ++ fold o.caseless [c]) id) ∧ r.2 = .ok () := by
  have hf1 : fold o.caseless [(AsciiCase.forms o.caseless c).1] = fold o.caseless [c] :=
    AsciiCase.fold_eq_fold_iff.2 (Or.inl rfl)
  have hf2 : fold o.caseless [(AsciiCase.forms o.caseless c).2] = fold o.caseless [c] :=
    AsciiCase.fold_eq_fold_iff.2 (Or.inr rfl)
  have hs1 := h.valid.grown.site_mem (hf1 ▸ hn)
  have hs2 := h.valid.grown.site_mem (hf2 ▸ hn)
  have hr1 := h.slot_in_range u (AsciiCase.forms o.caseless c).1
  have hr2 := h.slot_in_range u (AsciiCase.forms o.caseless c).2
  have hslots := h.slot_form_iff hs1 hs2
  have hc1 := congrArg Cell.terminal (h.cell_form hs1 hf1)
  have hc2 := congrArg Cell.terminal (h.cell_form hs2 hf2)
  rw [h.valid.terminal_cell] at hc1 hc2
  have hv : u ++ fold o.caseless [c] ≠ [] := by
    intro he
    simpa using congrArg List.length he
  generalize u ++ fold o.caseless [c] = v at *
  have hself := o.endNumber_mark_self v id
  have hlength : (o.mark v id).ends.length =
      if v ∈ o.ends then o.ends.length else o.ends.length + 1 := by
    simp only [Outline.mark]
    split <;> simp
  by_cases hm : v ∈ o.ends
  · have hk : 0 < numberIn o.ends v := Nat.pos_of_ne_zero (mt numberIn_eq_zero_iff.1 (not_not.2 hm))
    have hg : numberIn o.ends v ≤ a.groups.size := h.groups_size ▸ numberIn_le_length _ _
    rw [if_pos hm] at hself hlength
    simp only [markForms_of_named id hr1 hk hc1 hc2, and_true]
    refine h.mark hv hn (by simp) (by simp) (size_enlistForms _ _ _ _ _) hslots ?_ ?_ ?_
    · rw [hself]
      exact cell_enlistForms a _ id hr1 hr2
    · rw [size_groups_enlistForms, h.groups_size, hlength]
    · rw [hself]
      exact mem_groups_enlistForms a _ _ id hk hg
  · obtain ⟨g, ha, hg, hget⟩ := h.allocate_groups
    have hz : o.endNumber (.word v) = 0 := numberIn_eq_zero_iff.2 hm
    rw [hz] at hc1 hc2
    rw [if_neg hm] at hself hlength
    simp only [markForms_of_unnamed id hr1 ha hc1 hc2, and_true]
    refine h.mark hv hn (by simp) (by simp) (size_enlistForms _ _ _ _ _) hslots ?_ ?_ ?_
    · rw [hself]
      exact cell_enlistForms { a with groups := g } _ id hr1 hr2
    · rw [size_groups_enlistForms, hg, hlength]
    · intro i m
      rw [hself, mem_groups_enlistForms { a with groups := g } _ _ id (Nat.succ_pos _)
        (Nat.le_of_eq hg.symm), hget]

theorem noteStart (h : a.Follows o) (b : UInt8) : (a.noteStart b).Follows (o.noteStart b) where
  valid := ⟨h.valid.grown, h.valid.length_le, h.valid.ends_nodup, h.valid.node_of_end,
    h.valid.mem_ends_iff⟩
  caseless_eq := h.caseless_eq
  starts_eq := by
    simp only [Automaton.noteStart, Outline.noteStart, h.starts_eq, ← h.caseless_eq]
    rfl
  size_eq := h.size_eq
  blank := h.blank
  cell_eq := h.cell_eq
  groups_size := h.groups_size
  mem_group := h.mem_group

/-- The way down along a pattern ends at the cells of its last byte, unless planes run out. -/
theorem descendPattern (h : a.Follows o) (b : UInt8) (bs : List UInt8) :
    let xs := path l o.caseless [] (b :: bs)
    let r := (o.noteStart b).grown xs
    ∃ (a' : Automaton l) (u : List UInt8) (c : UInt8),
      a'.Follows r ∧ u ++ fold o.caseless [c] = fold o.caseless (b :: bs) ∧
      (o.room xs = true ∧ .word (u ++ fold o.caseless [c]) ∈ r.nodes ∧
        (a.noteStart b).descendAlong root b bs = (a', .ok
          (r.slot l u (AsciiCase.forms o.caseless c).1,
            r.slot l u (AsciiCase.forms o.caseless c).2)) ∨
      o.room xs = false ∧
        (a.noteStart b).descendAlong root b bs = (a', .error (.automatonFull maxPlane))) := by
  intro xs r
  have hlast : fold o.caseless ((b :: bs).dropLast) ++
      fold o.caseless [(b :: bs).getLast (List.cons_ne_nil b bs)] = fold o.caseless (b :: bs) := by
    rw [← AsciiCase.fold_append, List.dropLast_append_getLast]
  have hroot : (o.noteStart b).plane (.word []) = root := by
    simp only [Outline.plane, Outline.noteStart, h.valid.grown.numberIn_root]
    rfl
  obtain ⟨h1, hr1⟩ := (h.noteStart b).descendAlong h.valid.grown.root_mem b bs hlast
  rw [hroot] at h1 hr1
  change _ = ifRoom (o.room xs) _ at hr1
  refine ⟨_, _, _, h1, hlast, ?_⟩
  rcases ifRoom_cases hr1 with ⟨hroom, he⟩ | ⟨hroom, he⟩
  · refine Or.inl ⟨hroom, ?_, he⟩
    rw [hlast]
    exact subset_grow hroom (word_mem_path l o.caseless [] (List.cons_ne_nil b bs))
  · exact Or.inr ⟨hroom, he⟩

theorem insert (h : a.Follows o) (pattern : List UInt8) (id : PatternId) :
    (a.insert pattern id).1.Follows (o.insert l pattern id).1 ∧
    (a.insert pattern id).2 = ifRoom (o.insert l pattern id).2 () := by
  cases pattern with
  | nil => exact ⟨h, rfl⟩
  | cons b bs =>
    obtain ⟨a', u, c, h1, hu, ⟨hroom, hn, he⟩ | ⟨hroom, he⟩⟩ := h.descendPattern b bs
    · simp only [Automaton.insert, Outline.insert, he, hroom]
      have hm := h1.markForms hn id
      simp only [Outline.caseless_grown, Outline.caseless_noteStart, hu] at hm
      exact hm
    · simp only [Automaton.insert, Outline.insert, he, hroom]
      exact ⟨h1, rfl⟩

theorem insertEach (h : a.Follows o) (words : List (List UInt8 × PatternId)) :
    (a.insertEach words).Follows (o.insertEach l words) := by
  induction words generalizing a o with
  | nil => exact h
  | cons w ws ih => exact ih (h.insert w.1 w.2).1

theorem insertAll (h : a.Follows o) (words : List (List UInt8 × PatternId)) :
    a.insertAll words = ifRoom (o.accepts l words) (a.insertEach words) := by
  induction words generalizing a o with
  | nil => rfl
  | cons w ws ih =>
    obtain ⟨h1, hr1⟩ := h.insert w.1 w.2
    simp only [Automaton.insertAll, Automaton.insertEach, Outline.accepts]
    rcases ifRoom_cases hr1 with ⟨hroom, he⟩ | ⟨hroom, he⟩
    · rw [he, hroom, Bool.true_and]
      exact ih h1
    · rw [he, hroom]
      rfl

end Follows

variable {caseless : Bool} {words : List (List UInt8 × PatternId)}

theorem accepts_of_insertAll (h : (empty caseless).insertAll words = .ok a) :
    (Outline.empty caseless).accepts l words = true := by
  rw [(follows_empty caseless).insertAll words, ifRoom] at h
  split at h
  · assumption
  · cases h

theorem follows_of_insertAll (h : (empty caseless).insertAll words = .ok a) :
    a.Follows ((Outline.empty caseless).insertEach l words) := by
  rw [← insertEach_eq_of_insertAll h]
  exact (follows_empty caseless).insertEach words

end Automaton

end Winnow
