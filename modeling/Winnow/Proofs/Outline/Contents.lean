import Winnow.Proofs.Outline.Growth

/-!
# What an outline holds

Each byte that starts one of the patterns is noted, in both of its forms, and each word
that has a node begins some pattern; both count the patterns that were refused. Where
none was refused, what is entered under a word is what was given for it.
-/

namespace Winnow

open AsciiCase (fold forms)

theorem word_not_mem_halves (l : Layout) (w v : List UInt8) (b : UInt8) :
    .word v ∉ halves l w b := by
  cases l <;> simp [halves]

theorem word_mem_below_iff {l : Layout} {caseless : Bool} {w v : List UInt8} {b : UInt8} :
    .word v ∈ below l caseless w b ↔ v = w ++ fold caseless [b] := by
  simp [below, word_not_mem_halves]

theorem exists_prefix_of_word_mem_path {l : Layout} {caseless : Bool} {w v bs : List UInt8}
    (h : .word v ∈ path l caseless w bs) :
    ∃ p, p <+: bs ∧ p ≠ [] ∧ v = w ++ fold caseless p := by
  induction bs generalizing w with
  | nil => simp [path] at h
  | cons b bs ih =>
    rw [path_cons] at h
    rcases List.mem_append.1 h with h | h
    · exact ⟨[b], by simp, by simp, word_mem_below_iff.1 h⟩
    · obtain ⟨p, hp, -, hv⟩ := ih h
      refine ⟨b :: p, by simpa using hp, by simp, ?_⟩
      rw [hv, AsciiCase.fold_cons caseless b p, List.append_assoc]

namespace Outline

variable {l : Layout} {o : Outline} {words : List (List UInt8 × PatternId)}

theorem caseless_insert (o : Outline) (pattern : List UInt8) (id : PatternId) :
    (o.insert l pattern id).1.caseless = o.caseless := by
  cases pattern with
  | nil => rfl
  | cons b bs =>
    simp only [insert]
    split <;> rfl

@[simp] theorem caseless_insertEach (o : Outline) (words : List (List UInt8 × PatternId)) :
    (o.insertEach l words).caseless = o.caseless := by
  induction words generalizing o with
  | nil => rfl
  | cons w ws ih => exact (ih _).trans (caseless_insert o w.1 w.2)

theorem insertEach_append (o : Outline) (words more : List (List UInt8 × PatternId)) :
    o.insertEach l (words ++ more) = (o.insertEach l words).insertEach l more := by
  induction words generalizing o with
  | nil => rfl
  | cons w ws ih => exact ih _

theorem mem_starts_noteStart {b c : UInt8} :
    c ∈ (o.noteStart b).starts.bytes ↔
      c ∈ o.starts.bytes ∨ fold o.caseless [c] = fold o.caseless [b] := by
  simp only [noteStart, StartBytes.bytes_insert, OrdSet.mem_insert, AsciiCase.fold_eq_fold_iff]
  tauto

theorem starts_insert_cons (o : Outline) (b : UInt8) (bs : List UInt8) (id : PatternId) :
    (o.insert l (b :: bs) id).1.starts = (o.noteStart b).starts := by
  simp only [insert]
  split <;> rfl

theorem mem_starts_insertEach {c : UInt8} :
    c ∈ (o.insertEach l words).starts.bytes ↔
      c ∈ o.starts.bytes ∨
        ∃ w ∈ words, ∃ b bs, w.1 = b :: bs ∧ fold o.caseless [c] = fold o.caseless [b] := by
  induction words generalizing o with
  | nil => simp [insertEach]
  | cons w ws ih =>
    obtain ⟨pattern, id⟩ := w
    simp only [insertEach, ih, caseless_insert, List.mem_cons, exists_eq_or_imp]
    cases pattern with
    | nil => simp [insert]
    | cons b bs =>
      rw [starts_insert_cons, mem_starts_noteStart, or_assoc]
      simp

theorem nodes_insert_cons (o : Outline) (b : UInt8) (bs : List UInt8) (id : PatternId) :
    (o.insert l (b :: bs) id).1.nodes = (grow o.nodes (path l o.caseless [] (b :: bs))).1 := by
  simp only [insert]
  split <;> rfl

theorem exists_prefix_of_word_mem {v : List UInt8} (h : .word v ∈ (o.insertEach l words).nodes) :
    .word v ∈ o.nodes ∨ ∃ w ∈ words, ∃ p, p <+: w.1 ∧ p ≠ [] ∧ v = fold o.caseless p := by
  induction words generalizing o with
  | nil => exact Or.inl h
  | cons w ws ih =>
    rcases ih h with h | ⟨w', hw, p, hp, hne, hv⟩
    · obtain ⟨pattern, id⟩ := w
      cases pattern with
      | nil => exact Or.inl h
      | cons b bs =>
        rw [nodes_insert_cons] at h
        rcases mem_or_mem_of_mem_grow h with h | h
        · exact Or.inl h
        · obtain ⟨p, hp, hne, hv⟩ := exists_prefix_of_word_mem_path h
          exact Or.inr ⟨_, List.mem_cons_self, p, hp, hne, hv⟩
    · rw [caseless_insert] at hv
      exact Or.inr ⟨w', List.mem_cons_of_mem _ hw, p, hp, hne, hv⟩

theorem start_mem_of_word_mem {caseless : Bool} {b : UInt8} {v : List UInt8}
    (h : .word (fold caseless (b :: v)) ∈ ((empty caseless).insertEach l words).nodes) :
    b ∈ ((empty caseless).insertEach l words).starts.bytes := by
  rcases exists_prefix_of_word_mem h with h | ⟨w, hw, p, hp, hne, hv⟩
  · have hl := congrArg List.length (Node.word.inj (List.mem_singleton.1 h))
    simp at hl
  · cases p with
    | nil => exact absurd rfl hne
    | cons d p =>
      obtain ⟨rest, hr⟩ := hp
      rw [AsciiCase.fold_cons _ b, AsciiCase.fold_cons _ d] at hv
      obtain ⟨hb, -⟩ := List.append_inj hv (by simp)
      exact mem_starts_insertEach.2 (Or.inr ⟨w, hw, d, p ++ rest, hr.symm, hb⟩)

theorem exists_word_of_mark {v : List UInt8} {id : PatternId}
    (h : (v, id) ∈ (o.insertEach l words).marks) :
    (v, id) ∈ o.marks ∨ ∃ w, (w, id) ∈ words ∧ v = fold o.caseless w := by
  induction words generalizing o with
  | nil => exact Or.inl h
  | cons w ws ih =>
    obtain ⟨pattern, id'⟩ := w
    rcases ih h with h | ⟨w, hw, hv⟩
    · cases pattern with
      | nil => exact Or.inl h
      | cons b bs =>
        simp only [insert] at h
        split at h
        · rcases List.mem_append.1 h with h | h
          · exact Or.inl h
          · obtain ⟨rfl, rfl⟩ := Prod.mk.inj (List.mem_singleton.1 h)
            exact Or.inr ⟨_, List.mem_cons_self, rfl⟩
        · exact Or.inl h
    · rw [caseless_insert] at hv
      exact Or.inr ⟨w, List.mem_cons_of_mem _ hw, hv⟩

theorem mem_marks_insertEach (h : o.accepts l words) {v : List UInt8} {id : PatternId} :
    (v, id) ∈ (o.insertEach l words).marks ↔
      (v, id) ∈ o.marks ∨ ∃ w, (w, id) ∈ words ∧ w ≠ [] ∧ v = fold o.caseless w := by
  induction words generalizing o with
  | nil => simp [insertEach]
  | cons w ws ih =>
    obtain ⟨pattern, id'⟩ := w
    simp only [accepts, Bool.and_eq_true] at h
    simp only [insertEach, ih h.2, caseless_insert]
    cases pattern with
    | nil =>
      refine or_congr_right (exists_congr fun w => ?_)
      by_cases hw : w = []
      · simp [hw]
      · simp [hw]
    | cons b bs =>
      have hroom := room_of_insert h.1
      have hmarks : (v, id) ∈ (o.insert l (b :: bs) id').1.marks ↔
          (v, id) ∈ o.marks ∨ v = fold o.caseless (b :: bs) ∧ id = id' := by
        simp only [insert, hroom, ↓reduceIte, mark, List.mem_append, List.mem_singleton,
          Prod.mk.injEq]
        rfl
      rw [hmarks]
      constructor
      · rintro ((hm | ⟨hv, rfl⟩) | ⟨w, hw, hne, hv⟩)
        · exact Or.inl hm
        · exact Or.inr ⟨_, List.mem_cons_self, by simp, hv⟩
        · exact Or.inr ⟨w, List.mem_cons_of_mem _ hw, hne, hv⟩
      · rintro (hm | ⟨w, hw, hne, hv⟩)
        · exact Or.inl (Or.inl hm)
        · rcases List.mem_cons.1 hw with he | hw
          · obtain ⟨rfl, rfl⟩ := Prod.mk.inj he
            exact Or.inl (Or.inr ⟨hv, rfl⟩)
          · exact Or.inr ⟨w, hw, hne, hv⟩

end Outline

end Winnow
