import Winnow.Proofs.Outline.Reading
import Winnow.Proofs.Outline.Shape

/-!
# What is found under a word

An automaton that took all of its words holds for each word, up to case where case is
ignored, the set of the numbers that were given for it. A walk along a word goes on as
long as some pattern does, and the cell that it reads last names a group of that word
alone.
-/

namespace Winnow

theorem AsciiCase.prefix_fold_iff {caseless : Bool} {v bs : List UInt8} :
    v <+: fold caseless bs ↔ ∃ p, p <+: bs ∧ v = fold caseless p := by
  cases caseless with
  | false => simp [fold]
  | true => exact List.prefix_map_iff

open AsciiCase (fold)

namespace Automaton

variable {l : Layout} {a : Automaton l} {o : Outline} {u v w : List UInt8}

def lastRead (a : Automaton l) (state : UInt8) (w : List UInt8) : Cell :=
  ((a.walk state w)[w.length - 1]?).getD .empty

theorem walk_cons (a : Automaton l) (state b : UInt8) (w : List UInt8) :
    a.walk state (b :: w) = a.step state b ::
      if (a.step state b).isDeadEnd then [] else a.walk (a.step state b).target w := by
  rw [walk]
  split <;> rfl

theorem lastRead_singleton (a : Automaton l) (state b : UInt8) :
    a.lastRead state [b] = a.step state b := by
  rw [lastRead, walk_cons]
  rfl

theorem lastRead_cons (a : Automaton l) (state b : UInt8) (hw : w ≠ []) :
    a.lastRead state (b :: w) =
      if (a.step state b).isDeadEnd then .empty else a.lastRead (a.step state b).target w := by
  obtain ⟨c, w, rfl⟩ := List.exists_cons_of_ne_nil hw
  rw [lastRead, walk_cons]
  split <;> rfl

theorem alive_iff (a : Automaton l) (state : UInt8) (w : List UInt8) :
    (∀ c ∈ a.walk state w, c.isDeadEnd = false) ↔ (a.reach? state w).isSome = true := by
  induction w generalizing state with
  | nil => simp [walk, reach?]
  | cons b w ih =>
    rw [walk_cons, reach?, List.forall_mem_cons]
    cases hd : (a.step state b).isDeadEnd with
    | true => simp
    | false => simp [ih]

namespace Follows

theorem alive_root_iff (h : a.Follows o) (w : List UInt8) :
    (∀ c ∈ a.walk root w, c.isDeadEnd = false) ↔ .word (fold o.caseless w) ∈ o.nodes := by
  rw [alive_iff, h.reach?_root]
  split <;> simp [*]

theorem lastRead_eq (h : a.Follows o) (hu : .word u ∈ o.nodes) (hw : w ≠ []) :
    a.lastRead (o.plane (.word u)) w = o.cell (.word (u ++ fold o.caseless w)) := by
  induction w generalizing u with
  | nil => exact absurd rfl hw
  | cons b w ih =>
    by_cases hnil : w = []
    · rw [hnil, lastRead_singleton, h.step_eq hu]
    · rw [lastRead_cons a _ b hnil, h.step_eq hu, AsciiCase.fold_cons o.caseless b w,
        ← List.append_assoc]
      by_cases hb : .word (u ++ fold o.caseless [b]) ∈ o.nodes
      · have hlive := mt (h.isDeadEnd_cell _).1 (not_not.2 hb)
        rw [if_neg hlive, Outline.target_cell, ih hb hnil]
      · have hbelow : .word (u ++ fold o.caseless [b] ++ fold o.caseless w) ∉ o.nodes :=
          fun hm => hb (h.valid.grown.word_mem_of_append hm)
        rw [if_pos ((h.isDeadEnd_cell _).2 hb), h.valid.cell_of_not_mem hbelow]

theorem lastRead_root (h : a.Follows o) (hw : w ≠ []) :
    a.lastRead root w = o.cell (.word (fold o.caseless w)) := by
  rw [← h.plane_root]
  exact h.lastRead_eq h.valid.grown.root_mem hw

end Follows

variable {caseless : Bool} {words : List (List UInt8 × PatternId)}

/-- A walk goes on exactly along the prefixes of what was inserted. -/
theorem alive_iff_exists_word (h : (empty caseless).insertAll words = .ok a) (hw : w ≠ []) :
    (∀ c ∈ a.walk root w, c.isDeadEnd = false) ↔
      ∃ p id, (p, id) ∈ words ∧ p ≠ [] ∧ fold caseless w <+: fold caseless p := by
  have hne : fold caseless w ≠ [] := mt AsciiCase.fold_eq_nil_iff.1 hw
  have hnode := (follows_of_insertAll h).alive_root_iff w
  rw [Outline.caseless_insertEach, Outline.mem_nodes_insertEach (accepts_of_insertAll h),
    mem_needed, Node.word.injEq] at hnode
  refine hnode.trans ((or_iff_right hne).trans ?_)
  constructor
  · intro ⟨⟨p, id⟩, hp, hpath⟩
    obtain ⟨q, hq, -, he⟩ := word_mem_path_iff.1 hpath
    have hpre : fold caseless w <+: fold caseless p := AsciiCase.prefix_fold_iff.2 ⟨q, hq, he⟩
    refine ⟨p, id, hp, ?_, hpre⟩
    intro hnil
    rw [hnil, AsciiCase.fold_nil, List.prefix_nil] at hpre
    exact hne hpre
  · intro ⟨p, id, hp, _, hpre⟩
    obtain ⟨q, hq, he⟩ := AsciiCase.prefix_fold_iff.1 hpre
    refine ⟨(p, id), hp, word_mem_path_iff.2 ⟨q, hq, ?_, he⟩⟩
    intro hnil
    rw [hnil, AsciiCase.fold_nil] at he
    exact hne he

theorem mem_endsAt_lastRead_iff (h : (empty caseless).insertAll words = .ok a) (hw : w ≠ [])
    {id : PatternId} :
    id ∈ a.endsAt (a.lastRead root w) ↔
      ∃ p, (p, id) ∈ words ∧ fold caseless p = fold caseless w := by
  have hf := follows_of_insertAll h
  rw [hf.lastRead_root hw, hf.endsAt_cell, Outline.mem_idsAt, mem_marks_of_insertAll h,
    Outline.caseless_insertEach]
  refine exists_congr fun p => and_congr_right fun _ => ?_
  constructor
  · intro ⟨_, he⟩
    exact he.symm
  · intro he
    refine ⟨?_, he.symm⟩
    intro hnil
    rw [hnil, AsciiCase.fold_nil] at he
    exact hw (AsciiCase.fold_eq_nil_iff.1 he.symm)

theorem fold_eq_of_terminal (h : (empty caseless).insertAll words = .ok a) (hv : v ≠ [])
    (hw : w ≠ []) (hne : (a.lastRead root v).terminal ≠ 0)
    (he : (a.lastRead root v).terminal = (a.lastRead root w).terminal) :
    fold caseless v = fold caseless w := by
  have hf := follows_of_insertAll h
  rw [hf.lastRead_root hv, hf.valid.terminal_cell] at hne he
  rw [hf.lastRead_root hw, hf.valid.terminal_cell, Int.natCast_inj] at he
  rw [Outline.caseless_insertEach] at hne he
  exact numberIn_inj (not_not.1 (mt numberIn_eq_zero_iff.2 (Int.natCast_ne_zero.1 hne))) he

/-- An automaton that took all of its words is a multimap from words, up to case where case
is ignored, to the numbers that were given for them. -/
theorem insertAll_multimap (h : (empty caseless).insertAll words = .ok a) :
    (∀ w, w ≠ [] →
      ((∀ c ∈ a.walk root w, c.isDeadEnd = false) ↔
        ∃ p id, (p, id) ∈ words ∧ p ≠ [] ∧ fold caseless w <+: fold caseless p) ∧
      ∀ id, id ∈ a.endsAt (a.lastRead root w) ↔
        ∃ p, (p, id) ∈ words ∧ fold caseless p = fold caseless w) ∧
    a.groups.size = ((folds caseless words).erase []).card ∧
    ∀ v w, v ≠ [] → w ≠ [] → (a.lastRead root v).terminal ≠ 0 →
      (a.lastRead root v).terminal = (a.lastRead root w).terminal →
      fold caseless v = fold caseless w := by
  refine ⟨fun w hw => ⟨alive_iff_exists_word h hw, fun id => mem_endsAt_lastRead_iff h hw⟩,
    groups_size_of_insertAll h, ?_⟩
  intro v w hv hw hne he
  exact fold_eq_of_terminal h hv hw hne he

theorem insertAll_multimap_of_shared_word :
    ∃ a : Automaton .nibble, (empty true).insertAll [([0x41, 0x62], .of .accept 1),
        ([0x61, 0x62, 0x63], .of .accept 2), ([0x61, 0x42], .of .reject 1)] = .ok a ∧
      a.groups.size = 2 ∧ .of .reject 1 ∈ a.endsAt (a.lastRead root [0x41, 0x42]) ∧
      .of .accept 2 ∉ a.endsAt (a.lastRead root [0x41, 0x42]) := by
  let words : List (List UInt8 × PatternId) := [([0x41, 0x62], .of .accept 1),
    ([0x61, 0x62, 0x63], .of .accept 2), ([0x61, 0x42], .of .reject 1)]
  have h : (empty true : Automaton .nibble).insertAll words =
      .ok ((empty true).insertEach words) := rfl
  obtain ⟨hread, hsize, -⟩ := insertAll_multimap h
  have hids := (hread [0x41, 0x42] (by simp)).2
  refine ⟨_, h, hsize.trans (by decide), (hids _).2 ⟨[0x61, 0x42], by simp [words], by decide⟩, ?_⟩
  intro hm
  obtain ⟨p, hp, he⟩ := (hids _).1 hm
  simp only [words, List.mem_cons, Prod.mk.injEq, List.not_mem_nil, or_false] at hp
  rcases hp with ⟨-, hid⟩ | ⟨rfl, -⟩ | ⟨-, hid⟩
  · exact absurd hid (by decide)
  · exact absurd he (by decide)
  · exact absurd hid (by decide)

end Automaton

end Winnow
