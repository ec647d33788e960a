import Mathlib.Data.Finset.Card
import Mathlib.Data.Finset.Union
import Winnow.Proofs.Outline.Contents
import Winnow.Proofs.Outline.Insertion

/-!
# What the words need

The words that are inserted, folded and taken as a set, say which nodes are needed. They
decide by that whether there is room, and then how many planes and groups there are and
which bytes start a word. In which order the words come, how often, and under which
numbers makes no difference to any of these.
-/

namespace Winnow

theorem AsciiCase.fold_eq_nil_iff {caseless : Bool} {w : List UInt8} :
    fold caseless w = [] ↔ w = [] := by
  rw [← List.length_eq_zero_iff, length_fold, List.length_eq_zero_iff]

open AsciiCase (fold forms)

section Grow

variable {ns xs : List Node} {n : Node}

theorem mem_grow_iff (h : (grow ns xs).2 = true) : n ∈ (grow ns xs).1 ↔ n ∈ ns ∨ n ∈ xs := by
  constructor
  · exact mem_or_mem_of_mem_grow
  · rintro (hn | hn)
    · exact mem_grow_of_mem hn xs
    · exact subset_grow h hn

/-- There is room for some nodes exactly if all of them together are not too many. -/
theorem grow_room_iff (hd : ns.Nodup) (hl : ns.length ≤ Automaton.maxPlane) :
    (grow ns xs).2 = true ↔ (ns ++ xs).toFinset.card ≤ Automaton.maxPlane := by
  induction xs generalizing ns with
  | nil => simpa [List.toFinset_card_of_nodup hd] using hl
  | cons m xs ih =>
    by_cases hm : m ∈ ns
    · have hset : (ns ++ m :: xs).toFinset = (ns ++ xs).toFinset := by
        ext n
        simp only [List.mem_toFinset, List.mem_append, List.mem_cons]
        grind
      rw [grow_cons_of_mem hm, ih hd hl, hset]
    · have hd' : (ns ++ [m]).Nodup := List.nodup_append_comm.1 (List.nodup_cons.2 ⟨hm, hd⟩)
      have hset : ns ++ m :: xs = (ns ++ [m]) ++ xs := by simp
      rw [hset]
      by_cases hr : ns.length < Automaton.maxPlane
      · rw [grow_cons_of_room hm hr, ih hd' (by rwa [List.length_append])]
      · rw [grow_cons_of_full hm hr]
        -- growing stops here, and the nodes so far with this one are already too many
        have hsub : (ns ++ [m]).toFinset ⊆ ((ns ++ [m]) ++ xs).toFinset := by
          intro n hn
          exact List.mem_toFinset.2 (List.mem_append_left _ (List.mem_toFinset.1 hn))
        have hle := Finset.card_le_card hsub
        rw [List.toFinset_card_of_nodup hd', List.length_append, List.length_singleton] at hle
        simp only [Bool.false_eq_true, false_iff]
        omega

end Grow

theorem path_append (l : Layout) (caseless : Bool) (w p bs : List UInt8) :
    path l caseless w (p ++ bs) = path l caseless w p ++ path l caseless (w ++ fold caseless p) bs := by
  induction p generalizing w with
  | nil => simp [path]
  | cons b p ih =>
    rw [List.cons_append, path_cons, path_cons, ih, AsciiCase.fold_cons caseless b p,
      List.append_assoc, List.append_assoc]

theorem word_mem_path_iff {l : Layout} {caseless : Bool} {w v bs : List UInt8} :
    .word v ∈ path l caseless w bs ↔ ∃ p, p <+: bs ∧ p ≠ [] ∧ v = w ++ fold caseless p := by
  constructor
  · exact exists_prefix_of_word_mem_path
  · rintro ⟨p, ⟨rest, rfl⟩, hne, rfl⟩
    rw [path_append]
    exact List.mem_append_left _ (word_mem_path l caseless w hne)

theorem path_congr {l : Layout} {caseless : Bool} {bs cs : List UInt8} (w : List UInt8)
    (h : fold caseless bs = fold caseless cs) : path l caseless w bs = path l caseless w cs := by
  induction bs generalizing w cs with
  | nil =>
    have hl := congrArg List.length h
    rw [AsciiCase.length_fold, AsciiCase.length_fold] at hl
    rw [List.eq_nil_of_length_eq_zero hl.symm]
  | cons b bs ih =>
    cases cs with
    | nil => simpa using congrArg List.length h
    | cons c cs =>
      rw [AsciiCase.fold_cons caseless b, AsciiCase.fold_cons caseless c] at h
      obtain ⟨hb, hbs⟩ := List.append_inj h (by simp)
      have hbelow : below l caseless w b = below l caseless w c := by
        rw [below, below, AsciiCase.forms_eq_of_fold_eq hb, hb]
      rw [path_cons, path_cons, hbelow, hb, ih _ hbs]

def folds (caseless : Bool) (words : List (List UInt8 × PatternId)) : Finset (List UInt8) :=
  (words.map fun w => fold caseless w.1).toFinset

/-- The nodes that some words take, the root among them. -/
def needed (l : Layout) (caseless : Bool) (vs : Finset (List UInt8)) : Finset Node :=
  insert (Node.word []) (vs.biUnion fun v => (path l caseless [] v).toFinset)

variable {l : Layout} {caseless : Bool} {words : List (List UInt8 × PatternId)}

theorem mem_folds {v : List UInt8} :
    v ∈ folds caseless words ↔ ∃ w ∈ words, fold caseless w.1 = v := by
  simp [folds]

theorem mem_needed {n : Node} :
    n ∈ needed l caseless (folds caseless words) ↔
      n = Node.word [] ∨ ∃ w ∈ words, n ∈ path l caseless [] w.1 := by
  have hpath (w : List UInt8) : path l caseless [] (fold caseless w) = path l caseless [] w :=
    path_congr [] (AsciiCase.fold_fold caseless w)
  simp only [needed, Finset.mem_insert, Finset.mem_biUnion, List.mem_toFinset, mem_folds,
    exists_exists_and_eq_and, hpath]

namespace Outline

def paths (l : Layout) (caseless : Bool) (words : List (List UInt8 × PatternId)) : List Node :=
  words.flatMap fun w => path l caseless [] w.1

theorem paths_cons (l : Layout) (caseless : Bool) (w : List UInt8 × PatternId)
    (ws : List (List UInt8 × PatternId)) :
    paths l caseless (w :: ws) = path l caseless [] w.1 ++ paths l caseless ws :=
  List.flatMap_cons

theorem mem_paths {n : Node} : n ∈ paths l caseless words ↔ ∃ w ∈ words, n ∈ path l caseless [] w.1 :=
  List.mem_flatMap

theorem insert_eq_grow (l : Layout) (o : Outline) (pattern : List UInt8) (id : PatternId) :
    (o.insert l pattern id).2 = (grow o.nodes (path l o.caseless [] pattern)).2 ∧
      (o.insert l pattern id).1.nodes = (grow o.nodes (path l o.caseless [] pattern)).1 := by
  cases pattern with
  | nil => exact ⟨rfl, rfl⟩
  | cons b bs =>
    refine ⟨?_, nodes_insert_cons o b bs id⟩
    simp only [insert]
    split
    · rename_i h
      exact h.symm
    · rename_i h
      exact (Bool.eq_false_iff.2 h).symm

theorem accepts_eq_grow (o : Outline) (words : List (List UInt8 × PatternId)) :
    o.accepts l words = (grow o.nodes (paths l o.caseless words)).2 := by
  induction words generalizing o with
  | nil => rfl
  | cons w ws ih =>
    obtain ⟨hroom, hnodes⟩ := insert_eq_grow l o w.1 w.2
    rw [accepts, ih, hnodes, caseless_insert, hroom, paths_cons, grow_append]
    split <;> simp [*]

theorem nodes_insertEach (o : Outline) (h : o.accepts l words = true) :
    (o.insertEach l words).nodes = (grow o.nodes (paths l o.caseless words)).1 := by
  induction words generalizing o with
  | nil => rfl
  | cons w ws ih =>
    obtain ⟨hroom, hnodes⟩ := insert_eq_grow l o w.1 w.2
    rw [accepts, Bool.and_eq_true] at h
    rw [insertEach, ih _ h.2, hnodes, caseless_insert, paths_cons, grow_append, ← hroom, if_pos h.1]

theorem accepts_iff :
    (empty caseless).accepts l words = true ↔
      (needed l caseless (folds caseless words)).card ≤ Automaton.maxPlane := by
  have hset : ([Node.word []] ++ paths l caseless words).toFinset =
      needed l caseless (folds caseless words) := by
    ext n
    rw [List.mem_toFinset, mem_needed, List.mem_append, List.mem_singleton, mem_paths]
  rw [accepts_eq_grow, ← hset]
  exact grow_room_iff (List.nodup_singleton _) (Nat.le_add_left 1 254)

theorem mem_nodes_insertEach (h : (empty caseless).accepts l words = true) {n : Node} :
    n ∈ ((empty caseless).insertEach l words).nodes ↔
      n ∈ needed l caseless (folds caseless words) := by
  rw [nodes_insertEach _ h, mem_grow_iff (by rwa [accepts_eq_grow] at h), mem_needed,
    ← mem_paths]
  exact or_congr_left List.mem_singleton

end Outline

namespace Automaton

variable {a b : Automaton l}

theorem exists_insertAll_iff :
    (∃ a : Automaton l, (empty caseless).insertAll words = .ok a) ↔
      (needed l caseless (folds caseless words)).card ≤ maxPlane := by
  rw [← Outline.accepts_iff]
  constructor
  · intro ⟨a, ha⟩
    exact accepts_of_insertAll ha
  · intro h
    refine ⟨(empty caseless).insertEach words, ?_⟩
    rw [(follows_empty caseless).insertAll words, h]
    rfl

theorem size_of_insertAll (h : (empty caseless).insertAll words = .ok a) :
    a.size = (needed l caseless (folds caseless words)).card + 1 := by
  have hf := follows_of_insertAll h
  have hset : ((Outline.empty caseless).insertEach l words).nodes.toFinset =
      needed l caseless (folds caseless words) := by
    ext n
    rw [List.mem_toFinset, Outline.mem_nodes_insertEach (accepts_of_insertAll h)]
  rw [hf.size_eq, ← hset, List.toFinset_card_of_nodup hf.valid.grown.nodup]

theorem mem_marks_of_insertAll (h : (empty caseless).insertAll words = .ok a) {v : List UInt8}
    {id : PatternId} :
    (v, id) ∈ ((Outline.empty caseless).insertEach l words).marks ↔
      ∃ w, (w, id) ∈ words ∧ w ≠ [] ∧ v = fold caseless w := by
  have hnone : (v, id) ∉ (Outline.empty caseless).marks := List.not_mem_nil
  rw [Outline.mem_marks_insertEach (accepts_of_insertAll h)]
  exact or_iff_right hnone

theorem mem_ends_of_insertAll (h : (empty caseless).insertAll words = .ok a) {v : List UInt8} :
    v ∈ ((Outline.empty caseless).insertEach l words).ends ↔ v ≠ [] ∧ v ∈ folds caseless words := by
  rw [(follows_of_insertAll h).valid.mem_ends_iff, mem_folds]
  simp only [mem_marks_of_insertAll h]
  constructor
  · rintro ⟨id, w, hw, hne, rfl⟩
    exact ⟨mt AsciiCase.fold_eq_nil_iff.1 hne, _, hw, rfl⟩
  · rintro ⟨hne, w, hw, rfl⟩
    exact ⟨w.2, w.1, hw, mt AsciiCase.fold_eq_nil_iff.2 hne, rfl⟩

theorem groups_size_of_insertAll (h : (empty caseless).insertAll words = .ok a) :
    a.groups.size = ((folds caseless words).erase []).card := by
  have hf := follows_of_insertAll h
  have hset : ((Outline.empty caseless).insertEach l words).ends.toFinset =
      (folds caseless words).erase [] := by
    ext v
    rw [List.mem_toFinset, mem_ends_of_insertAll h, Finset.mem_erase]
  rw [hf.groups_size, ← hset, List.toFinset_card_of_nodup hf.valid.ends_nodup]

theorem mem_starts_of_insertAll (h : (empty caseless).insertAll words = .ok a) {c : UInt8} :
    c ∈ a.starts.bytes ↔ ∃ v ∈ folds caseless words, fold caseless [c] <+: v := by
  rw [(follows_of_insertAll h).starts_eq, Outline.mem_starts_insertEach]
  have hnone : c ∉ (Outline.empty caseless).starts.bytes := OrdSet.not_mem_empty c
  simp only [hnone, false_or, mem_folds, exists_exists_and_eq_and]
  refine exists_congr fun w => and_congr_right fun _ => ?_
  constructor
  · rintro ⟨b, bs, hb, hc⟩
    change fold caseless [c] = fold caseless [b] at hc
    rw [hb, AsciiCase.fold_cons _ b, hc]
    exact List.prefix_append _ _
  · rintro ⟨rest, hr⟩
    cases hw : w.1 with
    | nil => simpa [hw] using congrArg List.length hr
    | cons b bs =>
      rw [hw, AsciiCase.fold_cons _ b] at hr
      exact ⟨b, bs, rfl, (List.append_inj hr (by simp)).1⟩

theorem shape_eq {words' : List (List UInt8 × PatternId)}
    (ha : (empty caseless).insertAll words = .ok a) (hb : (empty caseless).insertAll words' = .ok b)
    (h : folds caseless words = folds caseless words') :
    a.size = b.size ∧ a.groups.size = b.groups.size ∧ a.starts = b.starts := by
  refine ⟨?_, ?_, StartBytes.ext (OrdSet.eq_of_mem_iff fun c => ?_)⟩
  · rw [size_of_insertAll ha, size_of_insertAll hb, h]
  · rw [groups_size_of_insertAll ha, groups_size_of_insertAll hb, h]
  · rw [mem_starts_of_insertAll ha, mem_starts_of_insertAll hb, h]

end Automaton

end Winnow
