import Winnow.Proofs.Scan.Readings

/-!
# The two layouts read alike

The outline in the byte layout is that of the nibble layout without the halves. So what
finds room in the nibble layout does so in the byte layout, the groups get the same
numbers, and where both hold the same words no reading tells them apart.
-/

namespace Winnow

open AsciiCase (fold)

def Node.isWord : Node → Bool
  | .word _ => true
  | .half _ _ => false

theorem grow_filter (p : Node → Bool) {ns xs : List Node} (h : (grow ns xs).2 = true) :
    grow (ns.filter p) (xs.filter p) = ((grow ns xs).1.filter p, true) := by
  induction xs generalizing ns with
  | nil => rfl
  | cons n xs ih =>
    by_cases hn : n ∈ ns
    · rw [grow_cons_of_mem hn] at h ⊢
      by_cases hp : p n = true
      · rw [List.filter_cons_of_pos hp, grow_cons_of_mem (List.mem_filter.2 ⟨hn, hp⟩), ih h]
      · rw [List.filter_cons_of_neg hp, ih h]
    · by_cases hr : ns.length < Automaton.maxPlane
      · rw [grow_cons_of_room hn hr] at h ⊢
        rw [← ih h, List.filter_append]
        by_cases hp : p n = true
        · have hn' : n ∉ ns.filter p := fun hm => hn (List.mem_filter.1 hm).1
          have hr' : (ns.filter p).length < Automaton.maxPlane :=
            Nat.lt_of_le_of_lt (List.length_filter_le _ _) hr
          rw [List.filter_cons_of_pos hp, grow_cons_of_room hn' hr', List.filter_cons_of_pos hp]
          rfl
        · rw [List.filter_cons_of_neg hp, List.filter_cons_of_neg hp]
          simp
      · rw [grow_cons_of_full hn hr] at h
        cases h

theorem filter_path (caseless : Bool) (w bs : List UInt8) :
    (path .nibble caseless w bs).filter Node.isWord = path .byte caseless w bs := by
  induction bs generalizing w with
  | nil => rfl
  | cons b bs ih =>
    rw [path_cons, path_cons, List.filter_append, ih]
    rfl

namespace Outline

def wordsOnly (o : Outline) : Outline := { o with nodes := o.nodes.filter Node.isWord }

variable {o : Outline}

theorem word_mem_wordsOnly {v : List UInt8} :
    .word v ∈ o.wordsOnly.nodes ↔ .word v ∈ o.nodes := by
  simp [wordsOnly, Node.isWord]

theorem insert_wordsOnly {pattern : List UInt8} {id : PatternId}
    (h : (o.insert .nibble pattern id).2 = true) :
    o.wordsOnly.insert .byte pattern id = ((o.insert .nibble pattern id).1.wordsOnly, true) := by
  cases pattern with
  | nil => rfl
  | cons b bs =>
    have hroom : (grow o.nodes (path .nibble o.caseless [] (b :: bs))).2 = true := room_of_insert h
    have hg := grow_filter Node.isWord hroom
    rw [filter_path] at hg
    simp only [insert, room, grown, wordsOnly, noteStart, hg, hroom, ↓reduceIte, mark]
    rfl

theorem insertEach_wordsOnly {words : List (List UInt8 × PatternId)}
    (h : o.accepts .nibble words = true) :
    o.wordsOnly.accepts .byte words = true ∧
      o.wordsOnly.insertEach .byte words = (o.insertEach .nibble words).wordsOnly := by
  induction words generalizing o with
  | nil => exact ⟨rfl, rfl⟩
  | cons w ws ih =>
    simp only [accepts, Bool.and_eq_true] at h
    simp only [accepts, insertEach, insert_wordsOnly h.1, Bool.true_and]
    exact ih h.2

theorem readings_wordsOnly (o : Outline) (buffer : List UInt8) :
    o.wordsOnly.readings buffer = o.readings buffer := by
  have caseless_eq : o.wordsOnly.caseless = o.caseless := rfl
  exact readings_congr caseless_eq (fun _ _ => Iff.rfl) buffer

end Outline

theorem IdGroups.ext_get {g g' : IdGroups} (hs : g.size = g'.size)
    (h : ∀ k, 1 ≤ k → k ≤ g.size → g.get k = g'.get k) : g = g' := by
  obtain ⟨sets⟩ := g
  obtain ⟨sets'⟩ := g'
  refine congrArg IdGroups.mk (Array.ext hs fun i hi hi' => ?_)
  have hk := h (i + 1) (Nat.succ_pos i) hi
  simpa [get, hi, hi'] using hk

namespace Automaton

variable {l l' : Layout} {a : Automaton l} {b : Automaton l'} {o : Outline}

/-- No reading tells two automata apart: their groups and starts are the same, along a
word they meet the first dead end at the same byte and the same groups up to it, and
scans for any patterns give the same verdicts. -/
structure ReadsLike (a : Automaton l) (b : Automaton l') : Prop where
  groups_eq : a.groups = b.groups
  starts_eq : a.starts = b.starts
  walk_eq : ∀ w, (a.walk root w).map (fun c => (c.isDeadEnd, c.terminal)) =
    (b.walk root w).map fun c => (c.isDeadEnd, c.terminal)
  run_eq : ∀ roster buffer, (Scan.of a roster).run buffer = (Scan.of b roster).run buffer
  exhaustive_run_eq : ∀ roster buffer,
    (Scan.of a roster).exhaustive.run buffer = (Scan.of b roster).exhaustive.run buffer

namespace Follows

theorem groups_eq {o' : Outline} (h : a.Follows o) (h' : b.Follows o') (ends_eq : o.ends = o'.ends)
    (marks_eq : o.marks = o'.marks) : a.groups = b.groups := by
  have hs : a.groups.size = b.groups.size := by rw [h.groups_size, h'.groups_size, ends_eq]
  refine IdGroups.ext_get hs fun k h1 hk => OrdSet.eq_of_mem_iff fun id => ?_
  rw [h.groups_size] at hk
  have hlt : k - 1 < o.ends.length := by omega
  have hnum : numberIn o.ends o.ends[k - 1] = k := by
    rw [numberIn_getElem h.valid.ends_nodup]
    omega
  have hm := h.mem_group o.ends[k - 1] id
  have hm' := h'.mem_group o.ends[k - 1] id
  rw [← ends_eq, ← marks_eq, hnum] at hm'
  rw [hnum] at hm
  exact hm.trans hm'.symm

/-- Automata whose outlines have the same words read the same along every word. -/
theorem walk_eq {o' : Outline} (h : a.Follows o) (h' : b.Follows o')
    (caseless_eq : o.caseless = o'.caseless) (ends_eq : o.ends = o'.ends)
    (words_iff : ∀ v, .word v ∈ o.nodes ↔ .word v ∈ o'.nodes) {u : List UInt8}
    (hu : .word u ∈ o.nodes) (w : List UInt8) :
    (a.walk (o.plane (.word u)) w).map (fun c => (c.isDeadEnd, c.terminal)) =
      (b.walk (o'.plane (.word u)) w).map fun c => (c.isDeadEnd, c.terminal) := by
  induction w generalizing u with
  | nil => rfl
  | cons c w ih =>
    have hstep' := h'.step_eq ((words_iff u).1 hu) c
    rw [← caseless_eq] at hstep'
    have hdead' := h'.isDeadEnd_cell (.word (u ++ fold o.caseless [c]))
    rw [← words_iff] at hdead'
    have hterminal : (o.cell (.word (u ++ fold o.caseless [c]))).terminal =
        (o'.cell (.word (u ++ fold o.caseless [c]))).terminal := by
      rw [h.valid.terminal_cell, h'.valid.terminal_cell, Outline.endNumber, Outline.endNumber,
        ends_eq]
    simp only [walk, h.step_eq hu, hstep', Outline.target_cell, h.isDeadEnd_cell, hdead']
    by_cases hc : .word (u ++ fold o.caseless [c]) ∈ o.nodes
    · have hf := mt (h.isDeadEnd_cell _).1 (not_not.2 hc)
      have hf' := mt hdead'.1 (not_not.2 hc)
      rw [Bool.not_eq_true] at hf hf'
      simp only [hc, not_true_eq_false, ↓reduceIte, List.map_cons, hf, hf', hterminal, ih hc]
    · simp only [hc, not_false_eq_true, ↓reduceIte, List.map_cons, List.map_nil, hterminal,
        (h.isDeadEnd_cell _).2 hc, hdead'.2 hc]

end Follows

/-- What the nibble layout takes the byte layout takes, with no more planes, and then
they read alike. -/
theorem byte_readsLike_nibble {caseless : Bool} {words : List (List UInt8 × PatternId)}
    {an : Automaton .nibble} (h : (empty caseless).insertAll words = .ok an) :
    ∃ ab : Automaton .byte, (empty caseless).insertAll words = .ok ab ∧ ab.size ≤ an.size ∧
      ab.ReadsLike an := by
  obtain ⟨hb, hwords⟩ := Outline.insertEach_wordsOnly (accepts_of_insertAll h)
  change (Outline.empty caseless).accepts .byte words = true at hb
  change (Outline.empty caseless).insertEach .byte words = _ at hwords
  have hab : (empty caseless : Automaton .byte).insertAll words =
      .ok ((empty caseless).insertEach words) := by
    rw [(follows_empty caseless).insertAll words, hb]
    rfl
  have hn := follows_of_insertAll h
  have hf := follows_of_insertAll hab
  have hreadings (buffer : List UInt8) :
      ((Outline.empty caseless).insertEach .byte words).readings buffer =
        ((Outline.empty caseless).insertEach .nibble words).readings buffer := by
    rw [hwords, Outline.readings_wordsOnly]
  refine ⟨_, hab, ?_, ?_, ?_, ?_, ?_, ?_⟩
  · rw [hf.size_eq, hn.size_eq, hwords]
    exact Nat.succ_le_succ (List.length_filter_le _ _)
  · exact hf.groups_eq hn (by rw [hwords]; rfl) (by rw [hwords]; rfl)
  · rw [hf.starts_eq, hn.starts_eq, hwords]
    rfl
  · intro w
    have hiff (v : List UInt8) : .word v ∈ ((Outline.empty caseless).insertEach .byte words).nodes ↔
        .word v ∈ ((Outline.empty caseless).insertEach .nibble words).nodes := by
      rw [hwords, Outline.word_mem_wordsOnly]
    have hwalk := hf.walk_eq hn (by simp) (by rw [hwords]; rfl) hiff hf.valid.grown.root_mem w
    rwa [hf.plane_root, hn.plane_root] at hwalk
  · intro roster buffer
    rw [Scan.run_eq_of_insertAll hab rfl, Scan.run_eq_of_insertAll h rfl, hreadings]
    rfl
  · intro roster buffer
    rw [Scan.run_eq_of_insertAll hab rfl, Scan.run_eq_of_insertAll h rfl, hreadings]
    rfl

theorem byte_readsLike_nibble_of_shared_half :
    ∃ an : Automaton .nibble, (empty true).insertAll
        [([0x41, 0x40], .of .accept 1), ([0x61], .of .reject 1)] = .ok an ∧
      ∃ ab : Automaton .byte, (empty true).insertAll
          [([0x41, 0x40], .of .accept 1), ([0x61], .of .reject 1)] = .ok ab ∧
        ab.size ≤ an.size ∧ ab.ReadsLike an :=
  have h : (empty true : Automaton .nibble).insertAll
      [([0x41, 0x40], .of .accept 1), ([0x61], .of .reject 1)] =
        .ok ((empty true).insertEach [([0x41, 0x40], .of .accept 1), ([0x61], .of .reject 1)]) := by
    rfl
  ⟨_, h, byte_readsLike_nibble h⟩

end Automaton

end Winnow
