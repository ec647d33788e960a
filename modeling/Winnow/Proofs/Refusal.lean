import Winnow.Proofs.Layouts

/-!
# What a refused pattern leaves behind

A pattern is refused where it needs one plane more than there are numbers. The planes that
were made for it until then stay, and so do the bytes that were noted for its start. But
nothing ends in these planes, and the cells that led somewhere lead there still. So the
tables are full then, and no scan tells them from those before.
-/

namespace Winnow

open AsciiCase (fold)
open Node (child)

theorem maxPlane_le_length_grow {ns xs : List Node} (h : (grow ns xs).2 = false) :
    Automaton.maxPlane ≤ (grow ns xs).1.length := by
  induction xs generalizing ns with
  | nil => cases h
  | cons n xs ih =>
    by_cases hn : n ∈ ns
    · rw [grow_cons_of_mem hn] at h ⊢
      exact ih h
    · by_cases hr : ns.length < Automaton.maxPlane
      · rw [grow_cons_of_room hn hr] at h ⊢
        exact ih h
      · rw [grow_cons_of_full hn hr]
        exact Nat.le_of_not_lt hr

theorem Grown.length_lt_of_word_mem {l : Layout} {caseless : Bool} {ns : List Node}
    (h : Grown l caseless ns) {v : List UInt8} (hv : .word v ∈ ns) : v.length < ns.length := by
  induction h generalizing v with
  | root =>
    cases List.mem_singleton.1 hv
    exact Nat.one_pos
  | @add ns n h new rests ih =>
    rw [List.length_append, List.length_singleton]
    rcases List.mem_append.1 hv with hv | hv
    · exact Nat.lt_succ_of_lt (ih hv)
    · obtain rfl := List.mem_singleton.1 hv
      obtain ⟨w, b, rfl, hsite⟩ := rests
      have hw := ih (h.word_mem_of_site (hsite b rfl))
      rw [List.length_append, AsciiCase.length_fold]
      exact Nat.succ_lt_succ hw

namespace Outline

variable {l : Layout} {o o' : Outline} {pattern : List UInt8} {id : PatternId}

/-- There may be more planes in the second outline, at the end, but no more is entered. -/
structure Extends (o o' : Outline) : Prop where
  caseless_eq : o'.caseless = o.caseless
  nodes : o.nodes <+: o'.nodes
  ends_eq : o'.ends = o.ends
  marks_eq : o'.marks = o.marks

theorem Extends.endNumber_eq (h : o.Extends o') (n : Node) : o'.endNumber n = o.endNumber n := by
  cases n with
  | word v => exact congrArg (numberIn · v) h.ends_eq
  | half w high => rfl

/-- A pattern that is refused is not entered, and leaves no plane number free. -/
theorem extends_insert_of_refused (h : (o.insert l pattern id).2 = false) :
    o.Extends (o.insert l pattern id).1 ∧
      Automaton.maxPlane ≤ (o.insert l pattern id).1.nodes.length := by
  cases pattern with
  | nil => cases h
  | cons b bs =>
    have hroom : o.room (path l o.caseless [] (b :: bs)) = false := by
      simp only [insert] at h
      split at h
      · cases h
      · rename_i hroom
        exact Bool.eq_false_iff.2 hroom
    have hinsert : (o.insert l (b :: bs) id).1 =
        (o.noteStart b).grown (path l o.caseless [] (b :: bs)) := by
      simp only [insert, hroom, Bool.false_eq_true, ↓reduceIte]
    rw [hinsert]
    exact ⟨⟨rfl, prefix_grow _ _, rfl, rfl⟩, maxPlane_le_length_grow hroom⟩

theorem word_mem_insert_of_room (hne : pattern ≠ []) (h : (o.insert l pattern id).2 = true) :
    .word (fold o.caseless pattern) ∈ (o.insert l pattern id).1.nodes := by
  cases pattern with
  | nil => exact absurd rfl hne
  | cons b bs =>
    rw [nodes_insert_cons]
    exact subset_grow (room_of_insert h) (word_mem_path l o.caseless [] hne)

theorem insertEach_concat (o : Outline) (words : List (List UInt8 × PatternId))
    (pattern : List UInt8) (id : PatternId) :
    o.insertEach l (words ++ [(pattern, id)]) = ((o.insertEach l words).insert l pattern id).1 :=
  insertEach_append o words [(pattern, id)]

end Outline

namespace Automaton

variable {l : Layout} {a b : Automaton l} {o o' : Outline} {pattern : List UInt8} {id : PatternId}

theorem insertEach_concat (a : Automaton l) (words : List (List UInt8 × PatternId))
    (pattern : List UInt8) (id : PatternId) :
    a.insertEach (words ++ [(pattern, id)]) = ((a.insertEach words).insert pattern id).1 :=
  insertEach_append a words [(pattern, id)]

namespace Follows

variable (h : a.Follows o) (h' : b.Follows o') (he : o.Extends o')

include h h' he

theorem cell_pair_of_extends {s : Slot} {n : Node} (hn : n ∈ o.nodes) (hp : s.plane = o.plane n)
    (hs : s.symbol < l.width) :
    a.cell s = o.cell (child l o.caseless n s.symbol) ∧
      b.cell s = o'.cell (child l o.caseless n s.symbol) := by
  obtain ⟨p, i⟩ := s
  obtain rfl : p = o.plane n := hp
  refine ⟨h.cell_eq n hn i hs, ?_⟩
  have hb := h'.cell_eq n (he.nodes.subset hn) i hs
  rwa [Outline.plane_of_prefix he.nodes hn, he.caseless_eq] at hb

theorem target_eq_of_extends {s : Slot} (ht : (a.cell s).target ≠ 0) :
    (b.cell s).target = (a.cell s).target := by
  rcases h.cell_cases s with hs | ⟨n, hn, hp, hi, hs⟩
  · rw [hs] at ht
    exact absurd rfl ht
  · obtain ⟨ha, hb⟩ := cell_pair_of_extends h h' he hn hp hi
    rw [ha, Outline.target_cell] at ht ⊢
    rw [hb, Outline.target_cell]
    exact Outline.plane_of_prefix he.nodes (not_not.1 (mt h.valid.plane_eq_zero_iff.2 ht))

theorem terminal_eq_of_extends (s : Slot) : (b.cell s).terminal = (a.cell s).terminal := by
  rcases h.cell_cases s with hs | ⟨n, hn, hp, hi, hs⟩
  · rw [hs]
    rcases h'.cell_cases s with hs' | ⟨n, hn, hp, hi, hs'⟩
    · rw [hs']
    · rw [he.caseless_eq] at hs'
      -- a word has no end where nothing led to it before
      have hchild : child l o.caseless n s.symbol ∉ o.nodes := by
        intro hc
        have hmem := h.valid.grown.parent_mem (h'.valid.grown.fits hn) hi hc
        rw [Outline.plane_of_prefix he.nodes hmem] at hp
        rw [(cell_pair_of_extends h h' he hmem hp hi).1] at hs
        have ht := congrArg Cell.target hs
        rw [Outline.target_cell] at ht
        exact h.valid.plane_eq_zero_iff.1 ht hc
      rw [hs', h'.valid.terminal_cell, he.endNumber_eq, h.valid.endNumber_of_not_mem hchild]
      rfl
  · obtain ⟨ha, hb⟩ := cell_pair_of_extends h h' he hn hp hi
    rw [ha, hb, h.valid.terminal_cell, h'.valid.terminal_cell, he.endNumber_eq]

end Follows

/-- What a refused insertion makes of some tables. -/
structure Undisturbed (a b : Automaton l) : Prop where
  size_eq : b.size = 256
  groups_eq : b.groups = a.groups
  terminal_eq : ∀ s, (b.cell s).terminal = (a.cell s).terminal
  target_eq : ∀ s, (a.cell s).target ≠ 0 → (b.cell s).target = (a.cell s).target
  terminal_of_new : ∀ s, a.size ≤ s.plane.toNat → (b.cell s).terminal = 0
  run_eq : ∀ roster buffer, (Scan.of b roster).run buffer = (Scan.of a roster).run buffer
  exhaustive_run_eq : ∀ roster buffer,
    (Scan.of b roster).exhaustive.run buffer = (Scan.of a roster).exhaustive.run buffer

variable {caseless : Bool} {words : List (List UInt8 × PatternId)} {e : Error}

/-- Where a pattern is refused the tables are full, and read as if it had not been tried. -/
theorem undisturbed_of_refused
    (h : (((empty caseless : Automaton l).insertEach words).insert pattern id).2 = .error e) :
    ((empty caseless : Automaton l).insertEach words).Undisturbed
      (((empty caseless).insertEach words).insert pattern id).1 := by
  have hf := (follows_empty (l := l) caseless).insertEach words
  obtain ⟨hf', hres⟩ := hf.insert pattern id
  have hrefused : (((Outline.empty caseless).insertEach l words).insert l pattern id).2 = false := by
    rcases ifRoom_cases hres with ⟨-, hok⟩ | ⟨hroom, -⟩
    · rw [hok] at h
      cases h
    · exact hroom
  obtain ⟨he, hfull⟩ := Outline.extends_insert_of_refused hrefused
  have hrun (n : Nat) (stop : Bool) (buffer : List UInt8) :
      (Scan.mk (((empty caseless : Automaton l).insertEach words).insert pattern id).1 n stop).run
        buffer = (Scan.mk ((empty caseless : Automaton l).insertEach words) n stop).run buffer := by
    rw [← insertEach_concat, Scan.run_eq rfl, Scan.run_eq rfl, Outline.insertEach_concat,
      Outline.readings_congr he.caseless_eq fun v i => by rw [he.marks_eq]]
  refine ⟨?_, hf'.groups_eq hf he.ends_eq he.marks_eq, hf.terminal_eq_of_extends hf' he,
    fun _ => hf.target_eq_of_extends hf' he, fun s hs => ?_, fun _ _ => hrun _ _ _,
    fun _ _ => hrun _ _ _⟩
  · have hle := hf'.valid.length_le
    rw [hf'.size_eq, Nat.le_antisymm hle hfull]
    rfl
  · rw [hf.terminal_eq_of_extends hf' he, cell_of_size_le _ hs]
    rfl

theorem exists_error_of_length_le (h : maxPlane ≤ pattern.length) :
    ∃ e, (((empty caseless : Automaton l).insertEach words).insert pattern id).2 = .error e := by
  have hf := (follows_empty (l := l) caseless).insertEach words
  obtain ⟨hf', hres⟩ := hf.insert pattern id
  rcases ifRoom_cases hres with ⟨hroom, -⟩ | ⟨-, he⟩
  · have hne : pattern ≠ [] := by
      rintro rfl
      exact absurd h (by decide)
    have hlt := hf'.valid.grown.length_lt_of_word_mem
      (Outline.word_mem_insert_of_room hne hroom)
    have hle := hf'.valid.length_le
    rw [AsciiCase.length_fold] at hlt
    omega
  · exact ⟨_, congrArg Prod.snd he⟩

theorem undisturbed_of_refused_of_long_word :
    let a : Automaton .nibble := (empty true).insertEach [([0x41, 0x40], .of .accept 1)]
    (∃ e, (a.insert (List.replicate 255 0x62) (.of .reject 1)).2 = .error e) ∧
      a.Undisturbed (a.insert (List.replicate 255 0x62) (.of .reject 1)).1 := by
  intro a
  have h : ∃ e, (a.insert (List.replicate 255 0x62) (.of .reject 1)).2 = .error e :=
    exists_error_of_length_le (Nat.le_of_eq List.length_replicate.symm)
  refine ⟨h, ?_⟩
  obtain ⟨e, he⟩ := h
  exact undisturbed_of_refused he

end Automaton

end Winnow
