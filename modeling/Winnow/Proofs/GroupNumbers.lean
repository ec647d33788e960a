import Winnow.Proofs.WellFormed

/-!
# There is always a number for a group

Each group is that of a word, and the word has a plane to itself besides the two that are
always there. So there are at most 254 groups, whatever is inserted, and an insertion can
only fail for want of a plane. `insertChecked` inserts as `insert` does, with a check in
front of each number that is written to a cell; the check holds wherever it is made.
-/

namespace Winnow

open AsciiCase (fold)

theorem Outline.Valid.number_range {l : Layout} {o : Outline} (h : o.Valid l) {v : List UInt8}
    (hv : v ∈ o.ends) : 1 ≤ numberIn o.ends v ∧ numberIn o.ends v ≤ 254 := by
  have hle := numberIn_le_length o.ends v
  have hends := h.length_ends_le
  have hnodes := h.length_le
  unfold Automaton.maxPlane at hnodes
  constructor
  · exact Nat.pos_of_ne_zero (mt numberIn_eq_zero_iff.1 (not_not.2 hv))
  · omega

namespace Automaton

variable {l : Layout} {a : Automaton l} {o : Outline}

section Checked

/-- The pattern is only enlisted under a number from 1 to 254. -/
def enlistChecked (a : Automaton l) (s : Slot) (group : Nat) (id : PatternId) :
    Option (Automaton l) :=
  if 1 ≤ group ∧ group ≤ 254 then some (a.enlist s group id) else none

def markChecked (a : Automaton l) (s : Slot) (id : PatternId) (made : Option Nat) :
    Option (Automaton l × Except Error (Option Nat)) :=
  if (a.cell s).terminal ≠ 0 then
    (a.enlistChecked s (a.cell s).terminal.toNat id).map fun a => (a, .ok made)
  else match made with
    | some group => (a.enlistChecked s group id).map fun a => (a, .ok made)
    | none =>
      match a.groups.allocate with
      | .error e => some (a, .error e)
      | .ok (group, groups) =>
        ({ a with groups }.enlistChecked s group id).map fun a => (a, .ok (some group))

def markFormsChecked (a : Automaton l) (s t : Slot) (id : PatternId) :
    Option (Automaton l × Except Error Unit) :=
  match a.markChecked s id none with
  | none => none
  | some (a, .error e) => some (a, .error e)
  | some (a, .ok made) =>
    if s = t then some (a, .ok ())
    else match a.markChecked t id made with
      | none => none
      | some (a, .error e) => some (a, .error e)
      | some (a, .ok _) => some (a, .ok ())

def insertChecked (a : Automaton l) (pattern : List UInt8) (id : PatternId) :
    Option (Automaton l × Except Error Unit) :=
  match pattern with
  | [] => some (a, .ok ())
  | b :: bs =>
    match (a.noteStart b).descendAlong root b bs with
    | (a, .error e) => some (a, .error e)
    | (a, .ok (s, t)) => a.markFormsChecked s t id

variable {s t : Slot} {g : IdGroups} {k : Nat} {id : PatternId}

theorem enlistChecked_of_range (a : Automaton l) (s : Slot) (id : PatternId)
    (hk : 1 ≤ k ∧ k ≤ 254) : a.enlistChecked s k id = some (a.enlist s k id) :=
  if_pos hk

theorem markFormsChecked_of_named (hs : s.plane.toNat < a.size ∧ s.symbol < l.width)
    (hk : 1 ≤ k ∧ k ≤ 254) (hcs : (a.cell s).terminal = k) (hct : (a.cell t).terminal = k) :
    a.markFormsChecked s t id = some (a.enlistForms s t k id, .ok ()) := by
  have hk0 : (k : Int) ≠ 0 := by omega
  have h1 : a.markChecked s id none = some (a.enlist s k id, .ok none) := by
    rw [markChecked, hcs, if_pos hk0, Int.toNat_natCast, enlistChecked_of_range a s id hk]
    rfl
  rw [markFormsChecked, h1]
  by_cases hst : s = t
  · simp [hst, enlistForms]
  · have h2 : ((a.enlist s k id).cell t).terminal = k := by
      rw [cell_enlist a k id hs, if_neg (Ne.symm hst), hct]
    simp [hst, enlistForms, markChecked, h2, Nat.ne_of_gt hk.1, enlistChecked_of_range _ t id hk]

theorem markFormsChecked_of_unnamed (hs : s.plane.toNat < a.size ∧ s.symbol < l.width)
    (hk : 1 ≤ k ∧ k ≤ 254) (hg : a.groups.allocate = .ok (k, g))
    (hcs : (a.cell s).terminal = 0) (hct : (a.cell t).terminal = 0) :
    a.markFormsChecked s t id = some (enlistForms { a with groups := g } s t k id, .ok ()) := by
  have h1 : a.markChecked s id none =
      some (enlist { a with groups := g } s k id, .ok (some k)) := by
    simp [markChecked, hcs, hg, enlistChecked_of_range _ s id hk]
  rw [markFormsChecked, h1]
  by_cases hst : s = t
  · simp [hst, enlistForms]
  · have h2 : ((enlist { a with groups := g } s k id).cell t).terminal = 0 := by
      rw [cell_enlist { a with groups := g } k id hs, if_neg (Ne.symm hst)]
      exact hct
    simp [hst, enlistForms, markChecked, h2, enlistChecked_of_range _ t id hk]

end Checked

namespace Follows

theorem groups_size_add_two_le (h : a.Follows o) : a.groups.size + 2 ≤ a.size := by
  have hends := h.valid.length_ends_le
  rw [h.groups_size, h.size_eq]
  omega

theorem terminal_slot (h : a.Follows o) {u : List UInt8} {c f : UInt8}
    (hn : .word (u ++ fold o.caseless [c]) ∈ o.nodes)
    (hf : fold o.caseless [f] = fold o.caseless [c]) :
    (a.cell (o.slot l u f)).terminal = numberIn o.ends (u ++ fold o.caseless [c]) := by
  have hs := h.valid.grown.site_mem (hf ▸ hn)
  rw [h.cell_form hs hf, h.valid.terminal_cell]
  rfl

theorem markFormsChecked (h : a.Follows o) {u : List UInt8} {c : UInt8}
    (hn : .word (u ++ fold o.caseless [c]) ∈ o.nodes) (id : PatternId) :
    let s := o.slot l u (AsciiCase.forms o.caseless c).1
    let t := o.slot l u (AsciiCase.forms o.caseless c).2
    a.markFormsChecked s t id = some (a.markForms s t id) := by
  have hr := h.slot_in_range u (AsciiCase.forms o.caseless c).1
  have hc1 := h.terminal_slot hn (AsciiCase.fold_eq_fold_iff.2 (Or.inl rfl))
  have hc2 := h.terminal_slot hn (AsciiCase.fold_eq_fold_iff.2 (Or.inr rfl))
  have hv : u ++ fold o.caseless [c] ≠ [] := by
    intro he
    simpa using congrArg List.length he
  generalize u ++ fold o.caseless [c] = v at *
  intro s t
  -- both cells name the group that the word has, or none, and then the next number is free
  by_cases hm : v ∈ o.ends
  · have hk := h.valid.number_range hm
    rw [markFormsChecked_of_named hr hk hc1 hc2, markForms_of_named id hr hk.1 hc1 hc2]
  · obtain ⟨g, ha, -, -⟩ := h.allocate_groups
    have hk := (h.valid.mark hv hn id).number_range (v := v) (by simp [Outline.mark, hm])
    rw [o.endNumber_mark_self, if_neg hm] at hk
    rw [numberIn_eq_zero_iff.2 hm] at hc1 hc2
    rw [markFormsChecked_of_unnamed hr hk ha hc1 hc2, markForms_of_unnamed id hr ha hc1 hc2]

theorem insertChecked (h : a.Follows o) (pattern : List UInt8) (id : PatternId) :
    a.insertChecked pattern id = some (a.insert pattern id) := by
  cases pattern with
  | nil => rfl
  | cons b bs =>
    obtain ⟨a', u, c, h1, -, ⟨-, hn, he⟩ | ⟨-, he⟩⟩ := h.descendPattern b bs
    · rw [Automaton.insertChecked, Automaton.insert, he]
      exact h1.markFormsChecked hn id
    · rw [Automaton.insertChecked, Automaton.insert, he]

end Follows

/-- Whatever was inserted, there are fewer groups than planes by two at least, no number but one
from 1 to 254 is written to a cell, and an insertion fails only for want of a plane. -/
theorem insert_within_groups (caseless : Bool) (words : List (List UInt8 × PatternId)) :
    let a : Automaton l := (empty caseless).insertEach words
    a.groups.size + 2 ≤ a.size ∧ a.size ≤ 256 ∧ ∀ pattern id,
      a.insertChecked pattern id = some (a.insert pattern id) ∧
      ((a.insert pattern id).2 = .ok () ∨
        (a.insert pattern id).2 = .error (.automatonFull maxPlane)) := by
  intro a
  have h : a.Follows ((Outline.empty caseless).insertEach l words) :=
    (follows_empty caseless).insertEach words
  refine ⟨h.groups_size_add_two_le, h.size_le, ?_⟩
  intro pattern id
  refine ⟨h.insertChecked pattern id, ?_⟩
  rcases ifRoom_cases (h.insert pattern id).2 with ⟨-, he⟩ | ⟨-, he⟩
  · left
    rw [he]
  · right
    rw [he]

end Automaton

end Winnow
