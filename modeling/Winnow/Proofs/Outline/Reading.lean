import Winnow.Proofs.Outline.Contents
import Winnow.Proofs.Outline.Insertion

/-!
# Reading an automaton

Reading a byte in the state of a word gives the cell of the longer word, in both
layouts. So a word leads somewhere exactly if its fold has a plane, and the cell that
is read last names what was entered under it.
-/

namespace Winnow

open AsciiCase (fold)
open Node (child site)

def Outline.idsAt (o : Outline) (v : List UInt8) : OrdSet PatternId :=
  .ofList ((o.marks.filter (·.1 == v)).map Prod.snd)

theorem Outline.mem_idsAt {o : Outline} {v : List UInt8} {id : PatternId} :
    id ∈ o.idsAt v ↔ (v, id) ∈ o.marks := by
  simp [idsAt]

theorem Outline.Valid.idsAt_eq_empty_iff {l : Layout} {o : Outline} (h : o.Valid l)
    {v : List UInt8} : o.idsAt v = ∅ ↔ v ∉ o.ends := by
  rw [h.mem_ends_iff]
  constructor
  · rintro he ⟨id, hm⟩
    have hid := Outline.mem_idsAt.2 hm
    rw [he] at hid
    exact OrdSet.not_mem_empty id hid
  · intro hn
    refine OrdSet.eq_of_mem_iff fun id => ?_
    rw [Outline.mem_idsAt]
    simp only [OrdSet.not_mem_empty, iff_false]
    exact fun hm => hn ⟨id, hm⟩

namespace Automaton

variable {l : Layout} {a : Automaton l} {o : Outline} {u v : List UInt8}

def reach? (a : Automaton l) (state : UInt8) : List UInt8 → Option UInt8
  | [] => some state
  | b :: bs =>
    let c := a.step state b
    if c.isDeadEnd then none else reach? a c.target bs

namespace Follows

theorem plane_root (h : a.Follows o) : o.plane (.word []) = root := by
  rw [Outline.plane, h.valid.grown.numberIn_root]
  rfl

theorem step_eq (h : a.Follows o) (hu : .word u ∈ o.nodes) (b : UInt8) :
    a.step (o.plane (.word u)) b = o.cell (.word (u ++ fold o.caseless [b])) := by
  cases l with
  | byte => exact h.cell_slot hu
  | nibble =>
    have hmid : a.cell ⟨o.plane (.word u), highNibble b⟩ = o.cell (.half u (highNibble b)) :=
      h.cell_eq _ hu _ (Node.highNibble_lt b)
    simp only [Automaton.step, hmid, Outline.target_cell, h.valid.plane_eq_zero_iff]
    split
    · rename_i hn
      exact (h.valid.cell_of_not_mem (mt h.valid.grown.site_mem hn)).symm
    · rename_i hn
      exact h.cell_slot (not_not.1 hn)

theorem isDeadEnd_cell (h : a.Follows o) (n : Node) : (o.cell n).isDeadEnd = true ↔ n ∉ o.nodes := by
  rw [Cell.isDeadEnd_iff, Outline.target_cell]
  exact h.valid.plane_eq_zero_iff

theorem reach?_eq (h : a.Follows o) (hu : .word u ∈ o.nodes) (w : List UInt8) :
    a.reach? (o.plane (.word u)) w =
      if .word (u ++ fold o.caseless w) ∈ o.nodes then
        some (o.plane (.word (u ++ fold o.caseless w))) else none := by
  induction w generalizing u with
  | nil => simp [reach?, hu]
  | cons b w ih =>
    rw [AsciiCase.fold_cons o.caseless b w, ← List.append_assoc]
    simp only [reach?, h.step_eq hu, Outline.target_cell, h.isDeadEnd_cell]
    by_cases hb : .word (u ++ fold o.caseless [b]) ∈ o.nodes
    · rw [if_neg (not_not.2 hb), ih hb]
    · rw [if_pos hb, if_neg (mt h.valid.grown.word_mem_of_append hb)]

theorem reach?_root (h : a.Follows o) (w : List UInt8) :
    a.reach? root w =
      if .word (fold o.caseless w) ∈ o.nodes then
        some (o.plane (.word (fold o.caseless w))) else none := by
  have hr := h.reach?_eq h.valid.grown.root_mem w
  rwa [h.plane_root] at hr

theorem cell_cases (h : a.Follows o) (s : Slot) :
    a.cell s = .empty ∨ ∃ n ∈ o.nodes, s.plane = o.plane n ∧ s.symbol < l.width ∧
      a.cell s = o.cell (child l o.caseless n s.symbol) := by
  obtain ⟨p, i⟩ := s
  by_cases hi : i < l.width
  · by_cases hp : p = 0
    · exact Or.inl (hp ▸ h.blank i)
    · by_cases hs : p.toNat < a.size
      · have hpos : 0 < p.toNat := Nat.pos_of_ne_zero fun hz => hp (UInt8.toNat_inj.1 hz)
        have hk : p.toNat - 1 < o.nodes.length := by
          rw [h.size_eq] at hs
          omega
        have hn : p = o.plane o.nodes[p.toNat - 1] := by
          rw [← UInt8.toNat_inj, h.valid.toNat_plane, numberIn_getElem h.valid.grown.nodup]
          omega
        refine Or.inr ⟨_, List.getElem_mem hk, hn, hi, ?_⟩
        have hc := h.cell_eq _ (List.getElem_mem hk) i hi
        rwa [← hn] at hc
      · exact Or.inl (a.cell_of_size_le (Nat.le_of_not_lt hs))
  · exact Or.inl (a.cell_of_width_le (Nat.le_of_not_lt hi))

theorem endsAt_cell (h : a.Follows o) (v : List UInt8) :
    a.endsAt (o.cell (.word v)) = o.idsAt v := by
  refine OrdSet.eq_of_mem_iff fun id => ?_
  rw [Outline.mem_idsAt, endsAt, h.valid.terminal_cell, Int.toNat_natCast]
  exact h.mem_group v id

theorem terminal_cell_eq_zero_iff (h : a.Follows o) (v : List UInt8) :
    (o.cell (.word v)).terminal = 0 ↔ o.idsAt v = ∅ := by
  rw [h.valid.idsAt_eq_empty_iff, h.valid.terminal_cell, Int.natCast_eq_zero]
  exact numberIn_eq_zero_iff

theorem idsAt_of_not_mem (h : a.Follows o) (hv : .word v ∉ o.nodes) : o.idsAt v = ∅ :=
  h.valid.idsAt_eq_empty_iff.2 fun he => hv (h.valid.node_of_end v he).2

end Follows

end Automaton

end Winnow
