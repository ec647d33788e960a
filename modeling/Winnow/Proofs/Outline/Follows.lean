import Winnow.Proofs.Outline.Growth
import Winnow.Proofs.Table.Cell

/-!
# Automata follow outlines

An automaton follows an outline when the planes stand for the nodes in order, plane 1
for the first, each cell leads to the plane of its child and names the group of the
child's word, and each group holds what was entered under its word. The tables are
then determined by the outline.

Each operation of the automaton is matched by one on outlines, also where it fails:
what was made before the failure follows the outline that was reached.
-/

namespace Winnow

open AsciiCase (fold forms)
open Node (child site)

namespace Outline

/-- The number of the plane that stands for a node, 0 if there is none. -/
def plane (o : Outline) (n : Node) : UInt8 := .ofNat (numberIn o.nodes n)

def endNumber (o : Outline) : Node → Nat
  | .word v => numberIn o.ends v
  | .half _ _ => 0

def cell (o : Outline) (n : Node) : Cell := .ofFields (o.plane n) (o.endNumber n)

def slot (l : Layout) (o : Outline) (w : List UInt8) (b : UInt8) : Slot :=
  ⟨o.plane (site l w b).1, (site l w b).2⟩

def LeadsTo (l : Layout) (o : Outline) (n : Node) (s : Slot) : Prop :=
  ∃ m ∈ o.nodes, ∃ i < l.width, s = ⟨o.plane m, i⟩ ∧ child l o.caseless m i = n

@[simp] theorem target_cell (o : Outline) (n : Node) : (o.cell n).target = o.plane n :=
  Cell.target_ofFields _ _

theorem endNumber_le (o : Outline) (n : Node) : o.endNumber n ≤ o.ends.length := by
  cases n with
  | word v => exact numberIn_le_length _ _
  | half w high => exact Nat.zero_le _

theorem plane_of_prefix {o o' : Outline} {m : Node} (h : o.nodes <+: o'.nodes) (hm : m ∈ o.nodes) :
    o'.plane m = o.plane m := by
  obtain ⟨ns, hns⟩ := h
  simp only [plane, ← hns, numberIn_append_of_mem hm]

theorem plane_grown_of_mem {o : Outline} {m : Node} (hm : m ∈ o.nodes) (xs : List Node) :
    (o.grown xs).plane m = o.plane m :=
  plane_of_prefix (prefix_grow o.nodes xs) hm

theorem slot_grown_of_mem {l : Layout} {o : Outline} {w : List UInt8} {b : UInt8}
    (hm : (site l w b).1 ∈ o.nodes) (xs : List Node) :
    (o.grown xs).slot l w b = o.slot l w b := by
  simp only [slot, plane_grown_of_mem hm]

theorem endNumber_mark_self (o : Outline) (v : List UInt8) (id : PatternId) :
    numberIn (o.mark v id).ends v = if v ∈ o.ends then numberIn o.ends v else o.ends.length + 1 := by
  simp only [mark]
  split
  · rfl
  · rename_i hv
    exact numberIn_concat_self hv

theorem endNumber_mark_of_ne (o : Outline) {u v : List UInt8} (h : u ≠ v) (id : PatternId) :
    numberIn (o.mark v id).ends u = numberIn o.ends u := by
  simp only [mark]
  split
  · rfl
  · exact numberIn_concat_of_ne h

theorem mem_marks_mark (o : Outline) (u v : List UInt8) (i id : PatternId) :
    (u, i) ∈ (o.mark v id).marks ↔ (u, i) ∈ o.marks ∨ u = v ∧ i = id := by
  simp [mark]

namespace Valid

variable {l : Layout} {o : Outline} {m n : Node}

theorem toNat_plane (h : o.Valid l) (n : Node) : (o.plane n).toNat = numberIn o.nodes n := by
  have hn := numberIn_le_length o.nodes n
  have hl := h.length_le
  unfold Automaton.maxPlane at hl
  rw [plane, UInt8.toNat_ofNat']
  omega

theorem plane_eq_zero_iff (h : o.Valid l) : o.plane n = 0 ↔ n ∉ o.nodes := by
  rw [← UInt8.toNat_inj, h.toNat_plane]
  exact numberIn_eq_zero_iff

theorem plane_inj (h : o.Valid l) (hm : m ∈ o.nodes) (he : o.plane m = o.plane n) : m = n := by
  rw [← UInt8.toNat_inj, h.toNat_plane, h.toNat_plane] at he
  exact numberIn_inj hm he

theorem length_ends_lt (h : o.Valid l) : o.ends.length < 2 ^ 23 := by
  have he := h.length_ends_le
  have hl := h.length_le
  unfold Automaton.maxPlane at hl
  omega

theorem terminal_cell (h : o.Valid l) (n : Node) : (o.cell n).terminal = o.endNumber n := by
  have hn := o.endNumber_le n
  have hl := h.length_ends_lt
  exact Cell.terminal_ofFields _ (by omega) (by omega)

theorem endNumber_of_not_mem (h : o.Valid l) (hn : n ∉ o.nodes) : o.endNumber n = 0 := by
  cases n with
  | word v => exact numberIn_eq_zero_iff.2 fun hv => hn (h.node_of_end v hv).2
  | half w high => rfl

theorem cell_of_not_mem (h : o.Valid l) (hn : n ∉ o.nodes) : o.cell n = .empty := by
  apply Cell.ext_fields
  · simpa using h.plane_eq_zero_iff.2 hn
  · rw [h.terminal_cell, h.endNumber_of_not_mem hn]
    rfl

theorem leadsTo_iff (h : o.Valid l) (hm : m ∈ o.nodes) {i : Nat} (hi : i < l.width) :
    o.LeadsTo l n ⟨o.plane m, i⟩ ↔ child l o.caseless m i = n := by
  constructor
  · intro ⟨m', _, j, _, hs, hc⟩
    rw [Slot.mk.injEq] at hs
    rw [h.plane_inj hm hs.1, hs.2]
    exact hc
  · intro hc
    exact ⟨m, hm, i, hi, rfl, hc⟩

theorem not_leadsTo_zero (h : o.Valid l) (n : Node) (i : Nat) : ¬o.LeadsTo l n ⟨0, i⟩ := by
  intro ⟨m, hm, j, _, hs, _⟩
  exact h.plane_eq_zero_iff.1 (congrArg Slot.plane hs).symm hm

theorem cell_concat (h : o.Valid l) (hv : Valid l { o with nodes := o.nodes ++ [n] })
    (new : n ∉ o.nodes) (m : Node) :
    cell { o with nodes := o.nodes ++ [n] } m =
      if m = n then (o.cell m).setTarget (.ofNat (o.nodes.length + 1)) else o.cell m := by
  by_cases hm : m = n
  · subst hm
    rw [if_pos rfl]
    apply Cell.ext_fields
    · rw [Cell.target_setTarget, target_cell, plane, numberIn_concat_self new]
    · rw [Cell.terminal_setTarget, h.terminal_cell, hv.terminal_cell]
      rfl
  · rw [if_neg hm, cell, plane, numberIn_concat_of_ne hm]
    rfl

theorem cell_mark {v : List UInt8} {id : PatternId} (h : (o.mark v id).Valid l) (n : Node) :
    (o.mark v id).cell n = if n = .word v
      then (o.cell n).setTerminal (numberIn (o.mark v id).ends v) else o.cell n := by
  by_cases hn : n = .word v
  · have hk := numberIn_le_length (o.mark v id).ends v
    have hl := h.length_ends_lt
    rw [if_pos hn, hn]
    apply Cell.ext_fields
    · rw [Cell.target_setTerminal, target_cell, target_cell]
      rfl
    · rw [Cell.terminal_setTerminal _ (by omega) (by omega), h.terminal_cell]
      rfl
  · have hk : (o.mark v id).endNumber n = o.endNumber n := by
      cases n with
      | word u => exact o.endNumber_mark_of_ne (fun e => hn (congrArg _ e)) id
      | half u high => rfl
    rw [if_neg hn, cell, cell, hk]
    rfl

end Valid

end Outline

namespace Automaton

variable {l : Layout}

theorem allocate_of_room {a : Automaton l} (h : a.size ≤ maxPlane) :
    a.allocate = .ok (.ofNat a.size, { a with planes := a.planes.push .blank }) := by
  simp [allocate, h]

theorem allocate_of_full {a : Automaton l} (h : ¬a.size ≤ maxPlane) :
    a.allocate = .error (.automatonFull maxPlane) := by
  simp [allocate, h]

theorem cell_push_blank (a : Automaton l) (s : Slot) :
    cell { a with planes := a.planes.push .blank } s = a.cell s := by
  have h : plane { a with planes := a.planes.push .blank } s.plane = a.plane s.plane := by
    simp only [plane, Array.getElem?_push]
    split
    · rename_i he
      simp [he]
    · rfl
  simp only [cell, h]

theorem size_push_blank (a : Automaton l) :
    size { a with planes := a.planes.push .blank } = a.size + 1 :=
  Array.size_push _

theorem size_lead (a : Automaton l) (s t : Slot) (next : UInt8) :
    (a.lead s t next).size = a.size := by
  simp [lead]

theorem cell_of_size_le (a : Automaton l) {s : Slot} (h : a.size ≤ s.plane.toNat) :
    a.cell s = .empty := by
  have hp : a.plane s.plane = .blank := by
    simp [plane, Array.getElem?_eq_none (show a.planes.size ≤ s.plane.toNat from h)]
  simp [cell, hp]

theorem cell_of_width_le (a : Automaton l) {s : Slot} (h : l.width ≤ s.symbol) :
    a.cell s = .empty := by
  simp [cell, Plane.get, Vector.getElem?_eq_none h]

theorem cell_lead (a : Automaton l) {s t : Slot} (next : UInt8)
    (hs : s.plane.toNat < a.size ∧ s.symbol < l.width)
    (ht : t.plane.toNat < a.size ∧ t.symbol < l.width) (x : Slot) :
    (a.lead s t next).cell x =
      if x = s ∨ x = t then (a.cell x).setTarget next else a.cell x := by
  simp only [lead, cell_setCell, size_setCell, hs, ht, and_self, and_true]
  by_cases hxt : x = t
  · subst hxt
    by_cases hxs : x = s
    · subst hxs
      simp only [↓reduceIte, true_or]
      exact Cell.ext_fields (by simp) (by simp)
    · simp [Ne.symm hxs]
  · by_cases hxs : x = s
    · subst hxs
      simp [Ne.symm hxt]
    · simp [hxs, hxt, Ne.symm hxs, Ne.symm hxt]

/-- What an operation returns that fails only where no plane number is left. -/
def ifRoom {β : Type} (room : Bool) (b : β) : Except Error β :=
  if room then .ok b else .error (.automatonFull maxPlane)

theorem ifRoom_cases {β : Type} {r : Automaton l × Except Error β} {room : Bool} {b : β}
    (h : r.2 = ifRoom room b) :
    room = true ∧ r = (r.1, .ok b) ∨
      room = false ∧ r = (r.1, .error (.automatonFull maxPlane)) := by
  cases room with
  | true => exact Or.inl ⟨rfl, Prod.ext rfl h⟩
  | false => exact Or.inr ⟨rfl, Prod.ext rfl h⟩

structure Follows (a : Automaton l) (o : Outline) : Prop where
  valid : o.Valid l
  caseless_eq : a.caseless = o.caseless
  starts_eq : a.starts = o.starts
  size_eq : a.size = o.nodes.length + 1
  blank : ∀ i, a.cell ⟨0, i⟩ = .empty
  cell_eq : ∀ n ∈ o.nodes, ∀ i < l.width, a.cell ⟨o.plane n, i⟩ = o.cell (child l o.caseless n i)
  groups_size : a.groups.size = o.ends.length
  mem_group : ∀ v id, id ∈ a.groups.get (numberIn o.ends v) ↔ (v, id) ∈ o.marks

theorem follows_empty (caseless : Bool) :
    (empty caseless : Automaton l).Follows (.empty caseless) where
  valid := Outline.valid_empty l caseless
  caseless_eq := rfl
  starts_eq := rfl
  size_eq := rfl
  blank i := by simp [cell, plane, empty]
  cell_eq n hn i hi := by
    have hb : (empty caseless : Automaton l).cell ⟨(Outline.empty caseless).plane n, i⟩ = .empty := by
      cases List.mem_singleton.1 hn
      simp [cell, plane, empty, Outline.plane, Outline.empty, numberIn]
    rw [hb, (Outline.valid_empty l caseless).cell_of_not_mem]
    exact fun hc => Node.child_ne_root _ _ _ _ (List.mem_singleton.1 hc)
  groups_size := rfl
  mem_group v id := by simp [empty, Outline.empty, numberIn]

end Automaton

end Winnow
