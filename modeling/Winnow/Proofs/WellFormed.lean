import Winnow.Proofs.Outline.Reading

/-!
# The tables between insertions

Whatever is inserted, refused patterns among it, the tables keep their shape. Cells only
lead to planes made later, each plane but the first two is led to, and states stand for
folded words. Both forms of a letter are read alike, so when a pattern is inserted the
two cells that are found for a byte never lead to different states.
-/

namespace Winnow

open AsciiCase (fold)
open Node (child site)

namespace Automaton

variable {l : Layout} {a : Automaton l} {o : Outline} {caseless : Bool}

/-- The second of the two cells that are found for a byte leads nowhere yet, or to the
state that is taken. -/
def Agrees (a : Automaton l) (state byte : UInt8) : Prop :=
  ∀ a' s t, a.locateForms state byte = (a', .ok (s, t)) →
    (a'.cell t).target = 0 ∨ a'.next? s t = some (a'.cell t).target

def AgreesAlong (a : Automaton l) (state byte : UInt8) : List UInt8 → Prop
  | [] => a.Agrees state byte
  | b :: bs => a.Agrees state byte ∧
    match a.descend state byte with
    | (_, .error _) => True
    | (a, .ok (next, _)) => AgreesAlong a next b bs

structure WellFormed (caseless : Bool) (a : Automaton l) : Prop where
  plane_zero : a.plane 0 = .blank
  two_le_size : 2 ≤ a.size
  size_le : a.size ≤ 256
  two_le_target : ∀ s, (a.cell s).target ≠ 0 → 2 ≤ (a.cell s).target
  plane_lt_target : ∀ s, (a.cell s).target ≠ 0 → s.plane < (a.cell s).target
  target_lt_size : ∀ s, (a.cell s).target.toNat < a.size
  exists_cell_of_plane : ∀ p : UInt8, 2 ≤ p → p.toNat < a.size → ∃ s, (a.cell s).target = p
  state_lt_size : ∀ w p, a.reach? root w = some p → p.toNat < a.size
  state_eq_iff : ∀ v w p q, a.reach? root v = some p → a.reach? root w = some q →
    (p = q ↔ fold caseless v = fold caseless w)
  terminal_nonneg : ∀ s, 0 ≤ (a.cell s).terminal
  terminal_le : ∀ s, (a.cell s).terminal ≤ a.groups.size
  target_of_terminal : ∀ s, (a.cell s).terminal ≠ 0 → (a.cell s).target ≠ 0
  group_ne_empty : ∀ k, 1 ≤ k → k ≤ a.groups.size → a.groups.get k ≠ ∅
  step_upper : caseless = true → ∀ w p, a.reach? root w = some p →
    ∀ b, a.step p (AsciiCase.upper b) = a.step p (AsciiCase.lower b)
  agrees_along : ∀ b bs, (a.noteStart b).AgreesAlong root b bs

namespace Follows

theorem plane_zero (h : a.Follows o) : a.plane 0 = .blank :=
  Plane.ext_get fun i => (h.blank i).trans (Plane.get_blank i).symm

theorem size_le (h : a.Follows o) : a.size ≤ 256 := by
  have hl := h.valid.length_le
  rw [h.size_eq]
  exact Nat.succ_le_succ hl

theorem two_le_size (h : a.Follows o) : 2 ≤ a.size := by
  rw [h.size_eq]
  exact Nat.succ_le_succ (List.length_pos_of_mem h.valid.grown.root_mem)

theorem child_of_target (h : a.Follows o) {s : Slot} (ht : (a.cell s).target ≠ 0) :
    ∃ n ∈ o.nodes, ∃ i < l.width, s.plane = o.plane n ∧ child l o.caseless n i ∈ o.nodes ∧
      (a.cell s).target = o.plane (child l o.caseless n i) := by
  rcases h.cell_cases s with hs | ⟨n, hn, hp, hi, hs⟩
  · rw [hs] at ht
    exact absurd rfl ht
  · rw [hs, Outline.target_cell] at ht ⊢
    exact ⟨n, hn, _, hi, hp, not_not.1 (mt h.valid.plane_eq_zero_iff.2 ht), rfl⟩

theorem plane_lt_target (h : a.Follows o) {s : Slot} (ht : (a.cell s).target ≠ 0) :
    s.plane < (a.cell s).target := by
  obtain ⟨n, hn, i, hi, hp, hc, he⟩ := h.child_of_target ht
  rw [hp, he, UInt8.lt_iff_toNat_lt, h.valid.toNat_plane, h.valid.toNat_plane]
  exact h.valid.grown.number_lt_child (h.valid.grown.fits hn) hi hc

theorem two_le_target (h : a.Follows o) {s : Slot} (ht : (a.cell s).target ≠ 0) :
    2 ≤ (a.cell s).target := by
  obtain ⟨n, hn, i, hi, hp, hc, he⟩ := h.child_of_target ht
  have hlt := h.valid.grown.number_lt_child (h.valid.grown.fits hn) hi hc
  have hpos : 0 < numberIn o.nodes n := Nat.pos_of_ne_zero (mt numberIn_eq_zero_iff.1 (not_not.2 hn))
  rw [he, UInt8.le_iff_toNat_le, h.valid.toNat_plane]
  exact Nat.lt_of_le_of_lt hpos hlt

theorem target_lt_size (h : a.Follows o) (s : Slot) : (a.cell s).target.toNat < a.size := by
  rcases h.cell_cases s with hs | ⟨n, -, -, -, hs⟩
  · rw [hs]
    exact Nat.lt_of_lt_of_le Nat.zero_lt_two h.two_le_size
  · rw [hs, Outline.target_cell]
    exact h.plane_lt_size _

theorem exists_cell_of_plane (h : a.Follows o) {p : UInt8} (h2 : 2 ≤ p) (hp : p.toNat < a.size) :
    ∃ s, (a.cell s).target = p := by
  have h2 : 2 ≤ p.toNat := UInt8.le_iff_toNat_le.1 h2
  rw [h.size_eq] at hp
  have hk : p.toNat - 1 < o.nodes.length := by omega
  have hn : numberIn o.nodes o.nodes[p.toNat - 1] = p.toNat := by
    rw [numberIn_getElem h.valid.grown.nodup]
    omega
  have hr : o.nodes[p.toNat - 1] ≠ .word [] := by
    intro he
    rw [he, h.valid.grown.numberIn_root] at hn
    omega
  obtain ⟨n, hm, i, hi, hc⟩ := h.valid.grown.exists_parent (List.getElem_mem hk) hr
  refine ⟨⟨o.plane n, i⟩, ?_⟩
  rw [h.cell_eq n hm i hi, Outline.target_cell, hc, ← UInt8.toNat_inj, h.valid.toNat_plane, hn]

theorem mem_of_reach? (h : a.Follows o) {w : List UInt8} {p : UInt8}
    (hw : a.reach? root w = some p) :
    .word (fold o.caseless w) ∈ o.nodes ∧ p = o.plane (.word (fold o.caseless w)) := by
  rw [h.reach?_root] at hw
  split at hw
  · exact ⟨by assumption, (Option.some.inj hw).symm⟩
  · cases hw

theorem state_eq_iff (h : a.Follows o) {v w : List UInt8} {p q : UInt8}
    (hv : a.reach? root v = some p) (hw : a.reach? root w = some q) :
    p = q ↔ fold o.caseless v = fold o.caseless w := by
  obtain ⟨hm, rfl⟩ := h.mem_of_reach? hv
  obtain ⟨-, rfl⟩ := h.mem_of_reach? hw
  constructor
  · intro he
    exact Node.word.inj (h.valid.plane_inj hm he)
  · intro he
    rw [he]

theorem terminal_nonneg (h : a.Follows o) (s : Slot) : 0 ≤ (a.cell s).terminal := by
  rcases h.cell_cases s with hs | ⟨n, -, -, -, hs⟩
  · simp [hs]
  · rw [hs, h.valid.terminal_cell]
    exact Int.natCast_nonneg _

theorem terminal_le (h : a.Follows o) (s : Slot) : (a.cell s).terminal ≤ a.groups.size := by
  rcases h.cell_cases s with hs | ⟨n, -, -, -, hs⟩
  · simp [hs]
  · rw [hs, h.valid.terminal_cell, h.groups_size]
    exact Int.ofNat_le.2 (o.endNumber_le _)

theorem target_of_terminal (h : a.Follows o) {s : Slot} (ht : (a.cell s).terminal ≠ 0) :
    (a.cell s).target ≠ 0 := by
  rcases h.cell_cases s with hs | ⟨n, -, -, -, hs⟩
  · exact absurd (congrArg Cell.terminal hs) ht
  · rw [hs] at ht ⊢
    intro he
    rw [Outline.target_cell, h.valid.plane_eq_zero_iff] at he
    rw [h.valid.cell_of_not_mem he] at ht
    exact ht rfl

theorem group_ne_empty (h : a.Follows o) {k : Nat} (h1 : 1 ≤ k) (hk : k ≤ a.groups.size) :
    a.groups.get k ≠ ∅ := by
  rw [h.groups_size] at hk
  have hlt : k - 1 < o.ends.length := by omega
  obtain ⟨id, hm⟩ := (h.valid.mem_ends_iff _).1 (List.getElem_mem hlt)
  have hid := (h.mem_group _ id).2 hm
  rw [numberIn_getElem h.valid.ends_nodup, Nat.sub_add_cancel h1] at hid
  intro he
  rw [he] at hid
  exact OrdSet.not_mem_empty id hid

theorem step_upper (h : a.Follows o) (hc : o.caseless = true) {w : List UInt8} {p : UInt8}
    (hw : a.reach? root w = some p) (b : UInt8) :
    a.step p (AsciiCase.upper b) = a.step p (AsciiCase.lower b) := by
  obtain ⟨hm, rfl⟩ := h.mem_of_reach? hw
  rw [h.step_eq hm, h.step_eq hm, hc]
  simp only [fold, ↓reduceIte, List.map_cons, List.map_nil, AsciiCase.lower_upper,
    AsciiCase.lower_lower]

theorem agrees (h : a.Follows o) {w : List UInt8} (hw : .word w ∈ o.nodes) (b : UInt8) :
    a.Agrees (o.plane (.word w)) b := by
  intro a' s t he
  obtain ⟨h1, hr1⟩ := h.locateForms hw b
  rw [he] at h1 hr1
  generalize hxs : halves l w (AsciiCase.forms o.caseless b).1 ++
    halves l w (AsciiCase.forms o.caseless b).2 = xs at h1 hr1
  cases hroom : o.room xs with
  | false =>
    rw [hroom] at hr1
    cases hr1
  | true =>
    rw [hroom] at hr1
    cases hr1
    have hsub : xs ⊆ (o.grown xs).nodes := subset_grow hroom
    rw [← hxs, List.append_subset, hxs] at hsub
    have hw1 := word_mem_grown hw xs
    have hs := site_mem_of_halves hw1 hsub.1
    have ht := site_mem_of_halves hw1 hsub.2
    have hn := h1.next?_eq hs ht
    have hc := h1.cell_form ht (AsciiCase.fold_eq_fold_iff.2 (Or.inr rfl))
    rw [Outline.caseless_grown] at hn hc
    rw [hn, hc, Outline.target_cell, h1.valid.plane_eq_zero_iff]
    by_cases hv : .word (w ++ fold o.caseless [b]) ∈ (o.grown xs).nodes
    · exact Or.inr (if_pos hv)
    · exact Or.inl hv

theorem agreesAlong (h : a.Follows o) {w : List UInt8} (hw : .word w ∈ o.nodes) (b : UInt8)
    (bs : List UInt8) : a.AgreesAlong (o.plane (.word w)) b bs := by
  induction bs generalizing a o w b with
  | nil => exact h.agrees hw b
  | cons c cs ih =>
    refine ⟨h.agrees hw b, ?_⟩
    obtain ⟨h1, hr1⟩ := h.descend hw b
    rcases ifRoom_cases hr1 with ⟨hroom, hd⟩ | ⟨hroom, hd⟩
    · rw [hd]
      exact ih h1 (subset_grow hroom (by simp [below])) c
    · rw [hd]
      trivial

theorem wellFormed (h : a.Follows o) : a.WellFormed o.caseless where
  plane_zero := h.plane_zero
  two_le_size := h.two_le_size
  size_le := h.size_le
  two_le_target _ := h.two_le_target
  plane_lt_target _ := h.plane_lt_target
  target_lt_size := h.target_lt_size
  exists_cell_of_plane _ := h.exists_cell_of_plane
  state_lt_size w p hw := (h.mem_of_reach? hw).2 ▸ h.plane_lt_size _
  state_eq_iff _ _ _ _ := h.state_eq_iff
  terminal_nonneg := h.terminal_nonneg
  terminal_le := h.terminal_le
  target_of_terminal _ := h.target_of_terminal
  group_ne_empty _ := h.group_ne_empty
  step_upper hc _ _ hw := h.step_upper hc hw
  agrees_along b bs := by
    have hn := h.noteStart b
    have hr := hn.agreesAlong hn.valid.grown.root_mem b bs
    rwa [hn.plane_root] at hr

end Follows

/-- The tables are well formed after any insertions, whether any is refused or not. -/
theorem wellFormed_insertEach (caseless : Bool) (words : List (List UInt8 × PatternId)) :
    ((empty caseless : Automaton l).insertEach words).WellFormed caseless := by
  have h := ((follows_empty caseless).insertEach words).wellFormed (l := l)
  rwa [Outline.caseless_insertEach] at h

end Automaton

end Winnow
