import Winnow.Proofs.Outline.Follows

/-!
# Going down follows the outline

Going down a byte makes the halves of both of its forms and then the plane of the
longer word, each if it is missing. `Follows.add` says what a new plane does to the
tables; `locate`, `descend` and `descendAlong` each reach what `Outline.grown` says, and
find the cells of both forms where `Outline.slot` says.
-/

namespace Winnow.Automaton

open AsciiCase (fold)
open Node (child site)

variable {l : Layout} {a b : Automaton l} {o : Outline} {w : List UInt8} {f : UInt8}

namespace Follows

theorem plane_lt_size (h : a.Follows o) (n : Node) : (o.plane n).toNat < a.size := by
  rw [h.valid.toNat_plane, h.size_eq]
  exact Nat.lt_succ_of_le (numberIn_le_length _ _)

theorem slot_in_range (h : a.Follows o) (w : List UInt8) (f : UInt8) :
    (o.slot l w f).plane.toNat < a.size ∧ (o.slot l w f).symbol < l.width :=
  ⟨h.plane_lt_size _, Node.site_lt_width l w f⟩

theorem cell_slot (h : a.Follows o) {w : List UInt8} {f : UInt8} (hs : (site l w f).1 ∈ o.nodes) :
    a.cell (o.slot l w f) = o.cell (.word (w ++ fold o.caseless [f])) := by
  rw [Outline.slot, h.cell_eq _ hs _ (Node.site_lt_width l w f), Node.child_site]

theorem slot_eq_iff (h : a.Follows o) {w : List UInt8} {f : UInt8} {m : Node} (hm : m ∈ o.nodes)
    {i : Nat} : (⟨o.plane m, i⟩ : Slot) = o.slot l w f ↔ site l w f = (m, i) := by
  constructor
  · intro he
    rw [Outline.slot, Slot.mk.injEq] at he
    exact Prod.ext (h.valid.plane_inj hm he.1).symm he.2.symm
  · intro he
    rw [Outline.slot, he]

theorem plane_new (h : a.Follows o) {n : Node} (new : n ∉ o.nodes) :
    Outline.plane { o with nodes := o.nodes ++ [n] } n = .ofNat a.size := by
  rw [Outline.plane, numberIn_concat_self new, h.size_eq]

theorem add (h : a.Follows o) {n : Node} (new : n ∉ o.nodes)
    (room : o.nodes.length < maxPlane) (rests : n.RestsOn l o.caseless o.nodes)
    (caseless_eq : b.caseless = a.caseless) (starts_eq : b.starts = a.starts)
    (groups_eq : b.groups = a.groups) (size_eq : b.size = a.size + 1)
    (leads : Slot → Prop) [DecidablePred leads] (leads_iff : ∀ s, leads s ↔ o.LeadsTo l n s)
    (cell_eq : ∀ s, b.cell s = if leads s then (a.cell s).setTarget (.ofNat a.size) else a.cell s) :
    b.Follows { o with nodes := o.nodes ++ [n] } := by
  have hv := h.valid.add new room rests
  have toNat_size : (UInt8.ofNat a.size).toNat = a.size := by
    rw [← h.plane_new new, hv.toNat_plane, numberIn_concat_self new, h.size_eq]
  refine ⟨hv, caseless_eq.trans h.caseless_eq, starts_eq.trans h.starts_eq, ?_, ?_, ?_, ?_, ?_⟩
  · rw [size_eq, h.size_eq, List.length_append]
    rfl
  · intro i
    rw [cell_eq, if_neg (mt (leads_iff _).1 (h.valid.not_leadsTo_zero n i)), h.blank]
  · intro m hm i hi
    rcases List.mem_append.1 hm with hm | hm
    · have plane_eq : Outline.plane { o with nodes := o.nodes ++ [n] } m = o.plane m := by
        simp only [Outline.plane, numberIn_append_of_mem hm]
      rw [plane_eq, cell_eq, h.cell_eq m hm i hi, h.valid.cell_concat hv new, h.size_eq]
      exact if_congr ((leads_iff _).trans (h.valid.leadsTo_iff hm hi)) rfl rfl
    · -- the new plane is blank, and nothing below its node is there yet
      cases List.mem_singleton.1 hm
      rw [h.plane_new new, cell_eq, if_neg, a.cell_of_size_le (by simp [toNat_size])]
      · exact (hv.cell_of_not_mem (h.valid.grown.child_not_mem_concat new rests hi)).symm
      · intro hl
        obtain ⟨m, -, j, -, hs, -⟩ := (leads_iff _).1 hl
        have hp := h.plane_lt_size m
        have he : UInt8.ofNat a.size = o.plane m := congrArg Slot.plane hs
        rw [← he, toNat_size] at hp
        exact absurd hp (Nat.lt_irrefl _)
  · rw [groups_eq]
    exact h.groups_size
  · rw [groups_eq]
    exact h.mem_group

theorem size_le_maxPlane_iff (h : a.Follows o) :
    a.size ≤ maxPlane ↔ o.nodes.length < maxPlane := by
  rw [h.size_eq]
  exact Nat.succ_le_iff

theorem half_new {a : Automaton .nibble} (h : a.Follows o) (hw : .word w ∈ o.nodes) {high : Nat}
    (hh : high < 16) (new : .half w high ∉ o.nodes) (room : o.nodes.length < maxPlane) :
    let fresh : Automaton .nibble := { a with planes := a.planes.push .blank }
    let s : Slot := ⟨o.plane (.word w), high⟩
    (fresh.setCell s ((fresh.cell s).setTarget (.ofNat a.size))).Follows
      { o with nodes := o.nodes ++ [.half w high] } := by
  intro fresh s
  have hp : s.plane.toNat < a.size := h.plane_lt_size (.word w)
  refine h.add new room ⟨rfl, hh, hw⟩ rfl rfl rfl ?_ (· = s) ?_ ?_
  · rw [size_setCell, size_push_blank]
  · intro x
    constructor
    · intro hx
      exact ⟨_, hw, _, hh, hx, rfl⟩
    · intro ⟨m, hm, i, hi, hx, hc⟩
      obtain ⟨rfl, rfl⟩ := Node.child_eq_half_iff.1 hc
      exact hx
  · intro x
    simp only [fresh, cell_setCell, cell_push_blank, size_push_blank, Nat.lt_succ_of_lt hp,
      show s.symbol < Layout.nibble.width from hh, and_true]
    by_cases hx : x = s
    · simp [hx]
    · simp [hx, Ne.symm hx]

theorem locate (h : a.Follows o) {w : List UInt8} (hw : .word w ∈ o.nodes) (f : UInt8) :
    (a.locate (o.plane (.word w)) f).1.Follows (o.grown (halves l w f)) ∧
    (a.locate (o.plane (.word w)) f).2 =
      ifRoom (o.room (halves l w f)) ((o.grown (halves l w f)).slot l w f) := by
  cases l with
  | byte => exact ⟨h, rfl⟩
  | nibble =>
    have hh := Node.highNibble_lt f
    have hcell := h.cell_eq _ hw _ hh
    change a.cell ⟨o.plane (.word w), highNibble f⟩ = o.cell (.half w (highNibble f)) at hcell
    simp only [Automaton.locate, hcell, Outline.target_cell, halves]
    by_cases hm : .half w (highNibble f) ∈ o.nodes
    · have hp : o.plane (.half w (highNibble f)) ≠ 0 := fun he => h.valid.plane_eq_zero_iff.1 he hm
      have hs : [.half w (highNibble f)] ⊆ o.nodes := by simpa using hm
      rw [o.grown_of_subset hs, o.room_of_subset hs, if_pos hp]
      exact ⟨h, rfl⟩
    · rw [if_neg (not_not.2 (h.valid.plane_eq_zero_iff.2 hm))]
      by_cases hr : o.nodes.length < maxPlane
      · obtain ⟨hg, hroom⟩ := Outline.grown_singleton_of_room hm hr
        rw [hg, hroom, allocate_of_room (h.size_le_maxPlane_iff.2 hr)]
        refine ⟨h.half_new hw hh hm hr, ?_⟩
        simp only [ifRoom, ↓reduceIte, Outline.slot, site, h.plane_new hm]
      · obtain ⟨hg, hroom⟩ := Outline.grown_singleton_of_full hm hr
        rw [hg, hroom, allocate_of_full (mt h.size_le_maxPlane_iff.1 hr)]
        exact ⟨h, rfl⟩

theorem word_mem_grown (hw : .word w ∈ o.nodes) (xs : List Node) : .word w ∈ (o.grown xs).nodes :=
  mem_grow_of_mem hw xs

theorem site_mem_of_halves {ns : List Node} (hw : .word w ∈ ns) (hs : halves l w f ⊆ ns) :
    (site l w f).1 ∈ ns := by
  cases l with
  | byte => exact hw
  | nibble => exact hs (List.mem_singleton.2 rfl)

theorem locateForms (h : a.Follows o) (hw : .word w ∈ o.nodes) (b : UInt8) :
    let f := AsciiCase.forms o.caseless b
    let xs := halves l w f.1 ++ halves l w f.2
    (a.locateForms (o.plane (.word w)) b).1.Follows (o.grown xs) ∧
    (a.locateForms (o.plane (.word w)) b).2 =
      ifRoom (o.room xs) ((o.grown xs).slot l w f.1, (o.grown xs).slot l w f.2) := by
  have hforms : a.forms b = AsciiCase.forms o.caseless b := by
    rw [← h.caseless_eq]
    rfl
  rcases hf : AsciiCase.forms o.caseless b with ⟨first, second⟩
  obtain ⟨h1, hr1⟩ := h.locate hw first
  simp only [Automaton.locateForms, hforms, hf, o.grown_append, o.room_append]
  rcases ifRoom_cases hr1 with ⟨hroom1, he1⟩ | ⟨hroom1, he1⟩
  · rw [he1, hroom1]
    generalize (a.locate (o.plane (.word w)) first).1 = a1 at h1
    have hs1 := site_mem_of_halves (word_mem_grown hw _) (subset_grow hroom1)
    by_cases he : first = second
    · subst he
      have hsub : halves l w first ⊆ (o.grown (halves l w first)).nodes := subset_grow hroom1
      rw [Outline.grown_of_subset hsub, Outline.room_of_subset hsub]
      simpa [ifRoom] using h1
    · obtain ⟨h2, hr2⟩ := h1.locate (word_mem_grown hw _) second
      rw [Outline.plane_grown_of_mem hw] at h2 hr2
      simp only [↓reduceIte, he, Bool.true_and]
      rcases ifRoom_cases hr2 with ⟨hroom2, he2⟩ | ⟨hroom2, he2⟩
      · rw [he2, hroom2]
        refine ⟨h2, ?_⟩
        simp only [ifRoom, ↓reduceIte, Outline.slot_grown_of_mem hs1]
      · rw [he2, hroom2]
        exact ⟨h2, rfl⟩
  · rw [he1, hroom1]
    exact ⟨h1, rfl⟩

theorem congr (h : a.Follows o) (caseless_eq : b.caseless = a.caseless)
    (starts_eq : b.starts = a.starts) (groups_eq : b.groups = a.groups)
    (size_eq : b.size = a.size) (cell_eq : ∀ s, b.cell s = a.cell s) : b.Follows o where
  valid := h.valid
  caseless_eq := caseless_eq.trans h.caseless_eq
  starts_eq := starts_eq.trans h.starts_eq
  size_eq := size_eq.trans h.size_eq
  blank i := (cell_eq _).trans (h.blank i)
  cell_eq n hn i hi := (cell_eq _).trans (h.cell_eq n hn i hi)
  groups_size := groups_eq ▸ h.groups_size
  mem_group := groups_eq ▸ h.mem_group

theorem cell_form (h : a.Follows o) {b : UInt8}
    (hs : (site l w f).1 ∈ o.nodes) (hf : fold o.caseless [f] = fold o.caseless [b]) :
    a.cell (o.slot l w f) = o.cell (.word (w ++ fold o.caseless [b])) := by
  rw [h.cell_slot hs, hf]

theorem slot_form_iff (h : a.Follows o) {b : UInt8}
    (h1 : (site l w (AsciiCase.forms o.caseless b).1).1 ∈ o.nodes)
    (h2 : (site l w (AsciiCase.forms o.caseless b).2).1 ∈ o.nodes) (s : Slot) :
    (s = o.slot l w (AsciiCase.forms o.caseless b).1 ∨
      s = o.slot l w (AsciiCase.forms o.caseless b).2) ↔
    o.LeadsTo l (.word (w ++ fold o.caseless [b])) s := by
  constructor
  · rintro (rfl | rfl)
    · refine ⟨_, h1, _, Node.site_lt_width l w _, rfl, ?_⟩
      rw [Node.child_site, AsciiCase.fold_eq_fold_iff.2 (Or.inl rfl)]
    · refine ⟨_, h2, _, Node.site_lt_width l w _, rfl, ?_⟩
      rw [Node.child_site, AsciiCase.fold_eq_fold_iff.2 (Or.inr rfl)]
  · rintro ⟨m, hm, i, hi, rfl, hc⟩
    obtain ⟨f, hf, hs⟩ := (Node.child_eq_word_iff (h.valid.grown.fits hm) hi).1 hc
    rw [h.slot_eq_iff hm, h.slot_eq_iff hm]
    rcases AsciiCase.fold_eq_fold_iff.1 hf with rfl | rfl
    · exact Or.inl hs
    · exact Or.inr hs

theorem lead_of_mem (h : a.Follows o) {n : Node} {s t : Slot}
    (hs : s.plane.toNat < a.size ∧ s.symbol < l.width)
    (ht : t.plane.toNat < a.size ∧ t.symbol < l.width)
    (hcs : a.cell s = o.cell n) (hct : a.cell t = o.cell n) :
    (a.lead s t (o.plane n)).Follows o := by
  have keep : (o.cell n).setTarget (o.plane n) = o.cell n :=
    Cell.ext_fields (by simp) (by simp)
  refine h.congr rfl rfl rfl (size_lead _ _ _ _) fun x => ?_
  rw [cell_lead a _ hs ht]
  split
  · rename_i hx
    rcases hx with rfl | rfl
    · rw [hcs, keep]
    · rw [hct, keep]
  · rfl

section Forms

variable {b : UInt8} (h : a.Follows o)
  (hs : (site l w (AsciiCase.forms o.caseless b).1).1 ∈ o.nodes)
  (ht : (site l w (AsciiCase.forms o.caseless b).2).1 ∈ o.nodes)

include h hs ht

theorem next?_eq :
    a.next? (o.slot l w (AsciiCase.forms o.caseless b).1)
      (o.slot l w (AsciiCase.forms o.caseless b).2) =
    if .word (w ++ fold o.caseless [b]) ∈ o.nodes then
      some (o.plane (.word (w ++ fold o.caseless [b]))) else none := by
  rw [next?, h.cell_form hs (AsciiCase.fold_eq_fold_iff.2 (Or.inl rfl)),
    h.cell_form ht (AsciiCase.fold_eq_fold_iff.2 (Or.inr rfl)), Outline.target_cell]
  by_cases hv : .word (w ++ fold o.caseless [b]) ∈ o.nodes
  · rw [if_pos fun he => h.valid.plane_eq_zero_iff.1 he hv, if_pos hv]
  · rw [if_neg (not_not.2 (h.valid.plane_eq_zero_iff.2 hv)),
      if_neg (not_not.2 (h.valid.plane_eq_zero_iff.2 hv)), if_neg hv]

theorem lead_new (new : .word (w ++ fold o.caseless [b]) ∉ o.nodes)
    (room : o.nodes.length < maxPlane) :
    (lead { a with planes := a.planes.push .blank }
      (o.slot l w (AsciiCase.forms o.caseless b).1) (o.slot l w (AsciiCase.forms o.caseless b).2)
      (.ofNat a.size)).Follows
    { o with nodes := o.nodes ++ [.word (w ++ fold o.caseless [b])] } := by
  have rests : (Node.word (w ++ fold o.caseless [b])).RestsOn l o.caseless o.nodes := by
    refine ⟨w, b, rfl, fun f hf => ?_⟩
    rcases AsciiCase.fold_eq_fold_iff.1 hf with rfl | rfl
    · exact hs
    · exact ht
  have in_range (f : UInt8) :
      (o.slot l w f).plane.toNat < size { a with planes := a.planes.push .blank } ∧
      (o.slot l w f).symbol < l.width := by
    obtain ⟨hp, hi⟩ := h.slot_in_range w f
    rw [size_push_blank]
    exact ⟨Nat.lt_succ_of_lt hp, hi⟩
  refine h.add new room rests rfl rfl rfl ?_
    (fun s => s = o.slot l w (AsciiCase.forms o.caseless b).1 ∨
      s = o.slot l w (AsciiCase.forms o.caseless b).2) (h.slot_form_iff hs ht) fun s => ?_
  · rw [size_lead, size_push_blank]
  · rw [cell_lead _ _ (in_range _) (in_range _), cell_push_blank]

end Forms

theorem descend (h : a.Follows o) (hw : .word w ∈ o.nodes) (b : UInt8) :
    let f := AsciiCase.forms o.caseless b
    let r := o.grown (below l o.caseless w b)
    (a.descend (o.plane (.word w)) b).1.Follows r ∧
    (a.descend (o.plane (.word w)) b).2 = ifRoom (o.room (below l o.caseless w b))
      (r.plane (.word (w ++ fold o.caseless [b])), r.slot l w f.1, r.slot l w f.2) := by
  obtain ⟨h1, hr1⟩ := h.locateForms hw b
  simp only [Automaton.descend, below, ← List.append_assoc]
  generalize hxs : halves l w (AsciiCase.forms o.caseless b).1 ++
    halves l w (AsciiCase.forms o.caseless b).2 = xs at *
  rcases ifRoom_cases hr1 with ⟨hroom, he⟩ | ⟨hroom, he⟩
  · rw [he, o.grown_append, o.room_append, hroom]
    generalize (a.locateForms (o.plane (.word w)) b).1 = a1 at h1
    have hsub : xs ⊆ (o.grown xs).nodes := subset_grow hroom
    rw [← hxs, List.append_subset, hxs] at hsub
    have hw1 := word_mem_grown hw xs
    have hs := site_mem_of_halves hw1 hsub.1
    have ht := site_mem_of_halves hw1 hsub.2
    have hn := h1.next?_eq hs ht
    rw [Outline.caseless_grown] at hn
    simp only [↓reduceIte, Bool.true_and]
    by_cases hv : .word (w ++ fold o.caseless [b]) ∈ (o.grown xs).nodes
    · have hv' : [.word (w ++ fold o.caseless [b])] ⊆ (o.grown xs).nodes := by simpa using hv
      rw [hn, if_pos hv, Outline.grown_of_subset hv', Outline.room_of_subset hv']
      refine ⟨h1.lead_of_mem (h1.slot_in_range _ _) (h1.slot_in_range _ _) ?_ ?_, rfl⟩
      · exact h1.cell_form hs (AsciiCase.fold_eq_fold_iff.2 (Or.inl rfl))
      · exact h1.cell_form ht (AsciiCase.fold_eq_fold_iff.2 (Or.inr rfl))
    · rw [hn, if_neg hv]
      by_cases hr : (o.grown xs).nodes.length < maxPlane
      · obtain ⟨hg, hroom'⟩ := Outline.grown_singleton_of_room hv hr
        rw [allocate_of_room (h1.size_le_maxPlane_iff.2 hr), hroom']
        constructor
        · rw [hg]
          exact h1.lead_new hs ht hv hr
        · simp only [ifRoom, ↓reduceIte]
          rw [Outline.slot_grown_of_mem hs, Outline.slot_grown_of_mem ht, hg, h1.plane_new hv]
      · obtain ⟨hg, hroom'⟩ := Outline.grown_singleton_of_full hv hr
        rw [allocate_of_full (mt h1.size_le_maxPlane_iff.1 hr), hg, hroom']
        exact ⟨h1, rfl⟩
  · rw [he, o.grown_append, o.room_append, hroom]
    exact ⟨h1, rfl⟩

/-- Down along a word: the cells that are found are those of its last byte. -/
theorem descendAlong (h : a.Follows o) (hw : .word w ∈ o.nodes) {u : List UInt8} {c : UInt8}
    (b : UInt8) (bs : List UInt8) (hu : u ++ fold o.caseless [c] = w ++ fold o.caseless (b :: bs)) :
    let f := AsciiCase.forms o.caseless c
    let r := o.grown (path l o.caseless w (b :: bs))
    (a.descendAlong (o.plane (.word w)) b bs).1.Follows r ∧
    (a.descendAlong (o.plane (.word w)) b bs).2 =
      ifRoom (o.room (path l o.caseless w (b :: bs))) (r.slot l u f.1, r.slot l u f.2) := by
  induction bs generalizing a o w b with
  | nil =>
    obtain ⟨h1, hr1⟩ := h.descend hw b
    obtain ⟨rfl, hc⟩ := List.append_inj' hu (by simp)
    rw [AsciiCase.forms_eq_of_fold_eq hc]
    simp only [path, List.append_nil, Automaton.descendAlong]
    rcases ifRoom_cases hr1 with ⟨hroom, he⟩ | ⟨hroom, he⟩
    · rw [he, hroom]
      exact ⟨h1, rfl⟩
    · rw [he, hroom]
      exact ⟨h1, rfl⟩
  | cons d ds ih =>
    obtain ⟨h1, hr1⟩ := h.descend hw b
    simp only [path_cons l o.caseless w b, o.grown_append, o.room_append, Automaton.descendAlong]
    rcases ifRoom_cases hr1 with ⟨hroom, he⟩ | ⟨hroom, he⟩
    · rw [he, hroom]
      have hw1 : .word (w ++ fold o.caseless [b]) ∈ (o.grown (below l o.caseless w b)).nodes :=
        subset_grow hroom (by simp [below])
      rw [AsciiCase.fold_cons _ b, ← List.append_assoc] at hu
      exact ih h1 hw1 d hu
    · rw [he, hroom]
      exact ⟨h1, rfl⟩

end Follows

end Winnow.Automaton
