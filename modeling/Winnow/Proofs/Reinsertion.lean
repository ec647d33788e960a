import Winnow.Proofs.Layouts
import Winnow.Proofs.Outline.Lookup
import Winnow.Proofs.WellFormed

/-!
# Patterns that were inserted before

Once a pattern has been taken, all that it needs is there and stays there: its planes, its
group, and both forms of its first byte. Inserting it again, or another word with the same
fold, makes nothing new, even where every plane number is taken. Tables are determined by
their outline, so it is enough that the outline gains one number under a word that it has.
-/

namespace Winnow

theorem AsciiCase.fold_eq_of_prefix_cons {caseless : Bool} {b c : UInt8} {bs : List UInt8}
    (h : fold caseless [c] <+: fold caseless (b :: bs)) : fold caseless [c] = fold caseless [b] := by
  obtain ⟨rest, hr⟩ := h
  rw [fold_cons caseless b] at hr
  exact (List.append_inj hr (by simp)).1

open AsciiCase (fold)

theorem IdGroups.insert_of_mem {g : IdGroups} {k : Nat} {id : PatternId} (h : id ∈ g.get k) :
    g.insert k id = g := by
  apply IdGroups.ext_get (size_insert g k id)
  intro m _ _
  rw [get_insert]
  split
  · rename_i hk
    rw [← hk.1, OrdSet.insert_of_mem h]
  · rfl

namespace Automaton

variable {l : Layout} {a b : Automaton l} {o : Outline}

theorem planes_eq_of_cell (hs : a.size = b.size) (hle : a.size ≤ 256)
    (h : ∀ s, a.cell s = b.cell s) : a.planes = b.planes := by
  apply Array.ext hs
  intro i hi hi'
  apply Plane.ext_get
  intro j
  have hnumber : (UInt8.ofNat i).toNat = i := by
    rw [UInt8.toNat_ofNat']
    have hlt := Nat.lt_of_lt_of_le hi hle
    omega
  have hc := h ⟨.ofNat i, j⟩
  simpa [cell, plane, hnumber, hi, hi'] using hc

theorem Follows.unique (h : a.Follows o) (h' : b.Follows o) : a = b := by
  have hcell : ∀ s, a.cell s = b.cell s := by
    intro s
    rcases h.cell_cases s with hs | ⟨n, hn, hp, hi, hs⟩
    · rcases h'.cell_cases s with hs' | ⟨n, hn, hp, hi, hs'⟩
      · rw [hs, hs']
      · have hc := h.cell_eq n hn s.symbol hi
        rw [← hp] at hc
        exact hc.trans hs'.symm
    · have hc := h'.cell_eq n hn s.symbol hi
      rw [← hp] at hc
      exact hs.trans hc.symm
  have hsize : a.size = b.size := h.size_eq.trans h'.size_eq.symm
  calc a = ⟨a.caseless, a.planes, a.groups, a.starts⟩ := rfl
    _ = b := by
      rw [h.caseless_eq.trans h'.caseless_eq.symm, planes_eq_of_cell hsize h.size_le hcell,
        h.groups_eq h' rfl rfl, h.starts_eq.trans h'.starts_eq.symm]

end Automaton

namespace Outline

variable {l : Layout} {o : Outline} {p q : List UInt8} {id : PatternId}

/-- All that a pattern takes is there. -/
structure Holds (l : Layout) (o : Outline) (p : List UInt8) : Prop where
  nodes : path l o.caseless [] p ⊆ o.nodes
  ends : fold o.caseless p ∈ o.ends
  starts : ∀ c, fold o.caseless [c] <+: fold o.caseless p → c ∈ o.starts.bytes

theorem mark_of_mem {v : List UInt8} (h : v ∈ o.ends) (id : PatternId) :
    o.mark v id = { o with marks := o.marks ++ [(v, id)] } := by
  rw [mark, if_pos h]

theorem holds_insert (hp : p ≠ []) (h : (o.insert l p id).2 = true) :
    (o.insert l p id).1.Holds l p := by
  obtain ⟨b, bs, rfl⟩ := List.exists_cons_of_ne_nil hp
  have hnodes := nodes_insert_cons (l := l) o b bs id
  have hstarts := starts_insert_cons (l := l) o b bs id
  have hroom := room_of_insert h
  constructor
  · rw [caseless_insert, hnodes]
    exact subset_grow hroom
  · rw [caseless_insert]
    simp only [insert, hroom, ↓reduceIte, mark]
    split
    · assumption
    · exact List.mem_append_right _ (List.mem_singleton.2 rfl)
  · intro c hc
    rw [caseless_insert] at hc
    rw [hstarts, mem_starts_noteStart]
    exact Or.inr (AsciiCase.fold_eq_of_prefix_cons hc)

namespace Holds

theorem insert (h : o.Holds l p) (q : List UInt8) (id : PatternId) :
    (o.insert l q id).1.Holds l p := by
  cases q with
  | nil => exact h
  | cons b bs =>
    constructor
    · rw [caseless_insert, nodes_insert_cons]
      exact List.Subset.trans h.nodes (prefix_grow _ _).subset
    · rw [caseless_insert]
      simp only [Outline.insert]
      split
      · simp only [mark]
        split
        · exact h.ends
        · exact List.mem_append_left _ h.ends
      · exact h.ends
    · intro c hc
      rw [caseless_insert] at hc
      rw [starts_insert_cons, mem_starts_noteStart]
      exact Or.inl (h.starts c hc)

theorem insertEach (h : o.Holds l p) (words : List (List UInt8 × PatternId)) :
    (o.insertEach l words).Holds l p := by
  induction words generalizing o with
  | nil => exact h
  | cons w ws ih => exact ih (h.insert w.1 w.2)

theorem congr (h : o.Holds l p) (hq : fold o.caseless q = fold o.caseless p) : o.Holds l q := by
  constructor
  · rw [path_congr [] hq]
    exact h.nodes
  · rw [hq]
    exact h.ends
  · rw [hq]
    exact h.starts

theorem noteStart_eq {b : UInt8} {bs : List UInt8} (h : o.Holds l (b :: bs)) :
    o.noteStart b = o := by
  have hmem : ∀ c, c = (AsciiCase.forms o.caseless b).1 ∨ c = (AsciiCase.forms o.caseless b).2 →
      c ∈ o.starts.bytes := by
    intro c hc
    apply h.starts
    rw [AsciiCase.fold_eq_fold_iff.2 hc, AsciiCase.fold_cons o.caseless b bs]
    exact List.prefix_append _ _
  rw [noteStart, StartBytes.insert_of_mem (hmem _ (Or.inl rfl)),
    StartBytes.insert_of_mem (hmem _ (Or.inr rfl))]

theorem insert_eq (hp : p ≠ []) (h : o.Holds l p) (id : PatternId) :
    o.insert l p id = ({ o with marks := o.marks ++ [(fold o.caseless p, id)] }, true) := by
  obtain ⟨b, bs, rfl⟩ := List.exists_cons_of_ne_nil hp
  rw [Outline.insert, h.noteStart_eq, grown_of_subset h.nodes, room_of_subset h.nodes]
  simp only [↓reduceIte, mark_of_mem h.ends]

end Holds

end Outline

namespace Automaton

variable {l : Layout} {a : Automaton l} {o : Outline} {p q : List UInt8}

namespace Follows

theorem group_range (h : a.Follows o) {v : List UInt8} (hv : v ∈ o.ends) :
    1 ≤ numberIn o.ends v ∧ numberIn o.ends v ≤ a.groups.size := by
  rw [h.groups_size]
  exact ⟨Nat.pos_of_ne_zero (mt numberIn_eq_zero_iff.1 (not_not.2 hv)), numberIn_le_length _ _⟩

theorem joined (h : a.Follows o) {v : List UInt8} (hv : v ∈ o.ends) (id : PatternId) :
    Follows { a with groups := a.groups.insert (numberIn o.ends v) id }
      { o with marks := o.marks ++ [(v, id)] } := by
  obtain ⟨hpos, hle⟩ := h.group_range hv
  have hvalid := h.valid.mark (h.valid.node_of_end v hv).1 (h.valid.node_of_end v hv).2 id
  have hmem := fun u i => h.mem_group_mark hvalid u i
  rw [Outline.mark_of_mem hv] at hvalid hmem
  refine ⟨hvalid, h.caseless_eq, h.starts_eq, h.size_eq, h.blank, h.cell_eq, ?_, ?_⟩
  · exact (IdGroups.size_insert _ _ _).trans h.groups_size
  · intro u i
    rw [IdGroups.mem_get_insert hpos hle]
    exact hmem u i

theorem group_of_word (h : a.Follows o) (hp : p ≠ []) :
    (a.lastRead root p).terminal.toNat = numberIn o.ends (fold o.caseless p) := by
  rw [h.lastRead_root hp, h.valid.terminal_cell, Int.toNat_natCast]
  rfl

theorem insert_of_holds (h : a.Follows o) (hp : p ≠ []) (hh : o.Holds l p) (id : PatternId) :
    a.insert p id =
      ({ a with groups := a.groups.insert (numberIn o.ends (fold o.caseless p)) id }, .ok ()) := by
  -- the tables after the insertion follow the same outline as those with only the group changed
  obtain ⟨hf, hres⟩ := h.insert p id
  rw [hh.insert_eq hp] at hf hres
  exact Prod.ext (hf.unique (h.joined hh.ends id)) hres

end Follows

variable {caseless : Bool} {before after : List (List UInt8 × PatternId)} {i j : PatternId}

theorem holds_of_taken (hp : p ≠ [])
    (h : (((empty caseless : Automaton l).insertEach before).insert p i).2 = .ok ()) :
    ((Outline.empty caseless).insertEach l (before ++ (p, i) :: after)).Holds l p := by
  obtain ⟨-, hres⟩ := ((follows_empty (l := l) caseless).insertEach before).insert p i
  rw [Outline.insertEach_append]
  rcases ifRoom_cases hres with ⟨hroom, -⟩ | ⟨-, he⟩
  · exact (Outline.holds_insert hp hroom).insertEach after
  · rw [he] at h
    cases h

/-- Once a pattern was taken, inserting a word of the same fold succeeds, whatever came in
between, and changes nothing but the group that the pattern ends on, which the number joins. -/
theorem insert_joins (hp : p ≠ [])
    (h : (((empty caseless : Automaton l).insertEach before).insert p i).2 = .ok ())
    (hq : fold caseless q = fold caseless p) :
    let a : Automaton l := (empty caseless).insertEach (before ++ (p, i) :: after)
    let group := (a.lastRead root p).terminal.toNat
    (1 ≤ group ∧ group ≤ a.groups.size) ∧
    a.insert q j = ({ a with groups := a.groups.insert group j }, .ok ()) ∧
    (∀ k, (a.groups.insert group j).get k =
      if k = group then (a.groups.get k).insert j else a.groups.get k) ∧
    (j ∈ a.groups.get group → a.insert q j = (a, .ok ())) := by
  intro a group
  have hf := (follows_empty (l := l) caseless).insertEach (before ++ (p, i) :: after)
  have hholds : ((Outline.empty caseless).insertEach l (before ++ (p, i) :: after)).Holds l p :=
    holds_of_taken hp h
  have hcaseless : ((Outline.empty caseless).insertEach l (before ++ (p, i) :: after)).caseless =
      caseless := Outline.caseless_insertEach _ _
  have hne : q ≠ [] := by
    intro hnil
    rw [hnil, AsciiCase.fold_nil] at hq
    exact hp (AsciiCase.fold_eq_nil_iff.1 hq.symm)
  rw [← hcaseless] at hq
  have hrange : 1 ≤ group ∧ group ≤ a.groups.size := by
    have hr := hf.group_range hholds.ends
    rwa [← hf.group_of_word hp] at hr
  have hinsert : a.insert q j = ({ a with groups := a.groups.insert group j }, .ok ()) := by
    have hi := hf.insert_of_holds hne (hholds.congr hq) j
    rwa [hq, ← hf.group_of_word hp] at hi
  refine ⟨hrange, hinsert, ?_, ?_⟩
  · intro k
    rw [IdGroups.get_insert]
    simp only [eq_comm (a := group), Nat.lt_of_succ_le hrange.1, hrange.2, and_true]
  · intro hj
    rw [hinsert, IdGroups.insert_of_mem hj]

theorem insert_joins_of_full_tables :
    let a : Automaton .nibble := (empty true).insertEach
      ([] ++ ([0x41, 0x40], .of .accept 1) :: [(List.replicate 255 0x62, .of .accept 2)])
    let group := (a.lastRead root [0x41, 0x40]).terminal.toNat
    ([0x41, 0x40] : List UInt8) ≠ [] ∧
      (((empty true : Automaton .nibble).insertEach []).insert [0x41, 0x40] (.of .accept 1)).2 =
        .ok () ∧
      fold true [0x61, 0x40] = fold true [0x41, 0x40] ∧
      a.insert [0x61, 0x40] (.of .reject 1) =
        ({ a with groups := a.groups.insert group (.of .reject 1) }, .ok ()) := by
  intro a group
  have hne : ([0x41, 0x40] : List UInt8) ≠ [] := List.cons_ne_nil _ _
  have htaken : (((empty true : Automaton .nibble).insertEach []).insert [0x41, 0x40]
      (.of .accept 1)).2 = .ok () := rfl
  have hfold : fold true [0x61, 0x40] = fold true [0x41, 0x40] := by decide
  exact ⟨hne, htaken, hfold, (insert_joins hne htaken hfold).2.1⟩

end Automaton

end Winnow
