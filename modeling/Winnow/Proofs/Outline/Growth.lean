import Mathlib.Data.List.Perm.Subperm
import Winnow.Proofs.Outline.Node

/-!
# Outlines

An outline is what an automaton says without its numbers: the nodes that its planes
stand for, the words that its groups are for, and what was entered under which word.
`Outline.insert` enters a pattern: the nodes on its path are made if they are missing,
up to the first for which there is no plane number left.
-/

namespace Winnow

open AsciiCase (fold forms)

/-- Makes what is missing of some nodes, in order; whether all of them are there then. -/
def grow (ns : List Node) : List Node → List Node × Bool
  | [] => (ns, true)
  | n :: rest =>
    if n ∈ ns then grow ns rest
    else if ns.length < Automaton.maxPlane then grow (ns ++ [n]) rest
    else (ns, false)

section Grow

variable {ns xs : List Node} {n : Node}

@[simp] theorem grow_nil (ns : List Node) : grow ns [] = (ns, true) := rfl

theorem grow_cons_of_mem (h : n ∈ ns) (xs : List Node) : grow ns (n :: xs) = grow ns xs := by
  simp [grow, h]

theorem grow_cons_of_room (h : n ∉ ns) (hr : ns.length < Automaton.maxPlane) (xs : List Node) :
    grow ns (n :: xs) = grow (ns ++ [n]) xs := by
  simp [grow, h, hr]

theorem grow_cons_of_full (h : n ∉ ns) (hr : ¬ns.length < Automaton.maxPlane) (xs : List Node) :
    grow ns (n :: xs) = (ns, false) := by
  simp [grow, h, hr]

theorem grow_append (ns xs ys : List Node) :
    grow ns (xs ++ ys) =
      if (grow ns xs).2 then grow (grow ns xs).1 ys else ((grow ns xs).1, false) := by
  induction xs generalizing ns with
  | nil => simp
  | cons n xs ih =>
    by_cases h : n ∈ ns
    · simp only [List.cons_append, grow_cons_of_mem h, ih]
    · by_cases hr : ns.length < Automaton.maxPlane
      · simp only [List.cons_append, grow_cons_of_room h hr, ih]
      · simp [grow_cons_of_full h hr]

theorem prefix_grow (ns xs : List Node) : ns <+: (grow ns xs).1 := by
  induction xs generalizing ns with
  | nil => simp
  | cons n xs ih =>
    by_cases h : n ∈ ns
    · rw [grow_cons_of_mem h]
      exact ih ns
    · by_cases hr : ns.length < Automaton.maxPlane
      · rw [grow_cons_of_room h hr]
        exact (List.prefix_append _ _).trans (ih _)
      · simp [grow_cons_of_full h hr]

theorem mem_grow_of_mem (h : n ∈ ns) (xs : List Node) : n ∈ (grow ns xs).1 :=
  (prefix_grow ns xs).subset h

theorem mem_or_mem_of_mem_grow (h : n ∈ (grow ns xs).1) : n ∈ ns ∨ n ∈ xs := by
  induction xs generalizing ns with
  | nil => exact Or.inl h
  | cons m xs ih =>
    by_cases hm : m ∈ ns
    · rw [grow_cons_of_mem hm] at h
      exact (ih h).imp_right (List.mem_cons_of_mem _)
    · by_cases hr : ns.length < Automaton.maxPlane
      · rw [grow_cons_of_room hm hr] at h
        rcases ih h with h | h
        · rcases List.mem_append.1 h with h | h
          · exact Or.inl h
          · exact Or.inr (List.mem_cons.2 (Or.inl (List.mem_singleton.1 h)))
        · exact Or.inr (List.mem_cons_of_mem _ h)
      · rw [grow_cons_of_full hm hr] at h
        exact Or.inl h

theorem subset_grow (h : (grow ns xs).2 = true) : xs ⊆ (grow ns xs).1 := by
  induction xs generalizing ns with
  | nil => simp
  | cons m xs ih =>
    by_cases hm : m ∈ ns
    · rw [grow_cons_of_mem hm] at h ⊢
      exact List.cons_subset.2 ⟨mem_grow_of_mem hm xs, ih h⟩
    · by_cases hr : ns.length < Automaton.maxPlane
      · rw [grow_cons_of_room hm hr] at h ⊢
        exact List.cons_subset.2 ⟨mem_grow_of_mem (by simp) xs, ih h⟩
      · rw [grow_cons_of_full hm hr] at h
        cases h

theorem grow_of_subset (h : xs ⊆ ns) : grow ns xs = (ns, true) := by
  induction xs with
  | nil => rfl
  | cons m xs ih =>
    obtain ⟨hm, hs⟩ := List.cons_subset.1 h
    rw [grow_cons_of_mem hm, ih hs]

end Grow

def halves (l : Layout) (w : List UInt8) (b : UInt8) : List Node :=
  match l with
  | .byte => []
  | .nibble => [.half w (highNibble b)]

def below (l : Layout) (caseless : Bool) (w : List UInt8) (b : UInt8) : List Node :=
  halves l w (forms caseless b).1 ++
    (halves l w (forms caseless b).2 ++ [.word (w ++ fold caseless [b])])

/-- The nodes that a pattern takes below a word. -/
def path (l : Layout) (caseless : Bool) (w : List UInt8) : List UInt8 → List Node
  | [] => []
  | b :: bs => below l caseless w b ++ path l caseless (w ++ fold caseless [b]) bs

theorem path_cons (l : Layout) (caseless : Bool) (w : List UInt8) (b : UInt8) (bs : List UInt8) :
    path l caseless w (b :: bs) =
      below l caseless w b ++ path l caseless (w ++ fold caseless [b]) bs := rfl

theorem word_mem_path (l : Layout) (caseless : Bool) (w : List UInt8) {bs : List UInt8}
    (h : bs ≠ []) : .word (w ++ fold caseless bs) ∈ path l caseless w bs := by
  induction bs generalizing w with
  | nil => exact absurd rfl h
  | cons b bs ih =>
    rw [path_cons, AsciiCase.fold_cons caseless b bs, ← List.append_assoc]
    by_cases hb : bs = []
    · simp [hb, below]
    · exact List.mem_append_right _ (ih _ hb)

structure Outline where
  caseless : Bool
  nodes : List Node
  ends : List (List UInt8)
  marks : List (List UInt8 × PatternId)
  starts : StartBytes

namespace Outline

def empty (caseless : Bool) : Outline := ⟨caseless, [.word []], [], [], .empty⟩

def mark (o : Outline) (v : List UInt8) (id : PatternId) : Outline :=
  { o with
    ends := if v ∈ o.ends then o.ends else o.ends ++ [v]
    marks := o.marks ++ [(v, id)] }

def noteStart (o : Outline) (b : UInt8) : Outline :=
  { o with starts := (o.starts.insert (forms o.caseless b).1).insert (forms o.caseless b).2 }

def grown (o : Outline) (xs : List Node) : Outline := { o with nodes := (grow o.nodes xs).1 }

def room (o : Outline) (xs : List Node) : Bool := (grow o.nodes xs).2

def insert (l : Layout) (o : Outline) (pattern : List UInt8) (id : PatternId) : Outline × Bool :=
  match pattern with
  | [] => (o, true)
  | b :: bs =>
    let xs := path l o.caseless [] (b :: bs)
    let r := (o.noteStart b).grown xs
    if o.room xs then (r.mark (fold o.caseless (b :: bs)) id, true) else (r, false)

theorem room_of_insert {l : Layout} {o : Outline} {b : UInt8} {bs : List UInt8} {id : PatternId}
    (h : (o.insert l (b :: bs) id).2 = true) : o.room (path l o.caseless [] (b :: bs)) = true := by
  simp only [insert] at h
  split at h
  · assumption
  · cases h

def insertEach (l : Layout) (o : Outline) : List (List UInt8 × PatternId) → Outline
  | [] => o
  | (pattern, id) :: rest => insertEach l (o.insert l pattern id).1 rest

def accepts (l : Layout) (o : Outline) : List (List UInt8 × PatternId) → Bool
  | [] => true
  | (pattern, id) :: rest => (o.insert l pattern id).2 && accepts l (o.insert l pattern id).1 rest

structure Valid (l : Layout) (o : Outline) : Prop where
  grown : Grown l o.caseless o.nodes
  length_le : o.nodes.length ≤ Automaton.maxPlane
  ends_nodup : o.ends.Nodup
  node_of_end : ∀ v ∈ o.ends, v ≠ [] ∧ .word v ∈ o.nodes
  mem_ends_iff : ∀ v, v ∈ o.ends ↔ ∃ id, (v, id) ∈ o.marks

variable {l : Layout} {o : Outline}

@[simp] theorem caseless_grown (o : Outline) (xs : List Node) :
    (o.grown xs).caseless = o.caseless := rfl

@[simp] theorem caseless_noteStart (o : Outline) (b : UInt8) :
    (o.noteStart b).caseless = o.caseless := rfl

theorem grown_append (o : Outline) (xs ys : List Node) :
    o.grown (xs ++ ys) = if o.room xs then (o.grown xs).grown ys else o.grown xs := by
  unfold grown room
  rw [grow_append]
  split <;> rfl

theorem room_append (o : Outline) (xs ys : List Node) :
    o.room (xs ++ ys) = (o.room xs && (o.grown xs).room ys) := by
  unfold grown room
  rw [grow_append]
  split <;> simp [*]

theorem grown_of_subset {xs : List Node} (h : xs ⊆ o.nodes) : o.grown xs = o := by
  rw [grown, grow_of_subset h]

theorem room_of_subset {xs : List Node} (h : xs ⊆ o.nodes) : o.room xs = true := by
  rw [room, grow_of_subset h]

theorem grown_singleton_of_room {n : Node} (new : n ∉ o.nodes)
    (h : o.nodes.length < Automaton.maxPlane) :
    o.grown [n] = { o with nodes := o.nodes ++ [n] } ∧ o.room [n] = true := by
  simp [grown, room, grow_cons_of_room new h]

theorem grown_singleton_of_full {n : Node} (new : n ∉ o.nodes)
    (h : ¬o.nodes.length < Automaton.maxPlane) : o.grown [n] = o ∧ o.room [n] = false := by
  simp [grown, room, grow_cons_of_full new h]

theorem valid_empty (l : Layout) (caseless : Bool) : (empty caseless).Valid l where
  grown := .root
  length_le := by simp [empty, Automaton.maxPlane]
  ends_nodup := List.nodup_nil
  node_of_end := by simp [empty]
  mem_ends_iff := by simp [empty]

namespace Valid

theorem add (h : o.Valid l) {n : Node} (new : n ∉ o.nodes)
    (room : o.nodes.length < Automaton.maxPlane) (rests : n.RestsOn l o.caseless o.nodes) :
    { o with nodes := o.nodes ++ [n] }.Valid l where
  grown := h.grown.add new rests
  length_le := by
    rw [List.length_append]
    exact room
  ends_nodup := h.ends_nodup
  node_of_end v hv := ⟨(h.node_of_end v hv).1, List.mem_append_left _ (h.node_of_end v hv).2⟩
  mem_ends_iff := h.mem_ends_iff

theorem mark (h : o.Valid l) {v : List UInt8} (hv : v ≠ []) (hn : .word v ∈ o.nodes)
    (id : PatternId) : (o.mark v id).Valid l where
  grown := h.grown
  length_le := h.length_le
  ends_nodup := by
    simp only [Outline.mark]
    split
    · exact h.ends_nodup
    · rename_i new
      exact List.nodup_append_comm.1 (List.nodup_cons.2 ⟨new, h.ends_nodup⟩)
  node_of_end u hu := by
    simp only [Outline.mark] at hu
    split at hu
    · exact h.node_of_end u hu
    · rcases List.mem_append.1 hu with hu | hu
      · exact h.node_of_end u hu
      · cases List.mem_singleton.1 hu
        exact ⟨hv, hn⟩
  mem_ends_iff u := by
    have hu := h.mem_ends_iff u
    by_cases huv : u = v
    · subst huv
      have hm : u ∈ if u ∈ o.ends then o.ends else o.ends ++ [u] := by
        split
        · assumption
        · simp
      exact ⟨fun _ => ⟨id, by simp [Outline.mark]⟩, fun _ => hm⟩
    · simp only [Outline.mark]
      split <;> simp [huv, hu]

theorem end_mem_of_mark (h : o.Valid l) {v : List UInt8} {id : PatternId}
    (hm : (v, id) ∈ o.marks) : v ∈ o.ends :=
  (h.mem_ends_iff v).2 ⟨id, hm⟩

theorem length_ends_le (h : o.Valid l) : o.ends.length + 1 ≤ o.nodes.length := by
  have hd : (.word [] :: o.ends.map Node.word).Nodup := by
    refine List.nodup_cons.2 ⟨?_, h.ends_nodup.map fun _ _ => Node.word.inj⟩
    simp only [List.mem_map, Node.word.injEq, exists_eq_right]
    exact fun he => (h.node_of_end [] he).1 rfl
  have hs : .word [] :: o.ends.map Node.word ⊆ o.nodes := by
    refine List.cons_subset.2 ⟨h.grown.root_mem, ?_⟩
    intro n hn
    obtain ⟨v, hv, rfl⟩ := List.mem_map.1 hn
    exact (h.node_of_end v hv).2
  simpa using (List.subperm_of_subset hd hs).length_le

end Valid

end Outline

end Winnow
