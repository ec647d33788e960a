import Winnow.Proofs.Outline.Lookup

/-!
# How many planes words take

Two planes are always there. Beyond them each word that some pattern begins with, folded
and not empty, takes one plane. In the nibble layout so does each pair of a word and a high
half that lead on to such a word: the two forms of a letter may have different high halves,
and different bytes may share one.
-/

namespace Winnow

open AsciiCase (fold forms)

/-- The words, other than the empty one, that words of a set begin with. -/
def beginnings (vs : Finset (List UInt8)) : Finset (List UInt8) :=
  vs.biUnion fun v => v.inits.toFinset.erase []

def lastHalves (caseless : Bool) (u : List UInt8) : Finset (List UInt8 × Nat) :=
  match u.getLast? with
  | none => ∅
  | some b => {(u.dropLast, highNibble (forms caseless b).1),
      (u.dropLast, highNibble (forms caseless b).2)}

/-- The words and high halves that lead on to the words of a set. -/
def halfBeginnings (caseless : Bool) (us : Finset (List UInt8)) : Finset (List UInt8 × Nat) :=
  us.biUnion (lastHalves caseless)

variable {l : Layout} {caseless : Bool} {vs us : Finset (List UInt8)} {u v w bs : List UInt8}
  {high : Nat} {words words' : List (List UInt8 × PatternId)}

theorem mem_beginnings : u ∈ beginnings vs ↔ u ≠ [] ∧ ∃ v ∈ vs, u <+: v := by
  simp only [beginnings, Finset.mem_biUnion, Finset.mem_erase, List.mem_toFinset, List.mem_inits]
  exact ⟨fun ⟨v, hv, hne, hu⟩ => ⟨hne, v, hv, hu⟩, fun ⟨hne, v, hv, hu⟩ => ⟨v, hv, hne, hu⟩⟩

theorem mem_lastHalves : (u, high) ∈ lastHalves caseless v ↔
    ∃ b, v = u ++ [b] ∧
      (high = highNibble (forms caseless b).1 ∨ high = highNibble (forms caseless b).2) := by
  rcases List.eq_nil_or_concat v with rfl | ⟨u', b', rfl⟩
  · simp [lastHalves]
  · have hconcat (b : UInt8) : u' ++ [b'] = u ++ [b] ↔ u = u' ∧ b' = b := by
      refine ⟨fun h => ?_, fun ⟨hu, hb⟩ => hu ▸ hb ▸ rfl⟩
      obtain ⟨hu, hb⟩ := List.append_inj' h rfl
      exact ⟨hu.symm, List.singleton_inj.1 hb⟩
    simp [lastHalves, hconcat, ← and_or_left]

theorem mem_halfBeginnings : (u, high) ∈ halfBeginnings caseless us ↔
    ∃ b, u ++ [b] ∈ us ∧
      (high = highNibble (forms caseless b).1 ∨ high = highNibble (forms caseless b).2) := by
  simp only [halfBeginnings, Finset.mem_biUnion, mem_lastHalves]
  constructor
  · rintro ⟨v, hv, b, rfl, hb⟩
    exact ⟨b, hv, hb⟩
  · rintro ⟨b, hv, hb⟩
    exact ⟨_, hv, b, rfl, hb⟩

theorem half_not_mem_path_byte : .half u high ∉ path .byte caseless w bs := by
  induction bs generalizing w with
  | nil => exact List.not_mem_nil
  | cons b bs ih =>
    rw [path_cons, List.mem_append]
    rintro (h | h)
    · simp [below, halves] at h
    · exact ih h

theorem half_mem_below_iff {b : UInt8} : .half u high ∈ below .nibble caseless w b ↔
    u = w ∧ (high = highNibble (forms caseless b).1 ∨ high = highNibble (forms caseless b).2) := by
  simp [below, halves, ← and_or_left]

theorem half_mem_path_iff : .half u high ∈ path .nibble caseless w bs ↔
    ∃ p b, p ++ [b] <+: bs ∧ u = w ++ fold caseless p ∧
      (high = highNibble (forms caseless b).1 ∨ high = highNibble (forms caseless b).2) := by
  induction bs generalizing w with
  | nil => simp [path]
  | cons c bs ih =>
    rw [path_cons, List.mem_append, half_mem_below_iff, ih]
    constructor
    · rintro (⟨rfl, hc⟩ | ⟨p, b, hp, rfl, hb⟩)
      · exact ⟨[], c, by simp, by simp, hc⟩
      · refine ⟨c :: p, b, by simpa using hp, ?_, hb⟩
        rw [AsciiCase.fold_cons caseless c p, List.append_assoc]
    · rintro ⟨p, b, hp, rfl, hb⟩
      cases p with
      | nil =>
        obtain ⟨rfl, -⟩ := List.cons_prefix_cons.1 hp
        exact Or.inl ⟨by simp, hb⟩
      | cons d p =>
        obtain ⟨rfl, hrest⟩ := List.cons_prefix_cons.1 hp
        refine Or.inr ⟨p, b, hrest, ?_, hb⟩
        rw [AsciiCase.fold_cons caseless d p, List.append_assoc]

theorem AsciiCase.fold_eq_self_of_prefix (h : fold caseless v = v) (hu : u <+: v) :
    fold caseless u = u := by
  rw [← h] at hu
  obtain ⟨p, -, rfl⟩ := prefix_fold_iff.1 hu
  exact fold_fold caseless p

section Needed

variable (hfold : ∀ v ∈ vs, fold caseless v = v)

include hfold

theorem word_mem_needed_iff :
    .word u ∈ needed l caseless vs ↔ u = [] ∨ u ∈ beginnings vs := by
  simp only [needed, Finset.mem_insert, Node.word.injEq, Finset.mem_biUnion, List.mem_toFinset,
    word_mem_path_iff, List.nil_append, mem_beginnings]
  refine or_congr_right ⟨?_, ?_⟩
  · rintro ⟨v, hv, p, hp, hne, rfl⟩
    rw [AsciiCase.fold_eq_self_of_prefix (hfold v hv) hp]
    exact ⟨hne, v, hv, hp⟩
  · rintro ⟨hne, v, hv, hp⟩
    exact ⟨v, hv, u, hp, hne, (AsciiCase.fold_eq_self_of_prefix (hfold v hv) hp).symm⟩

theorem half_mem_needed_iff :
    .half u high ∈ needed .nibble caseless vs ↔
      (u, high) ∈ halfBeginnings caseless (beginnings vs) := by
  simp only [needed, Finset.mem_insert, reduceCtorEq, false_or, Finset.mem_biUnion,
    List.mem_toFinset, half_mem_path_iff, List.nil_append, mem_halfBeginnings, mem_beginnings]
  constructor
  · rintro ⟨v, hv, p, b, hp, rfl, hb⟩
    have hprefix := (List.prefix_append p [b]).trans hp
    rw [AsciiCase.fold_eq_self_of_prefix (hfold v hv) hprefix]
    exact ⟨b, ⟨by simp, v, hv, hp⟩, hb⟩
  · rintro ⟨b, ⟨-, v, hv, hp⟩, hb⟩
    have hprefix := (List.prefix_append u [b]).trans hp
    exact ⟨v, hv, u, b, hp, (AsciiCase.fold_eq_self_of_prefix (hfold v hv) hprefix).symm, hb⟩

theorem card_needed_byte : (needed .byte caseless vs).card = (beginnings vs).card + 1 := by
  have hset : needed .byte caseless vs = insert (.word []) ((beginnings vs).image .word) := by
    ext n
    cases n with
    | word u => simp [word_mem_needed_iff hfold]
    | half u high => simp [needed, half_not_mem_path_byte]
  have hroot : Node.word [] ∉ (beginnings vs).image .word := by simp [mem_beginnings]
  rw [hset, Finset.card_insert_of_notMem hroot,
    Finset.card_image_of_injective _ fun _ _ => Node.word.inj]

theorem card_needed_nibble : (needed .nibble caseless vs).card =
    (beginnings vs).card + (halfBeginnings caseless (beginnings vs)).card + 1 := by
  let toHalf (x : List UInt8 × Nat) : Node := .half x.1 x.2
  have hinj : Function.Injective toHalf := by
    intro x y h
    obtain ⟨h1, h2⟩ := Node.half.inj h
    exact Prod.ext h1 h2
  have hset : needed .nibble caseless vs = insert (.word [])
      ((beginnings vs).image .word ∪ (halfBeginnings caseless (beginnings vs)).image toHalf) := by
    ext n
    cases n with
    | word u => simp [word_mem_needed_iff hfold, toHalf]
    | half u high => simp [half_mem_needed_iff hfold, toHalf]
  have hdisjoint : Disjoint ((beginnings vs).image Node.word)
      ((halfBeginnings caseless (beginnings vs)).image toHalf) := by
    simp [Finset.disjoint_left, toHalf]
  have hroot : Node.word [] ∉ (beginnings vs).image .word ∪
      (halfBeginnings caseless (beginnings vs)).image toHalf := by
    simp [mem_beginnings, toHalf]
  rw [hset, Finset.card_insert_of_notMem hroot, Finset.card_union_of_disjoint hdisjoint,
    Finset.card_image_of_injective _ fun _ _ => Node.word.inj, Finset.card_image_of_injective _ hinj]

end Needed

theorem fold_of_mem_folds (hv : v ∈ folds caseless words) : fold caseless v = v := by
  obtain ⟨w, -, rfl⟩ := mem_folds.1 hv
  exact AsciiCase.fold_fold caseless w.1

namespace Automaton

/-- The words, folded and taken as a set, say whether all of them find room, and how many
planes there are then. -/
theorem insertAll_accounting (caseless : Bool) (words : List (List UInt8 × PatternId)) :
    let ps := beginnings (folds caseless words)
    let ms := halfBeginnings caseless ps
    ((∃ a : Automaton .byte, (empty caseless).insertAll words = .ok a) ↔ 2 + ps.card ≤ 256) ∧
    (∀ a : Automaton .byte, (empty caseless).insertAll words = .ok a → a.size = 2 + ps.card) ∧
    ((∃ a : Automaton .nibble, (empty caseless).insertAll words = .ok a) ↔
      2 + ps.card + ms.card ≤ 256) ∧
    (∀ a : Automaton .nibble, (empty caseless).insertAll words = .ok a →
      a.size = 2 + ps.card + ms.card) ∧
    ∀ (l : Layout) (words' : List (List UInt8 × PatternId)),
      folds caseless words' = folds caseless words →
      ((∃ a : Automaton l, (empty caseless).insertAll words' = .ok a) ↔
        ∃ a : Automaton l, (empty caseless).insertAll words = .ok a) := by
  intro ps ms
  have hfold : ∀ v ∈ folds caseless words, fold caseless v = v := fun _ => fold_of_mem_folds
  have hbyte : (needed .byte caseless (folds caseless words)).card = ps.card + 1 :=
    card_needed_byte hfold
  have hnibble : (needed .nibble caseless (folds caseless words)).card = ps.card + ms.card + 1 :=
    card_needed_nibble hfold
  refine ⟨?_, fun a ha => ?_, ?_, fun a ha => ?_, fun l words' h => ?_⟩
  · rw [exists_insertAll_iff, hbyte, maxPlane]
    omega
  · rw [size_of_insertAll ha, hbyte]
    omega
  · rw [exists_insertAll_iff, hnibble, maxPlane]
    omega
  · rw [size_of_insertAll ha, hnibble]
    omega
  · rw [exists_insertAll_iff, exists_insertAll_iff, h]

theorem insertAll_accounting_of_shared_half :
    (∃ a : Automaton .nibble,
      (empty true).insertAll [([0x41, 0x40], .of .accept 1), ([0x40], .of .reject 1)] = .ok a ∧
      a.size = 2 + 3 + 3) ∧
    ∃ a : Automaton .nibble,
      (empty true).insertAll [([0x40], .of .accept 2), ([0x61, 0x40], .of .reject 1),
        ([0x40], .of .accept 1)] = .ok a := by
  obtain ⟨-, -, hroom, hsize, hsame⟩ :=
    insertAll_accounting true [([0x41, 0x40], .of .accept 1), ([0x40], .of .reject 1)]
  obtain ⟨a, ha⟩ := hroom.2 (by decide)
  exact ⟨⟨a, ha, hsize a ha⟩, (hsame .nibble _ (by decide)).2 ⟨a, ha⟩⟩

end Automaton

end Winnow
