import Mathlib.Data.Prod.Lex
import Mathlib.Order.Bounds.Defs
import Winnow.Occurrence
import Winnow.Proofs.Outline.Lookup
import Winnow.Proofs.Scan.Verdicts

/-!
# In which order a scan credits

A scan reads the sets of a buffer by where their words begin and then by where they end.
Where nothing rejected stands in the buffer, a scan that always reads on credits all that
it reads. Else it credits what stands before the first place of a rejected word, and of
the numbers at this place only the smallest, which is a rejected one.
-/

namespace Winnow

open AsciiCase (fold)

/-- Where a word begins and where it ends, in the order of the one and then of the other. -/
abbrev Span := Nat ×ₗ Nat

/-- Some word that bears the number stands at the place. -/
def StandsAt (caseless : Bool) (words : List (List UInt8 × PatternId)) (buffer : List UInt8)
    (id : PatternId) (s : Span) : Prop :=
  ∃ w, (w, id) ∈ words ∧ w ≠ [] ∧ OccursAt caseless w buffer (ofLex s).1 ∧
    (ofLex s).2 = (ofLex s).1 + w.length

namespace PatternId

theorem raw_lt_of_compare {a b : PatternId} (h : compare a b = .lt) : a.raw < b.raw := by
  rw [compare_eq] at h
  exact Std.compare_eq_lt.1 h

end PatternId

namespace Verdict

variable {n : Nat} {xs : List (OrdSet PatternId)} {ids : OrdSet PatternId} {m : PatternId}

theorem weighAll_of_no_reject (h : ∀ ids ∈ xs, ∀ id ∈ ids, id.isReject = false) :
    (empty.weighAll n false xs).2 = false ∧ (empty.weighAll n false xs).1.rejected = ∅ ∧
      ∀ id, id ∈ (empty.weighAll n false xs).1.accepted ↔ ∃ ids ∈ xs, id ∈ ids := by
  have hg := gathers_weighAll n false empty xs
  have hrejected : (empty.weighAll n false xs).1.rejected = ∅ :=
    hg.rejected_eq_empty fun id ⟨ids, hids, hid⟩ => h ids hids id hid
  have hopen : (empty.weighAll n false xs).2 = false := by
    rw [Bool.eq_false_iff]
    intro hs
    rcases hg.settled hs with hne | ⟨hstop, -⟩
    · exact hne hrejected
    · cases hstop
  refine ⟨hopen, hrejected, fun id => ⟨fun hid => ?_, fun hid => (hg.unsettled hopen id hid).2⟩⟩
  exact (hg.accepted_of_empty hid).1

theorem any_isReject_eq_false_iff :
    ids.toList.any (·.isReject) = false ↔ ∀ id ∈ ids, id.isReject = false := by
  simp only [List.any_eq_false, Bool.not_eq_true, OrdSet.mem_toList]

theorem exists_head_of_reject {id : PatternId} (hid : id ∈ ids) (hr : id.isReject = true) :
    ∃ m rest, ids.toList = m :: rest ∧ m.isReject = true ∧ ∀ x ∈ ids, m.raw ≤ x.raw := by
  obtain ⟨m, rest, hlist⟩ := List.exists_cons_of_ne_nil (List.ne_nil_of_mem hid)
  have hlt := (List.pairwise_cons.1 (hlist ▸ ids.ascending)).1
  have hle : ∀ x ∈ ids, m.raw ≤ x.raw := by
    intro x hx
    rcases List.mem_cons.1 (hlist ▸ OrdSet.mem_toList.2 hx) with rfl | hx
    · exact Int32.le_refl _
    · exact Int32.le_of_lt (PatternId.raw_lt_of_compare (hlt x hx))
  refine ⟨m, rest, hlist, ?_, hle⟩
  exact decide_eq_true (Int32.lt_of_le_of_lt (hle id hid) (of_decide_eq_true hr))

theorem weighAll_of_reject {rest : List PatternId}
    (before : ∀ ids ∈ xs, ∀ id ∈ ids, id.isReject = false) (hids : ids.toList = m :: rest)
    (hm : m.isReject = true) (ys : List (OrdSet PatternId)) :
    (empty.weighAll n false (xs ++ ids :: ys)).1.rejected.toList = [m] ∧
      ∀ id, id ∈ (empty.weighAll n false (xs ++ ids :: ys)).1.accepted ↔
        ∃ ids ∈ xs, id ∈ ids := by
  obtain ⟨hopen, hrejected, haccepted⟩ := weighAll_of_no_reject (n := n) before
  -- a group is credited in ascending order, so it gets no further than the smallest number
  have hweigh (v : Verdict) :
      v.weigh n false ids = ({ v with rejected := v.rejected.insert m }, true) := by
    simp [weigh, OrdSet.isEmpty, hids, credit, hm]
  rw [weighAll_append, hopen, if_neg Bool.false_ne_true, weighAll, hweigh]
  refine ⟨?_, haccepted⟩
  rw [hrejected]
  rfl

end Verdict

namespace Outline

variable {o : Outline} {i j : Nat} {u bs : List UInt8} {x : Span × OrdSet PatternId} {s : Span}
  {id : PatternId}

def spansBelow (o : Outline) (i j : Nat) (u : List UInt8) :
    List UInt8 → List (Span × OrdSet PatternId)
  | [] => []
  | b :: bs => (toLex (i, j + 1), o.idsAt (u ++ fold o.caseless [b])) ::
      o.spansBelow i (j + 1) (u ++ fold o.caseless [b]) bs

/-- The readings of a buffer that begins at some offset, with their places. -/
def spans (o : Outline) (i : Nat) : List UInt8 → List (Span × OrdSet PatternId)
  | [] => []
  | b :: bs => o.spansBelow i i [] (b :: bs) ++ o.spans (i + 1) bs

theorem map_spansBelow (o : Outline) (i j : Nat) (u bs : List UInt8) :
    (o.spansBelow i j u bs).map Prod.snd = o.readingsBelow u bs := by
  induction bs generalizing j u with
  | nil => rfl
  | cons b bs ih => exact congrArg (_ :: ·) (ih (j + 1) _)

theorem map_spans (o : Outline) (i : Nat) (bs : List UInt8) :
    (o.spans i bs).map Prod.snd = o.readings bs := by
  induction bs generalizing i with
  | nil => rfl
  | cons b bs ih => rw [spans, readings, List.map_append, map_spansBelow, ih]

theorem place_of_mem_spansBelow (h : x ∈ o.spansBelow i j u bs) :
    (ofLex x.1).1 = i ∧ j < (ofLex x.1).2 := by
  induction bs generalizing j u with
  | nil => exact absurd h List.not_mem_nil
  | cons b bs ih =>
    rcases List.mem_cons.1 h with rfl | h
    · exact ⟨rfl, Nat.lt_succ_self j⟩
    · exact ⟨(ih h).1, Nat.lt_of_succ_lt (ih h).2⟩

theorem place_of_mem_spans (h : x ∈ o.spans i bs) : i ≤ (ofLex x.1).1 := by
  induction bs generalizing i with
  | nil => exact absurd h List.not_mem_nil
  | cons b bs ih =>
    rcases List.mem_append.1 h with h | h
    · exact (place_of_mem_spansBelow h).1.ge
    · exact Nat.le_of_succ_le (ih h)

theorem pairwise_spansBelow (o : Outline) (i j : Nat) (u bs : List UInt8) :
    (o.spansBelow i j u bs).Pairwise fun x y => x.1 < y.1 := by
  induction bs generalizing j u with
  | nil => exact .nil
  | cons b bs ih =>
    refine List.pairwise_cons.2 ⟨fun y hy => ?_, ih (j + 1) _⟩
    obtain ⟨h1, h2⟩ := place_of_mem_spansBelow hy
    exact Prod.Lex.lt_iff.2 (Or.inr ⟨h1.symm, h2⟩)

theorem pairwise_spans (o : Outline) (i : Nat) (bs : List UInt8) :
    (o.spans i bs).Pairwise fun x y => x.1 < y.1 := by
  induction bs generalizing i with
  | nil => exact .nil
  | cons b bs ih =>
    refine List.pairwise_append.2 ⟨pairwise_spansBelow o i i [] _, ih (i + 1), fun x hx y hy => ?_⟩
    have hlt : (ofLex x.1).1 < (ofLex y.1).1 := by
      rw [(place_of_mem_spansBelow hx).1]
      exact place_of_mem_spans hy
    exact Prod.Lex.lt_iff.2 (Or.inl hlt)

theorem mem_spansBelow :
    (∃ ids, (s, ids) ∈ o.spansBelow i j u bs ∧ id ∈ ids) ↔
      ∃ p, p <+: bs ∧ p ≠ [] ∧ s = toLex (i, j + p.length) ∧
        (u ++ fold o.caseless p, id) ∈ o.marks := by
  induction bs generalizing j u with
  | nil => simp [spansBelow]
  | cons b bs ih =>
    simp only [spansBelow, List.mem_cons, or_and_right, exists_or, ih, Prod.mk.injEq, and_assoc,
      exists_and_left, exists_eq_left, mem_idsAt]
    constructor
    · intro h
      rcases h with ⟨rfl, hm⟩ | ⟨p, hp, -, rfl, hm⟩
      · exact ⟨[b], by simp, by simp, rfl, hm⟩
      · refine ⟨b :: p, by simpa using hp, by simp, ?_, ?_⟩
        · rw [List.length_cons, Nat.add_right_comm, Nat.add_assoc]
        · rwa [AsciiCase.fold_cons, ← List.append_assoc]
    · intro ⟨p, hp, hne, hs, hm⟩
      subst hs
      obtain ⟨c, p, rfl⟩ := List.exists_cons_of_ne_nil hne
      obtain ⟨rfl, hrest⟩ := List.cons_prefix_cons.1 hp
      rw [AsciiCase.fold_cons, ← List.append_assoc] at hm
      by_cases hnil : p = []
      · left
        subst hnil
        exact ⟨rfl, by simpa using hm⟩
      · refine Or.inr ⟨p, hrest, hnil, ?_, hm⟩
        rw [List.length_cons, Nat.add_right_comm, Nat.add_assoc]

theorem mem_spans :
    (∃ ids, (s, ids) ∈ o.spans i bs ∧ id ∈ ids) ↔
      ∃ k p, p <+: bs.drop k ∧ p ≠ [] ∧ s = toLex (i + k, i + k + p.length) ∧
        (fold o.caseless p, id) ∈ o.marks := by
  induction bs generalizing i with
  | nil => simp [spans]
  | cons b bs ih =>
    simp only [spans, List.mem_append, or_and_right, exists_or, mem_spansBelow, ih,
      List.nil_append]
    constructor
    · intro h
      rcases h with ⟨p, hp, hne, hs, hm⟩ | ⟨k, p, hp, hne, hs, hm⟩
      · exact ⟨0, p, hp, hne, hs, hm⟩
      · refine ⟨k + 1, p, hp, hne, ?_, hm⟩
        rwa [← Nat.add_assoc, Nat.add_right_comm]
    · intro ⟨k, p, hp, hne, hs, hm⟩
      cases k with
      | zero => exact Or.inl ⟨p, hp, hne, hs, hm⟩
      | succ k =>
        refine Or.inr ⟨k, p, hp, hne, ?_, hm⟩
        rwa [Nat.add_right_comm, Nat.add_assoc]

end Outline

section

variable {before after : List (Span × OrdSet PatternId)} {first s : Span} {ids : OrdSet PatternId}
  {id : PatternId}

theorem Span.cases_of_mem {x y : Span × OrdSet PatternId}
    (h : (before ++ x :: after).Pairwise fun x y => x.1 < y.1) (hy : y ∈ before ++ x :: after) :
    y ∈ before ∧ y.1 < x.1 ∨ y = x ∨ x.1 < y.1 := by
  obtain ⟨-, hafter, hbefore⟩ := List.pairwise_append.1 h
  rcases List.mem_append.1 hy with hy | hy
  · exact Or.inl ⟨hy, hbefore y hy x List.mem_cons_self⟩
  · rcases List.mem_cons.1 hy with rfl | hy
    · exact Or.inr (Or.inl rfl)
    · exact Or.inr (Or.inr ((List.pairwise_cons.1 hafter).1 y hy))

theorem Span.mem_here_iff
    (h : (before ++ (first, ids) :: after).Pairwise fun x y => x.1 < y.1) :
    (∃ ids', (first, ids') ∈ before ++ (first, ids) :: after ∧ id ∈ ids') ↔ id ∈ ids := by
  refine ⟨fun ⟨ids', hmem, hid⟩ => ?_, fun hid => ⟨ids, by simp, hid⟩⟩
  rcases Span.cases_of_mem h hmem with ⟨-, hlt⟩ | he | hlt
  · exact absurd hlt (lt_irrefl first)
  · exact (Prod.mk.inj he).2 ▸ hid
  · exact absurd hlt (lt_irrefl first)

theorem Span.mem_before_iff
    (h : (before ++ (first, ids) :: after).Pairwise fun x y => x.1 < y.1) :
    (s < first ∧ ∃ ids', (s, ids') ∈ before ++ (first, ids) :: after ∧ id ∈ ids') ↔
      ∃ ids', (s, ids') ∈ before ∧ id ∈ ids' := by
  constructor
  · intro ⟨hs, ids', hmem, hid⟩
    rcases Span.cases_of_mem h hmem with ⟨hmem, -⟩ | he | hlt
    · exact ⟨ids', hmem, hid⟩
    · exact absurd (Prod.mk.inj he).1 hs.ne
    · exact absurd hlt hs.asymm
  · intro ⟨ids', hmem, hid⟩
    have hlt := (List.pairwise_append.1 h).2.2 _ hmem _ List.mem_cons_self
    exact ⟨hlt, ids', List.mem_append_left _ hmem, hid⟩

theorem Span.exists_mem_map {spans : List (Span × OrdSet PatternId)} :
    (∃ ids ∈ spans.map Prod.snd, id ∈ ids) ↔ ∃ s ids, (s, ids) ∈ spans ∧ id ∈ ids := by
  simp only [List.mem_map, Prod.exists, exists_eq_right]
  exact ⟨fun ⟨ids, ⟨s, hs⟩, hid⟩ => ⟨s, ids, hs, hid⟩, fun ⟨s, ids, hs, hid⟩ => ⟨ids, ⟨s, hs⟩, hid⟩⟩

end

namespace Verdict

variable {n : Nat} {spans : List (Span × OrdSet PatternId)} {stands : PatternId → Span → Prop}

theorem weighAll_spans (hsorted : spans.Pairwise fun x y => x.1 < y.1)
    (hstands : ∀ id s, (∃ ids, (s, ids) ∈ spans ∧ id ∈ ids) ↔ stands id s) :
    ((∀ id s, stands id s → id.isReject = false) ∧
      (empty.weighAll n false (spans.map Prod.snd)).1.rejected = ∅ ∧
      ∀ id, id ∈ (empty.weighAll n false (spans.map Prod.snd)).1.accepted ↔ ∃ s, stands id s) ∨
    ∃ first m, IsLeast {s | ∃ id, id.isReject = true ∧ stands id s} first ∧
      (m.isReject = true ∧ stands m first ∧
        ∀ id, id.isReject = true → stands id first → m.raw ≤ id.raw) ∧
      (empty.weighAll n false (spans.map Prod.snd)).1.rejected.toList = [m] ∧
      ∀ id, id ∈ (empty.weighAll n false (spans.map Prod.snd)).1.accepted ↔
        id.isReject = false ∧ ∃ s < first, stands id s := by
  cases hfind : spans.find? fun x => x.2.toList.any (·.isReject) with
  | none =>
    have hnone : ∀ x ∈ spans, ∀ id ∈ x.2, id.isReject = false := by
      intro x hx
      exact any_isReject_eq_false_iff.1 (Bool.eq_false_iff.2 (List.find?_eq_none.1 hfind x hx))
    obtain ⟨-, hrejected, haccepted⟩ :=
      weighAll_of_no_reject (n := n) (List.forall_mem_map.2 hnone)
    refine Or.inl ⟨fun id s hs => ?_, hrejected, fun id => ?_⟩
    · obtain ⟨ids, hmem, hid⟩ := (hstands id s).2 hs
      exact hnone _ hmem id hid
    · rw [haccepted, Span.exists_mem_map]
      exact exists_congr fun s => hstands id s
  | some x =>
    obtain ⟨hx, before, after, rfl, hbefore⟩ := List.find?_eq_some_iff_append.1 hfind
    obtain ⟨first, ids⟩ := x
    obtain ⟨id, hid, hr⟩ := List.any_eq_true.1 hx
    obtain ⟨m, rest, hlist, hm, hle⟩ := exists_head_of_reject hid hr
    have hnone : ∀ x ∈ before, ∀ id ∈ x.2, id.isReject = false := by
      intro x hx
      have hx := hbefore x hx
      rw [Bool.not_eq_true'] at hx
      exact any_isReject_eq_false_iff.1 hx
    have hhere (id : PatternId) : stands id first ↔ id ∈ ids :=
      (hstands id first).symm.trans (Span.mem_here_iff hsorted)
    -- the entries before the first reject are those whose places are smaller
    have hearlier (id : PatternId) (s : Span) :
        s < first ∧ stands id s ↔ ∃ ids', (s, ids') ∈ before ∧ id ∈ ids' :=
      (and_congr_right fun _ => (hstands id s).symm).trans (Span.mem_before_iff hsorted)
    have hmin : stands m first :=
      (hhere m).2 (OrdSet.mem_toList.1 (hlist ▸ List.mem_cons_self))
    obtain ⟨hrejected, haccepted⟩ := weighAll_of_reject (n := n) (List.forall_mem_map.2 hnone)
      hlist hm (after.map Prod.snd)
    rw [List.map_append, List.map_cons]
    refine Or.inr ⟨first, m, ⟨⟨m, hm, hmin⟩, ?_⟩, ⟨hm, hmin, ?_⟩, hrejected, fun id => ?_⟩
    · intro s ⟨id, hr, hs⟩
      refine not_lt.1 fun hlt => ?_
      obtain ⟨ids', hmem, hid⟩ := (hearlier id s).1 ⟨hlt, hs⟩
      rw [hnone _ hmem id hid] at hr
      cases hr
    · exact fun id _ hs => hle id ((hhere id).1 hs)
    · rw [haccepted, Span.exists_mem_map]
      constructor
      · intro ⟨s, ids', hmem, hid⟩
        exact ⟨hnone _ hmem id hid, s, (hearlier id s).2 ⟨ids', hmem, hid⟩⟩
      · intro ⟨_, s, hs⟩
        exact ⟨s, (hearlier id s).1 hs⟩

end Verdict

theorem AsciiCase.drop_fold (caseless : Bool) (bs : List UInt8) (k : Nat) :
    (fold caseless bs).drop k = fold caseless (bs.drop k) := by
  cases caseless with
  | false => rfl
  | true => exact List.map_drop.symm

namespace Scan

variable {l : Layout} {a : Automaton l} {caseless : Bool} {words : List (List UInt8 × PatternId)}
  {buffer : List UInt8} {id : PatternId} {s : Span}

theorem mem_spans_iff_standsAt (h : (Automaton.empty caseless).insertAll words = .ok a) :
    (∃ ids, (s, ids) ∈ ((Outline.empty caseless).insertEach l words).spans 0 buffer ∧ id ∈ ids) ↔
      StandsAt caseless words buffer id s := by
  simp only [Outline.mem_spans, Automaton.mem_marks_of_insertAll h, Outline.caseless_insertEach,
    Nat.zero_add]
  constructor
  · intro ⟨k, p, hp, _, hs, w, hw, hne, he⟩
    subst hs
    have hlength : p.length = w.length := by simpa using congrArg List.length he
    refine ⟨w, hw, hne, ?_, congrArg (k + ·) hlength⟩
    rw [OccursAt, ← he, AsciiCase.drop_fold]
    exact AsciiCase.prefix_fold_iff.2 ⟨p, hp, rfl⟩
  · intro ⟨w, hw, hne, hat, hend⟩
    rw [OccursAt, AsciiCase.drop_fold] at hat
    obtain ⟨p, hp, he⟩ := AsciiCase.prefix_fold_iff.1 hat
    have hlength : w.length = p.length := by simpa using congrArg List.length he
    refine ⟨(ofLex s).1, p, hp, ?_, ?_, w, hw, hne, he.symm⟩
    · rw [← List.length_pos_iff, ← hlength]
      exact List.length_pos_iff.2 hne
    · rw [← hlength, ← hend]
      rfl

/-- A scan that always reads on credits all that stands in the buffer if nothing rejected
does. Else it credits what stands before the first place of a rejected word, and of what
stands at this place the smallest number. -/
theorem run_exhaustive (h : (Automaton.empty caseless).insertAll words = .ok a) (roster : Roster)
    (buffer : List UInt8) :
    ((∀ id s, StandsAt caseless words buffer id s → id.isReject = false) ∧
      ((of a roster).exhaustive.run buffer).rejected = ∅ ∧
      ∀ id, id ∈ ((of a roster).exhaustive.run buffer).accepted ↔
        ∃ s, StandsAt caseless words buffer id s) ∨
    ∃ first m,
      IsLeast {s | ∃ id, id.isReject = true ∧ StandsAt caseless words buffer id s} first ∧
      (m.isReject = true ∧ StandsAt caseless words buffer m first ∧
        ∀ id, id.isReject = true → StandsAt caseless words buffer id first → m.raw ≤ id.raw) ∧
      ((of a roster).exhaustive.run buffer).rejected.toList = [m] ∧
      ∀ id, id ∈ ((of a roster).exhaustive.run buffer).accepted ↔
        id.isReject = false ∧ ∃ s < first, StandsAt caseless words buffer id s := by
  have hsorted := ((Outline.empty caseless).insertEach l words).pairwise_spans 0 buffer
  rw [run_eq_of_insertAll h rfl, ← Outline.map_spans _ 0]
  exact Verdict.weighAll_spans hsorted fun id s => mem_spans_iff_standsAt h

/-- One word is accepted and rejected twice, and begins with another that is accepted: of
the first only the smaller rejected number counts, the other is accepted before it. -/
theorem run_exhaustive_of_shared_cell :
    ∃ a : Automaton .nibble, (Automaton.empty true).insertAll [([0x61, 0x62], .of .accept 2),
        ([0x41, 0x62], .of .reject 1), ([0x61, 0x42], .of .reject 2), ([0x61], .of .accept 1)] =
        .ok a ∧
      ((of a .empty).exhaustive.run [0x78, 0x61, 0x42]).rejected.toList = [.of .reject 2] ∧
      .of .accept 1 ∈ ((of a .empty).exhaustive.run [0x78, 0x61, 0x42]).accepted ∧
      .of .accept 2 ∉ ((of a .empty).exhaustive.run [0x78, 0x61, 0x42]).accepted := by
  let words : List (List UInt8 × PatternId) := [([0x61, 0x62], .of .accept 2),
    ([0x41, 0x62], .of .reject 1), ([0x61, 0x42], .of .reject 2), ([0x61], .of .accept 1)]
  have h : (Automaton.empty true : Automaton .nibble).insertAll words =
      .ok ((Automaton.empty true).insertEach words) := rfl
  have hoffset : ∀ x ∈ words, ∀ k < 4, OccursAt true x.1 [0x78, 0x61, 0x42] k → k = 1 := by
    decide
  have hlength : ∀ x ∈ words, x.2 ≠ .of .accept 1 → x.1.length = 2 := by decide
  have hplace (id : PatternId) (s : Span) (hid : id ≠ .of .accept 1)
      (hs : StandsAt true words [0x78, 0x61, 0x42] id s) : s = toLex (1, 3) := by
    obtain ⟨w, hw, hne, hat, hend⟩ := hs
    have hle : (ofLex s).1 + w.length ≤ 3 := hat.length_le hne
    have hbegin := hoffset _ hw _ (by omega) hat
    rw [hbegin, hlength _ hw hid] at hend
    exact congrArg toLex (Prod.ext hbegin hend)
  have hreject : StandsAt true words [0x78, 0x61, 0x42] (.of .reject 2) (toLex (1, 3)) :=
    ⟨[0x61, 0x42], by decide, by decide, by decide, rfl⟩
  have hprefix : StandsAt true words [0x78, 0x61, 0x42] (.of .accept 1) (toLex (1, 2)) :=
    ⟨[0x61], by decide, by decide, by decide, rfl⟩
  refine ⟨_, h, ?_⟩
  rcases run_exhaustive h .empty [0x78, 0x61, 0x42] with ⟨hnone, -⟩ |
    ⟨first, m, -, ⟨hm, hat, hmin⟩, hrejected, haccepted⟩
  · exact absurd (hnone _ _ hreject) (by decide)
  · obtain rfl := hplace m first (by rintro rfl; exact absurd hm (by decide)) hat
    have hsmallest : m = .of .reject 2 := by
      have hle := hmin _ (by decide) hreject
      obtain ⟨w, hw, -⟩ := hat
      have hall : ∀ x ∈ words, x.2.raw ≤ (PatternId.of .reject 2).raw → x.2 = .of .reject 2 := by
        decide
      exact hall _ hw hle
    refine ⟨hsmallest ▸ hrejected, (haccepted _).2 ⟨by decide, _, by decide, hprefix⟩, ?_⟩
    intro hid
    obtain ⟨-, s, hlt, hs⟩ := (haccepted _).1 hid
    exact absurd (hplace _ s (by decide) hs) hlt.ne

end Scan

end Winnow
