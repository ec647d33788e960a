import Winnow.Proofs.Scan.Skipping

/-!
# What a scan reads

From each place of a buffer a scan comes upon the sets of the words that begin there.
Taken together, by where they begin and then by where they end, these are the readings
of the buffer; beyond a dead end and where no pattern starts they are empty. A scan
takes the readings in order up to the one that settles it, whatever its layout and
whether it skips or not.
-/

namespace Winnow

open AsciiCase (fold)

namespace Verdict

/-- The verdict after one set of numbers, and whether it settles a scan that may stop
when so many patterns have been seen. -/
def weigh (accepts : Nat) (mayStop : Bool) (v : Verdict) (ids : OrdSet PatternId) :
    Verdict × Bool :=
  if ids.isEmpty then (v, false)
  else match v.credit ids.toList with
    | (v, true) => (v, true)
    | (v, false) => (v, mayStop && v.accepted.size == accepts)

def weighAll (accepts : Nat) (mayStop : Bool) (v : Verdict) :
    List (OrdSet PatternId) → Verdict × Bool
  | [] => (v, false)
  | ids :: rest =>
    match v.weigh accepts mayStop ids with
    | (v, true) => (v, true)
    | (v, false) => weighAll accepts mayStop v rest

variable {n : Nat} {stop : Bool}

theorem weigh_empty (v : Verdict) : v.weigh n stop ∅ = (v, false) := rfl

theorem weighAll_append (v : Verdict) (xs ys : List (OrdSet PatternId)) :
    v.weighAll n stop (xs ++ ys) =
      if (v.weighAll n stop xs).2 then v.weighAll n stop xs
      else (v.weighAll n stop xs).1.weighAll n stop ys := by
  induction xs generalizing v with
  | nil => rfl
  | cons ids xs ih =>
    rcases hv : v.weigh n stop ids with ⟨v', settled⟩
    cases settled with
    | false => simpa only [List.cons_append, weighAll, hv] using ih v'
    | true => simp only [List.cons_append, weighAll, hv, ↓reduceIte]

theorem weighAll_of_empty (v : Verdict) {xs : List (OrdSet PatternId)} (h : ∀ ids ∈ xs, ids = ∅) :
    v.weighAll n stop xs = (v, false) := by
  induction xs with
  | nil => rfl
  | cons ids xs ih =>
    obtain ⟨rfl, hxs⟩ := List.forall_mem_cons.1 h
    simp only [weighAll, weigh_empty, ih hxs]

end Verdict

namespace Outline

def readingsBelow (o : Outline) (u : List UInt8) : List UInt8 → List (OrdSet PatternId)
  | [] => []
  | b :: bs => o.idsAt (u ++ fold o.caseless [b]) :: o.readingsBelow (u ++ fold o.caseless [b]) bs

/-- The sets of the words that stand in a buffer. -/
def readings (o : Outline) : List UInt8 → List (OrdSet PatternId)
  | [] => []
  | b :: bs => o.readingsBelow [] (b :: bs) ++ o.readings bs

theorem readings_congr {o o' : Outline} (hc : o.caseless = o'.caseless)
    (hm : ∀ v id, (v, id) ∈ o.marks ↔ (v, id) ∈ o'.marks) (bs : List UInt8) :
    o.readings bs = o'.readings bs := by
  have hids (v : List UInt8) : o.idsAt v = o'.idsAt v :=
    OrdSet.eq_of_mem_iff fun id => by rw [mem_idsAt, mem_idsAt, hm]
  have hbelow (u bs : List UInt8) : o.readingsBelow u bs = o'.readingsBelow u bs := by
    induction bs generalizing u with
    | nil => rfl
    | cons b bs ih => rw [readingsBelow, readingsBelow, hids, hc, ih]
  induction bs with
  | nil => rfl
  | cons b bs ih => rw [readings, readings, hbelow, ih]

theorem mem_readingsBelow {o : Outline} {u bs : List UInt8} {id : PatternId} :
    (∃ ids ∈ o.readingsBelow u bs, id ∈ ids) ↔
      ∃ p, p <+: bs ∧ p ≠ [] ∧ (u ++ fold o.caseless p, id) ∈ o.marks := by
  induction bs generalizing u with
  | nil => simp [readingsBelow]
  | cons b bs ih =>
    simp only [readingsBelow, List.mem_cons, exists_eq_or_imp, ih, mem_idsAt]
    constructor
    · rintro (hm | ⟨p, hp, -, hm⟩)
      · exact ⟨[b], by simp, by simp, hm⟩
      · refine ⟨b :: p, by simpa using hp, by simp, ?_⟩
        rwa [AsciiCase.fold_cons, ← List.append_assoc]
    · rintro ⟨p, hp, hne, hm⟩
      obtain ⟨c, p, rfl⟩ := List.exists_cons_of_ne_nil hne
      obtain ⟨rfl, hrest⟩ := List.cons_prefix_cons.1 hp
      rw [AsciiCase.fold_cons, ← List.append_assoc] at hm
      by_cases hnil : p = []
      · left
        simpa [hnil] using hm
      · exact Or.inr ⟨p, hrest, hnil, hm⟩

theorem mem_readings {o : Outline} {buffer : List UInt8} {id : PatternId} :
    (∃ ids ∈ o.readings buffer, id ∈ ids) ↔
      ∃ p, p <:+: buffer ∧ p ≠ [] ∧ (fold o.caseless p, id) ∈ o.marks := by
  induction buffer with
  | nil => simp [readings]
  | cons b bs ih =>
    have hcons (ids : OrdSet PatternId) : ids ∈ o.readings (b :: bs) ↔
        ids ∈ o.readingsBelow [] (b :: bs) ∨ ids ∈ o.readings bs := List.mem_append
    simp only [hcons, or_and_right, exists_or, mem_readingsBelow, ih, List.infix_cons_iff,
      List.nil_append]

end Outline

namespace Scan

variable {l : Layout} {s : Scan l} {o : Outline} {u : List UInt8}

theorem readingsBelow_of_not_mem {a : Automaton l} (h : a.Follows o)
    (hu : ∀ w, .word (u ++ fold o.caseless w) ∉ o.nodes) (bs : List UInt8) :
    ∀ ids ∈ o.readingsBelow u bs, ids = ∅ := by
  induction bs generalizing u with
  | nil => simp [Outline.readingsBelow]
  | cons b bs ih =>
    refine List.forall_mem_cons.2 ⟨h.idsAt_of_not_mem (hu [b]), ih fun w => ?_⟩
    rw [List.append_assoc, ← AsciiCase.fold_append]
    exact hu _

theorem readingsBelow_of_dead_end {a : Automaton l} (h : a.Follows o)
    (hu : .word u ∉ o.nodes) (bs : List UInt8) : ∀ ids ∈ o.readingsBelow u bs, ids = ∅ :=
  readingsBelow_of_not_mem h (fun _ hw => hu (h.valid.grown.word_mem_of_append hw)) bs

theorem judge_eq (h : s.automaton.Follows o) (v : Verdict) (w : List UInt8) :
    s.judge v (o.cell (.word w)) = v.weigh s.accepts s.mayStop (o.idsAt w) := by
  have hzero := h.terminal_cell_eq_zero_iff w
  by_cases hw : o.idsAt w = ∅
  · simp [judge, Verdict.weigh, hzero.2 hw, hw]
  · rcases hc : v.credit (o.idsAt w).toList with ⟨v', settled⟩
    cases settled <;> simp [judge, Verdict.weigh, mt hzero.1 hw, hw, h.endsAt_cell, hc]

theorem track_eq (h : s.automaton.Follows o) (hu : .word u ∈ o.nodes) (v : Verdict)
    (bs : List UInt8) :
    s.track (o.plane (.word u)) v bs =
      v.weighAll s.accepts s.mayStop (o.readingsBelow u bs) := by
  induction bs generalizing u v with
  | nil => rfl
  | cons b bs ih =>
    simp only [track, Outline.readingsBelow, Verdict.weighAll, h.step_eq hu, judge_eq h,
      Outline.target_cell, h.isDeadEnd_cell]
    rcases v.weigh s.accepts s.mayStop (o.idsAt (u ++ fold o.caseless [b])) with ⟨v', settled⟩
    cases settled with
    | true => rfl
    | false =>
      by_cases hb : .word (u ++ fold o.caseless [b]) ∈ o.nodes
      · simp only [hb, not_true_eq_false, ↓reduceIte, ih hb]
      · simp only [hb, not_false_eq_true, ↓reduceIte]
        exact (v'.weighAll_of_empty (readingsBelow_of_dead_end h hb bs)).symm

theorem track_root (h : s.automaton.Follows o) (v : Verdict) (bs : List UInt8) :
    s.track Automaton.root v bs = v.weighAll s.accepts s.mayStop (o.readingsBelow [] bs) := by
  rw [← h.plane_root]
  exact track_eq h h.valid.grown.root_mem v bs

theorem scanEach_eq (h : s.automaton.Follows o) (v : Verdict) (buffer : List UInt8) :
    s.scanEach v buffer = (v.weighAll s.accepts s.mayStop (o.readings buffer)).1 := by
  induction buffer generalizing v with
  | nil => rfl
  | cons b bs ih =>
    simp only [scanEach, Outline.readings, track_root h, Verdict.weighAll_append]
    rcases v.weighAll s.accepts s.mayStop (o.readingsBelow [] (b :: bs)) with ⟨v', settled⟩
    cases settled with
    | true => rfl
    | false => exact ih v'

/-- A scan after any insertions takes the readings of the buffer in order. -/
theorem run_eq {caseless : Bool} {words : List (List UInt8 × PatternId)}
    (h : s.automaton = (Automaton.empty caseless).insertEach words) (buffer : List UInt8) :
    s.run buffer = (Verdict.empty.weighAll s.accepts s.mayStop
      (((Outline.empty caseless).insertEach l words).readings buffer)).1 := by
  have hf : s.automaton.Follows ((Outline.empty caseless).insertEach l words) :=
    h ▸ (Automaton.follows_empty caseless).insertEach words
  have hn : s.automaton.StartsNoted := h ▸ Automaton.startsNoted_insertEach caseless words
  rw [run, scanFrom_eq_scanEach hn, scanEach_eq hf]

theorem run_eq_of_insertAll {caseless : Bool} {words : List (List UInt8 × PatternId)}
    {a : Automaton l} (h : (Automaton.empty caseless).insertAll words = .ok a)
    (hs : s.automaton = a) (buffer : List UInt8) :
    s.run buffer = (Verdict.empty.weighAll s.accepts s.mayStop
      (((Outline.empty caseless).insertEach l words).readings buffer)).1 :=
  run_eq (hs.trans (Automaton.insertEach_eq_of_insertAll h).symm) buffer

end Scan

end Winnow
