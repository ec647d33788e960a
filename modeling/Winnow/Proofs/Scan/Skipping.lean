import Winnow.Proofs.Outline.Reading
import Winnow.Scan

/-!
# What a scan skips

At the root a byte that was not noted as a start reads the blank cell: nothing was made for
it, for the first byte of a pattern is noted in both forms before anything is made, and that
stays if the pattern is refused. From such a place a scan would credit nothing and settle
nothing. So a scan that goes on at the next start comes to the verdict of the one that tries
every place in order.
-/

namespace Winnow

open AsciiCase (fold)

namespace Automaton

variable {l : Layout} {a : Automaton l}

/-- What the root reads at all begins with a noted byte. -/
def StartsNoted (a : Automaton l) : Prop := ∀ b, b ∉ a.starts.bytes → a.step root b = .empty

theorem startsNoted_insertEach (caseless : Bool) (words : List (List UInt8 × PatternId)) :
    ((empty caseless : Automaton l).insertEach words).StartsNoted := by
  intro b hb
  have h := (follows_empty (l := l) caseless).insertEach words
  rw [← h.plane_root, h.step_eq h.valid.grown.root_mem, List.nil_append,
    Outline.caseless_insertEach]
  refine h.valid.cell_of_not_mem fun hm => hb ?_
  rw [h.starts_eq]
  exact Outline.start_mem_of_word_mem hm

end Automaton

namespace Scan

variable {l : Layout} {s : Scan l} {b : UInt8}

theorem not_start_of_find? {starts : StartBytes} {buffer : List UInt8} {n : Nat}
    (h : starts.find? buffer = some n) : ∀ b ∈ buffer.take n, b ∉ starts.bytes := by
  rw [StartBytes.find?_eq] at h
  obtain ⟨_, _, hlt⟩ := List.findIdx?_eq_some_iff_getElem.1 h
  intro b hb
  obtain ⟨i, hi, rfl⟩ := List.mem_take_iff_getElem.1 hb
  have hs := hlt i (by omega)
  rw [decide_eq_true_eq] at hs
  exact hs

theorem not_start_of_find?_eq_none {starts : StartBytes} {buffer : List UInt8}
    (h : starts.find? buffer = none) : ∀ b ∈ buffer, b ∉ starts.bytes := by
  rw [StartBytes.find?_eq, List.findIdx?_eq_none_iff] at h
  intro b hb hs
  simpa [OrdSet.mem_toList, hs] using h b hb

theorem scanEach_at (s : Scan l) (v : Verdict) {buffer : List UInt8} {n : Nat}
    (hn : n < buffer.length) :
    s.scanEach v (buffer.drop n) =
      match s.track Automaton.root v (buffer.drop n) with
      | (v, true) => v
      | (v, false) => s.scanEach v (buffer.drop (n + 1)) := by
  rw [List.drop_eq_getElem_cons hn]
  rfl

section

variable (h : s.automaton.StartsNoted)

include h

theorem track_of_not_start (hb : b ∉ s.automaton.starts.bytes) (v : Verdict) (bs : List UInt8) :
    s.track Automaton.root v (b :: bs) = (v, false) := by
  rw [track, h b hb]
  rfl

theorem scanEach_drop {n : Nat} {buffer : List UInt8}
    (hn : ∀ b ∈ buffer.take n, b ∉ s.automaton.starts.bytes) (v : Verdict) :
    s.scanEach v buffer = s.scanEach v (buffer.drop n) := by
  induction n generalizing buffer with
  | zero => rfl
  | succ n ih =>
    cases buffer with
    | nil => rfl
    | cons b bs =>
      obtain ⟨hb, hn⟩ := List.forall_mem_cons.1 hn
      rw [scanEach, track_of_not_start h hb]
      exact ih hn

theorem scanFrom_eq_scanEach (v : Verdict) (buffer : List UInt8) :
    s.scanFrom v buffer = s.scanEach v buffer := by
  -- along the skipping scan: no start is left, or the next one settles, or it goes on behind it
  induction v, buffer using scanFrom.induct s with
  | case1 v buffer hfind =>
    have hskip := not_start_of_find?_eq_none hfind
    rw [← List.take_length (l := buffer)] at hskip
    rw [scanFrom, hfind, scanEach_drop h hskip, List.drop_length]
    rfl
  | case2 v buffer n hfind v' htrack =>
    rw [scanFrom, hfind, scanEach_drop h (not_start_of_find? hfind),
      scanEach_at s v (StartBytes.lt_of_find? hfind)]
    simp only [htrack]
  | case3 v buffer n hfind v' htrack ih =>
    rw [scanFrom, hfind, scanEach_drop h (not_start_of_find? hfind),
      scanEach_at s v (StartBytes.lt_of_find? hfind)]
    simp only [htrack]
    exact ih

end

/-- A scan that skips to the next start comes to the verdict of one that follows the automaton
from every place in order, whether it may stop early or not. -/
theorem run_eq_scanEach (caseless : Bool) (words : List (List UInt8 × PatternId))
    (roster : Roster) (buffer : List UInt8) :
    let s := of ((Automaton.empty caseless : Automaton l).insertEach words) roster
    s.run buffer = s.scanEach .empty buffer ∧
      s.exhaustive.run buffer = s.exhaustive.scanEach .empty buffer := by
  intro s
  have h := Automaton.startsNoted_insertEach (l := l) caseless words
  constructor
  · exact scanFrom_eq_scanEach (s := s) h .empty buffer
  · exact scanFrom_eq_scanEach (s := s.exhaustive) h .empty buffer

end Scan

end Winnow
