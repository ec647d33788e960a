import Winnow.Proofs.Session

/-!
# What compiling comes to

Compiling succeeds exactly if there are patterns, each has the alternatives that it asks
for, and there is room for all of the words. How large the tables get is seen from the set
of the folded words, and what is answered from the words under their numbers.
-/

namespace Winnow

open AsciiCase (fold)

namespace Session

variable {variantsOn : Bool} {r : Roster} {ps : List Pattern} {id : PatternId}
  {settings : Settings} {s s' : Session}

theorem mem_folds_wordsOf {caseless : Bool} {v : List UInt8} :
    v ∈ folds caseless (wordsOf variantsOn r ps) ↔
      ∃ p ∈ ps, ∃ w, p.IsWord variantsOn w ∧ fold caseless w = v := by
  simp only [mem_folds, Prod.exists, mem_wordsOf]
  constructor
  · intro ⟨w, id, ⟨p, hid, hw⟩, hv⟩
    exact ⟨p, (mem_numbered hid).1, w, hw, hv⟩
  · intro ⟨p, hp, w, hw, hv⟩
    obtain ⟨id, hid⟩ := exists_number hp
    exact ⟨w, id, ⟨p, hid, hw⟩, hv⟩

/-- Compiling fails only for want of patterns, of alternatives or of planes. -/
theorem exists_compile_iff :
    (∃ s, compile settings = .ok s) ↔ settings.patterns ≠ [] ∧
      (∀ p ∈ settings.patterns, ∃ others, p.alternatives settings.variants = .ok others) ∧
      (needed settings.layout (!settings.caseSensitive) (folds (!settings.caseSensitive)
        (wordsOf settings.variants .empty settings.patterns))).card ≤ Automaton.maxPlane := by
  rw [← Automaton.exists_insertAll_iff]
  simp only [compile_eq_ok_iff]
  constructor
  · intro ⟨s, hne, hp, a, ha, _⟩
    exact ⟨hne, hp, a, ha⟩
  · intro ⟨hne, hp, a, ha⟩
    exact ⟨_, hne, hp, a, ha, rfl⟩

section Congr

variable (hwords : folds (!settings.caseSensitive)
    (wordsOf settings.variants .empty settings.patterns) =
  folds (!settings.caseSensitive) (wordsOf settings.variants .empty ps))

include hwords

theorem exists_compile_congr (hlength : settings.patterns.length = ps.length)
    (halternatives : (∀ p ∈ settings.patterns, ∃ others,
        p.alternatives settings.variants = .ok others) ↔
      ∀ p ∈ ps, ∃ others, p.alternatives settings.variants = .ok others) :
    (∃ s, compile settings = .ok s) ↔ ∃ s', compile { settings with patterns := ps } = .ok s' := by
  have hnil : settings.patterns = [] ↔ ps = [] := by
    rw [← List.length_eq_zero_iff, hlength, List.length_eq_zero_iff]
  rw [exists_compile_iff, exists_compile_iff, hwords, ne_eq, hnil, halternatives]

theorem shape_congr (h : compile settings = .ok s)
    (h' : compile { settings with patterns := ps } = .ok s') :
    s.automaton.size = s'.automaton.size ∧ s.automaton.groups.size = s'.automaton.groups.size ∧
      s.automaton.starts = s'.automaton.starts := by
  obtain ⟨-, -, a, ha, rfl⟩ := compile_eq_ok_iff.1 h
  obtain ⟨-, -, a', ha', rfl⟩ := compile_eq_ok_iff.1 h'
  exact Automaton.shape_eq ha ha' hwords

end Congr

def outline (settings : Settings) : Outline :=
  (Outline.empty !settings.caseSensitive).insertEach settings.layout
    (wordsOf settings.variants .empty settings.patterns)

theorem mem_marks_outline (h : compile settings = .ok s) {v : List UInt8} :
    (v, id) ∈ (outline settings).marks ↔ v ≠ [] ∧ ∃ p, (id, p) ∈ numbered .empty settings.patterns ∧
      ∃ w, p.IsWord settings.variants w ∧ fold (!settings.caseSensitive) w = v := by
  obtain ⟨-, -, a, ha, -⟩ := compile_eq_ok_iff.1 h
  rw [outline, Automaton.mem_marks_of_insertAll ha]
  simp only [mem_wordsOf]
  constructor
  · intro ⟨w, ⟨p, hid, hw⟩, hne, he⟩
    rw [he]
    exact ⟨mt AsciiCase.fold_eq_nil_iff.1 hne, p, hid, w, hw, rfl⟩
  · intro ⟨hne, p, hid, w, hw, he⟩
    rw [← he] at hne ⊢
    exact ⟨w, ⟨p, hid, hw⟩, mt AsciiCase.fold_eq_nil_iff.2 hne, rfl⟩

/-- The answer comes of the readings of the buffer and of how many patterns of each kind
there are. -/
theorem isMatch_eq (h : compile settings = .ok s) (buffer : List UInt8) :
    s.isMatch buffer = (!buffer.isEmpty && (Verdict.empty.weighAll settings.acceptCount
      (settings.patterns.countP (·.polarity == .reject) == 0)
      ((outline settings).readings buffer)).1.isMatch settings.acceptCount) := by
  obtain ⟨-, -, a, ha, rfl⟩ := compile_eq_ok_iff.1 h
  have hsize (q : Polarity) : ((Roster.empty.enlist settings.patterns).list q).size =
      settings.patterns.countP (·.polarity == q) := by
    rw [Roster.size_list_enlist, size_list_empty, Nat.zero_add]
  have hn : (Roster.empty.enlist settings.patterns).accept.size = settings.acceptCount :=
    hsize .accept
  have hstop : (Roster.empty.enlist settings.patterns).rejectsNothing =
      (settings.patterns.countP (·.polarity == .reject) == 0) := by
    rw [← hsize .reject]
    rfl
  rw [← hn, ← hstop, isMatch, Scan.isMatch,
    Scan.run_eq_of_insertAll (s := scan ⟨settings, _, a⟩) ha rfl]
  rfl

end Session

end Winnow
