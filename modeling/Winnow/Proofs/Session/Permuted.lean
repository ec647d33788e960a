import Winnow.Proofs.Session.Compilation

/-!
# The order of the patterns

The order in which patterns are given decides their numbers, and those of planes and
groups. It decides neither whether they compile, nor how large the tables get and which
bytes start a word, nor any answer.
-/

namespace Winnow.Session

variable {settings : Settings} {s s' : Session} {ps : List Pattern} {id : PatternId} {p : Pattern}

theorem folds_wordsOf_perm (caseless variantsOn : Bool) (r : Roster) {qs : List Pattern}
    (h : ps.Perm qs) :
    folds caseless (wordsOf variantsOn r ps) = folds caseless (wordsOf variantsOn r qs) := by
  ext v
  simp only [mem_folds_wordsOf, h.mem_iff]

section Numbers

variable (haccept : settings.acceptCount < 2 ^ 31)
  (hreject : settings.patterns.countP (·.polarity == .reject) < 2 ^ 31)

include haccept hreject

theorem mem_wanted_of_not_reject (h : (id, p) ∈ numbered .empty settings.patterns)
    (hr : id.isReject = false) : id ∈ Verdict.wanted settings.acceptCount := by
  apply number_mem_wanted haccept hreject h
  cases hp : p.polarity with
  | accept => rfl
  | reject =>
    rw [(isReject_number haccept hreject h).2 hp] at hr
    cases hr

theorem isMatch_iff_forall (h : compile settings = .ok s) (buffer : List UInt8) :
    s.isMatch buffer = true ↔
      buffer ≠ [] ∧ ∀ p ∈ settings.patterns, settings.Finds p buffer ↔ p.polarity = .accept := by
  have hread : (∀ p ∈ settings.patterns, settings.Finds p buffer ↔ p.polarity = .accept) ↔
      (∀ p ∈ settings.patterns, p.polarity = .accept → settings.Finds p buffer) ∧
        ∀ p ∈ settings.patterns, p.polarity = .reject → ¬settings.Finds p buffer := by
    rw [← forall₂_and]
    refine forall₂_congr fun p _ => ?_
    cases p.polarity <;> simp
  obtain ⟨-, -, a, ha, -⟩ := compile_eq_ok_iff.1 h
  have hgathers := (Verdict.gathers_weighAll settings.acceptCount
    (settings.patterns.countP (·.polarity == .reject) == 0) .empty _).congr
      (mem_readings_iff_finds ha (fun _ _ => mem_wordsOf) buffer)
  rw [isMatch_eq h, Bool.and_eq_true, Bool.not_eq_true', List.isEmpty_eq_false_iff, outline,
    hgathers.isMatch_iff haccept, read_iff_finds haccept hreject, hread]
  · intro id hp hr
    obtain ⟨p, hid, -⟩ := hp
    exact mem_wanted_of_not_reject haccept hreject hid hr
  · intro hstop id hp
    obtain ⟨p, hid, -⟩ := hp
    have hnone := List.countP_eq_zero.1 (beq_iff_eq.1 hstop) p (mem_numbered hid).1
    rw [Bool.eq_false_iff, Ne, isReject_number haccept hreject hid]
    exact mt beq_iff_eq.2 hnone

end Numbers

/-- Patterns in another order compile or fail alike, the tables are then as large and start
alike, and the answers are the same. -/
theorem compile_perm (h : settings.patterns.Perm ps) (haccept : settings.acceptCount < 2 ^ 31)
    (hreject : settings.patterns.countP (·.polarity == .reject) < 2 ^ 31) :
    ((∃ s, compile settings = .ok s) ↔ ∃ s', compile { settings with patterns := ps } = .ok s') ∧
    ∀ s s', compile settings = .ok s → compile { settings with patterns := ps } = .ok s' →
      s.automaton.size = s'.automaton.size ∧
      s.automaton.groups.size = s'.automaton.groups.size ∧
      s.automaton.starts = s'.automaton.starts ∧
      ∀ buffer, s.isMatch buffer = s'.isMatch buffer := by
  have hwords := folds_wordsOf_perm (!settings.caseSensitive) settings.variants .empty h
  have halternatives : (∀ p ∈ settings.patterns, ∃ others,
        p.alternatives settings.variants = .ok others) ↔
      ∀ p ∈ ps, ∃ others, p.alternatives settings.variants = .ok others := by
    simp only [h.mem_iff]
  refine ⟨exists_compile_congr hwords h.length_eq halternatives, fun s s' hs hs' => ?_⟩
  have hmatch (buffer : List UInt8) : s.isMatch buffer = s'.isMatch buffer := by
    have haccept' : Settings.acceptCount { settings with patterns := ps } < 2 ^ 31 := by
      rwa [Settings.acceptCount, ← h.countP_eq]
    have hreject' : ps.countP (·.polarity == .reject) < 2 ^ 31 := by
      rwa [← h.countP_eq]
    rw [Bool.eq_iff_iff, isMatch_iff_forall haccept hreject hs,
      isMatch_iff_forall haccept' hreject' hs']
    simp only [h.mem_iff]
    rfl
  obtain ⟨hsize, hgroups, hstarts⟩ := shape_congr hwords hs hs'
  exact ⟨hsize, hgroups, hstarts, hmatch⟩

theorem compile_perm_of_shared_stem :
    let first : Pattern := ⟨"Dept of", .accept, [.contraction]⟩
    let settings := { Settings.of [first, .plain .reject "ab", .plain .accept "De"] "." with
      variants := true, layout := .nibble }
    let ps := [.plain .accept "De", .plain .reject "ab", first]
    settings.patterns.Perm ps ∧ ∃ s s', compile settings = .ok s ∧
      compile { settings with patterns := ps } = .ok s' ∧ s.automaton.size = s'.automaton.size ∧
      s.automaton.starts = s'.automaton.starts ∧
      ∀ buffer, s.isMatch buffer = s'.isMatch buffer := by
  intro first settings ps
  have hp : settings.patterns.Perm ps := (List.reverse_perm settings.patterns).symm
  obtain ⟨s, h⟩ : ∃ s, compile settings = .ok s := by
    unfold settings first
    exact ⟨_, rfl⟩
  obtain ⟨s', h'⟩ := (compile_perm hp (by decide) (by decide)).1.1 ⟨s, h⟩
  obtain ⟨hsize, -, hstarts, hmatch⟩ := (compile_perm hp (by decide) (by decide)).2 s s' h h'
  exact ⟨hp, s, s', h, h', hsize, hstarts, hmatch⟩

end Winnow.Session
