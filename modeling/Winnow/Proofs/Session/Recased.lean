import Mathlib.Data.List.Forall2
import Winnow.Proofs.Alternatives
import Winnow.Proofs.Session.Compilation

/-!
# The case of letters

Where case is ignored, patterns that differ in the case of letters have the same words up
to case, though not always as alternatives: what is one for a phrase may be the phrase
itself for the other. So they compile or fail alike, the tables are as large, and each
buffer gives the same readings, in whatever case its own letters are.
-/

namespace Winnow

open AsciiCase (fold lower)

/-- The same pattern but for the case of letters. -/
structure Pattern.Recased (p q : Pattern) : Prop where
  lower_eq : p.text.toList.map Char.toLower = q.text.toList.map Char.toLower
  polarity_eq : p.polarity = q.polarity
  variants_eq : p.variants = q.variants

namespace Pattern.Recased

variable {p q : Pattern} {variantsOn : Bool}

theorem symm (h : p.Recased q) : q.Recased p :=
  ⟨h.lower_eq.symm, h.polarity_eq.symm, h.variants_eq.symm⟩

theorem exists_alternatives (h : p.Recased q) {others : OrdSet String}
    (ho : p.alternatives variantsOn = .ok others) :
    ∃ others', q.alternatives variantsOn = .ok others' ∧
      ∀ x ∈ others, ∃ y, (y = q.text ∨ y ∈ others') ∧
        y.toList.map Char.toLower = x.toList.map Char.toLower := by
  cases variantsOn with
  | false =>
    cases ho
    exact ⟨∅, rfl, fun x hx => absurd hx (OrdSet.not_mem_empty x)⟩
  | true =>
    change Variant.alternatives p.variants p.text = .ok others at ho
    rw [h.variants_eq] at ho
    exact Variant.exists_alternatives h.lower_eq ho

theorem exists_word (h : p.Recased q) {w : List UInt8} (hw : p.IsWord variantsOn w) :
    ∃ w', q.IsWord variantsOn w' ∧ fold true w' = fold true w := by
  rcases hw with rfl | ⟨others, ho, x, hx, rfl⟩
  · exact ⟨_, Or.inl rfl, fold_encode_congr h.lower_eq.symm⟩
  · obtain ⟨others', ho', hother⟩ := h.exists_alternatives ho
    obtain ⟨y, hy, hlower⟩ := hother x hx
    refine ⟨Utf8.encode y, ?_, fold_encode_congr hlower⟩
    rcases hy with rfl | hy
    · exact Or.inl rfl
    · exact Or.inr ⟨others', ho', y, hy, rfl⟩

theorem exists_word_iff (h : p.Recased q) {v : List UInt8} :
    (∃ w, p.IsWord variantsOn w ∧ fold true w = v) ↔
      ∃ w, q.IsWord variantsOn w ∧ fold true w = v := by
  constructor
  · intro ⟨w, hw, hv⟩
    obtain ⟨w', hw', he⟩ := h.exists_word hw
    exact ⟨w', hw', he.trans hv⟩
  · intro ⟨w, hw, hv⟩
    obtain ⟨w', hw', he⟩ := h.symm.exists_word hw
    exact ⟨w', hw', he.trans hv⟩

theorem exists_alternatives_iff (h : p.Recased q) :
    (∃ others, p.alternatives variantsOn = .ok others) ↔
      ∃ others, q.alternatives variantsOn = .ok others := by
  constructor
  · intro ⟨others, ho⟩
    obtain ⟨others', ho', -⟩ := h.exists_alternatives ho
    exact ⟨others', ho'⟩
  · intro ⟨others, ho⟩
    obtain ⟨others', ho', -⟩ := h.symm.exists_alternatives ho
    exact ⟨others', ho'⟩

end Pattern.Recased

theorem AsciiCase.fold_cons_eq (caseless : Bool) (b : UInt8) (bs : List UInt8) :
    fold caseless (b :: bs) = (forms caseless b).2 :: fold caseless bs := by
  cases caseless <;> rfl

namespace Outline

variable {o o' : Outline}

theorem readingsBelow_fold (o : Outline) (u bs : List UInt8) :
    o.readingsBelow u (fold o.caseless bs) = o.readingsBelow u bs := by
  induction bs generalizing u with
  | nil => rw [AsciiCase.fold_nil]
  | cons b bs ih =>
    have hb : fold o.caseless [(AsciiCase.forms o.caseless b).2] = fold o.caseless [b] :=
      AsciiCase.fold_eq_fold_iff.2 (Or.inr rfl)
    rw [AsciiCase.fold_cons_eq, readingsBelow, readingsBelow, hb, ih]

theorem readings_fold (o : Outline) (bs : List UInt8) :
    o.readings (fold o.caseless bs) = o.readings bs := by
  induction bs with
  | nil => rw [AsciiCase.fold_nil]
  | cons b bs ih =>
    have hbelow := readingsBelow_fold o [] (b :: bs)
    rw [AsciiCase.fold_cons_eq] at hbelow ⊢
    rw [readings, readings, hbelow, ih]

end Outline

namespace Session

variable {settings : Settings} {ps qs : List Pattern} {r r' : Roster} {variantsOn : Bool}

theorem exists_mem_iff {P : Pattern → Prop} (h : List.Forall₂ Pattern.Recased ps qs)
    (hP : ∀ p q, p.Recased q → (P p ↔ P q)) : (∃ p ∈ ps, P p) ↔ ∃ q ∈ qs, P q := by
  induction h with
  | nil => simp
  | cons hpq _ ih => simp only [List.mem_cons, exists_eq_or_imp, hP _ _ hpq, ih]

theorem forall_mem_iff {P : Pattern → Prop} (h : List.Forall₂ Pattern.Recased ps qs)
    (hP : ∀ p q, p.Recased q → (P p ↔ P q)) : (∀ p ∈ ps, P p) ↔ ∀ q ∈ qs, P q := by
  induction h with
  | nil => simp
  | cons hpq _ ih => simp only [List.forall_mem_cons, hP _ _ hpq, ih]

theorem exists_numbered_iff {P : Pattern → Prop} {id : PatternId}
    (h : List.Forall₂ Pattern.Recased ps qs) (hP : ∀ p q, p.Recased q → (P p ↔ P q))
    (hr : ∀ s, (r.list s).size = (r'.list s).size) :
    (∃ p, (id, p) ∈ numbered r ps ∧ P p) ↔ ∃ q, (id, q) ∈ numbered r' qs ∧ P q := by
  induction h generalizing r r' with
  | nil => simp [numbered]
  | @cons p q ps qs hpq _ ih =>
    have hid : r.nextId p.polarity = r'.nextId q.polarity := by
      rw [Roster.nextId, Roster.nextId, hpq.polarity_eq, hr]
    have hpush (s : Polarity) : ((r.push p.polarity p.text).list s).size =
        ((r'.push q.polarity q.text).list s).size := by
      rw [Roster.size_list_push, Roster.size_list_push, hpq.polarity_eq, hr]
    have hrest := ih hpush
    simp only [numbered, List.mem_cons, Prod.mk.injEq, or_and_right, exists_or, hrest, hid]
    simp only [and_assoc, exists_and_left, exists_eq_left, hP _ _ hpq]

theorem countP_polarity_eq (h : List.Forall₂ Pattern.Recased ps qs) (s : Polarity) :
    ps.countP (·.polarity == s) = qs.countP (·.polarity == s) := by
  induction h with
  | nil => rfl
  | cons hpq _ ih => rw [List.countP_cons, List.countP_cons, ih, hpq.polarity_eq]

theorem folds_wordsOf_recased (variantsOn : Bool) (r : Roster) (hcase : settings.caseSensitive = false)
    (h : List.Forall₂ Pattern.Recased ps qs) :
    folds (!settings.caseSensitive) (wordsOf variantsOn r ps) =
      folds (!settings.caseSensitive) (wordsOf variantsOn r qs) := by
  ext v
  rw [mem_folds_wordsOf, mem_folds_wordsOf, hcase]
  exact exists_mem_iff h fun p q hpq => hpq.exists_word_iff

theorem mem_marks_outline_recased (hcase : settings.caseSensitive = false)
    (h : List.Forall₂ Pattern.Recased settings.patterns ps) {s s' : Session}
    (hs : compile settings = .ok s) (hs' : compile { settings with patterns := ps } = .ok s')
    (v : List UInt8) (id : PatternId) :
    (v, id) ∈ (outline settings).marks ↔
      (v, id) ∈ (outline { settings with patterns := ps }).marks := by
  rw [mem_marks_outline hs, mem_marks_outline hs', hcase, Bool.not_false]
  refine and_congr_right fun _ => ?_
  exact exists_numbered_iff h (fun p q hpq => hpq.exists_word_iff) fun _ => rfl

theorem readings_outline_recased (hcase : settings.caseSensitive = false)
    (h : List.Forall₂ Pattern.Recased settings.patterns ps) {s s' : Session}
    (hs : compile settings = .ok s) (hs' : compile { settings with patterns := ps } = .ok s')
    {bs bs' : List UInt8} (hb : bs.map lower = bs'.map lower) :
    (outline settings).readings bs =
      (outline { settings with patterns := ps }).readings bs' := by
  have hc : (outline settings).caseless = true := by
    rw [outline, Outline.caseless_insertEach, hcase]
    rfl
  have hc' : (outline { settings with patterns := ps }).caseless = true := by
    rw [outline, Outline.caseless_insertEach, hcase]
    rfl
  have hfold : fold true bs = fold true bs' := hb
  rw [← Outline.readings_fold, ← Outline.readings_fold _ bs', hc, hc', hfold]
  exact Outline.readings_congr (hc.trans hc'.symm) (mem_marks_outline_recased hcase h hs hs') _

/-- Where case is ignored, neither that of the patterns nor that of the buffer matters:
recased patterns compile or fail alike, the tables are as large, and the answers to recased
buffers are the same. -/
theorem compile_recased (hcase : settings.caseSensitive = false)
    (h : List.Forall₂ Pattern.Recased settings.patterns ps) :
    ((∃ s, compile settings = .ok s) ↔ ∃ s', compile { settings with patterns := ps } = .ok s') ∧
    ∀ s s', compile settings = .ok s → compile { settings with patterns := ps } = .ok s' →
      s.automaton.size = s'.automaton.size ∧
      s.automaton.groups.size = s'.automaton.groups.size ∧
      ∀ bs bs', bs.map lower = bs'.map lower → s.isMatch bs = s'.isMatch bs' := by
  have hwords := folds_wordsOf_recased settings.variants .empty hcase h
  have halternatives : (∀ p ∈ settings.patterns, ∃ others,
        p.alternatives settings.variants = .ok others) ↔
      ∀ p ∈ ps, ∃ others, p.alternatives settings.variants = .ok others :=
    forall_mem_iff h fun p q hpq => hpq.exists_alternatives_iff
  refine ⟨exists_compile_congr hwords h.length_eq halternatives, fun s s' hs hs' => ?_⟩
  have hmatch (bs bs' : List UInt8) (hb : bs.map lower = bs'.map lower) :
      s.isMatch bs = s'.isMatch bs' := by
    have hempty : bs.isEmpty = bs'.isEmpty := by
      have hlength := congrArg List.length hb
      rw [List.length_map, List.length_map] at hlength
      rw [Bool.eq_iff_iff, List.isEmpty_iff_length_eq_zero, hlength, List.isEmpty_iff_length_eq_zero]
    have haccept : settings.acceptCount = Settings.acceptCount { settings with patterns := ps } :=
      countP_polarity_eq h .accept
    have hread := readings_outline_recased hcase h hs hs' hb
    rw [isMatch_eq hs, isMatch_eq hs', hempty, haccept, hread, countP_polarity_eq h .reject]
  obtain ⟨hsize, hgroups, -⟩ := shape_congr hwords hs hs'
  exact ⟨hsize, hgroups, hmatch⟩

theorem compile_recased_of_swap :
    let settings := { Settings.of [⟨"aAbcd", .accept, [.levenshtein]⟩, .plain .reject "xy"] "." with
      variants := true, caseSensitive := false, layout := .nibble }
    let ps := [⟨"AAbCd", .accept, [.levenshtein]⟩, .plain .reject "Xy"]
    settings.caseSensitive = false ∧ List.Forall₂ Pattern.Recased settings.patterns ps ∧
      ∃ s s', compile settings = .ok s ∧ compile { settings with patterns := ps } = .ok s' ∧
        s.automaton.size = s'.automaton.size ∧
        s.automaton.groups.size = s'.automaton.groups.size ∧
        ∀ bs bs', bs.map lower = bs'.map lower → s.isMatch bs = s'.isMatch bs' := by
  intro settings ps
  have hr : List.Forall₂ Pattern.Recased settings.patterns ps :=
    .cons ⟨by decide, rfl, rfl⟩ (.cons ⟨by decide, rfl, rfl⟩ .nil)
  obtain ⟨s, hs⟩ : ∃ s, compile settings = .ok s := by
    have hok : (compile settings).isOk = true := by decide +kernel
    cases hs : compile settings with
    | error e =>
      rw [hs] at hok
      cases hok
    | ok s => exact ⟨s, rfl⟩
  obtain ⟨s', hs'⟩ := (compile_recased rfl hr).1.1 ⟨s, hs⟩
  exact ⟨rfl, hr, s, s', hs, hs', (compile_recased rfl hr).2 s s' hs hs'⟩

end Session

end Winnow
