import Mathlib.Data.List.Nodup
import Winnow.Proofs.Alternatives
import Winnow.Proofs.Text.Fields

/-!
# The acronyms of an acronym

The initials of a phrase are written in four ways. In two of them each initial is a word
again, so that these have the same initials; the other two are one word, which has no
acronyms. No initial is blank and no word of one character, or of one and a dot, is left
out, and the four ways differ in length. The phrase itself can be one of the four, but only
one in which the initials stand apart.
-/

namespace Winnow

theorem OrdSet.size_eq_length {α : Type} [Ord α] [Std.LawfulEqOrd α] {s : OrdSet α} {xs : List α}
    (hnodup : xs.Nodup) (h : ∀ x, x ∈ s ↔ x ∈ xs) : s.size = xs.length :=
  ((List.perm_ext_iff_of_nodup s.nodup hnodup).2 h).length_eq

namespace Variant

variable {phrase text cs : List Char} {c : Char}

def spaced (cs : List Char) : List Char := cs.intersperse ' '

def dotted (cs : List Char) : List Char := cs.flatMap ([·, '.'])

def dotSpaced (cs : List Char) : List Char := ['.', ' '].intercalate (cs.map ([·])) ++ ['.']

theorem acronyms_of_initials (h : initials text = cs) (hcs : 2 ≤ cs.length) :
    acronyms text = [cs, spaced cs, dotted cs, dotSpaced cs] := by
  rw [acronyms, h, if_neg (Nat.not_lt.2 hcs)]
  rfl

theorem acronyms_of_short (h : (initials text).length < 2) : acronyms text = [] := by
  rw [acronyms, if_pos h]

theorem two_le_of_acronyms (h : acronyms phrase ≠ []) : 2 ≤ (initials phrase).length := by
  apply Nat.le_of_not_lt
  intro hshort
  exact h (acronyms_of_short hshort)

theorem not_blank_of_mem_initials (h : c ∈ initials phrase) : Text.isBlank c = false := by
  obtain ⟨word, hword, hc⟩ := List.mem_filterMap.1 h
  obtain ⟨-, hplain⟩ := Text.of_mem_words (List.mem_filter.1 hword).1
  exact hplain c (List.mem_of_head? hc)

section Words

theorem isStopWord_singleton (c : Char) : isStopWord [c] = false := by
  simp [isStopWord]

theorem isStopWord_dotted (c : Char) : isStopWord [c, '.'] = false := by
  have hdot : Char.toLower '.' = '.' := by decide
  simp [isStopWord, hdot]

theorem length_initials_le (text : List Char) : (initials text).length ≤ (Text.words text).length :=
  (List.length_filterMap_le _ _).trans (List.length_filter_le _ _)

theorem acronyms_of_one_word (hne : text ≠ []) (h : ∀ c ∈ text, Text.isBlank c = false) :
    acronyms text = [] := by
  apply acronyms_of_short
  have hle := length_initials_le text
  rw [Text.words_of_not_blank hne h, List.length_singleton] at hle
  exact Nat.lt_succ_of_le hle

theorem initials_of_words {f : Char → List Char} (h : Text.words text = cs.map f)
    (hstop : ∀ c, isStopWord (f c) = false) (hhead : ∀ c, (f c).head? = some c) :
    initials text = cs := by
  have hsome : List.head? ∘ f = some := funext hhead
  rw [initials, h, List.filter_eq_self.2, List.filterMap_map, hsome, List.filterMap_some]
  · intro word hword
    obtain ⟨c, -, rfl⟩ := List.mem_map.1 hword
    rw [hstop, Bool.not_false]

theorem spaced_eq_intercalate (cs : List Char) : spaced cs = [' '].intercalate (cs.map ([·])) := by
  rw [List.intercalate, ← map_intersperse ([·]) ' ' cs]
  exact (List.flatMap_singleton' _).symm

theorem dotSpaced_eq_intercalate (hne : cs ≠ []) :
    dotSpaced cs = [' '].intercalate (cs.map ([·, '.'])) := by
  induction cs with
  | nil => exact absurd rfl hne
  | cons c cs ih =>
    cases cs with
    | nil => rfl
    | cons d cs =>
      have hrest := ih (List.cons_ne_nil d cs)
      rw [dotSpaced] at hrest ⊢
      simp only [List.map_cons, List.intercalate_cons_cons, List.append_assoc] at hrest ⊢
      rw [hrest]
      rfl

section Plain

variable (h : ∀ c ∈ cs, Text.isBlank c = false)

include h

theorem initials_spaced : initials (spaced cs) = cs := by
  have hwords : Text.words (spaced cs) = cs.map ([·]) := by
    rw [spaced_eq_intercalate]
    apply Text.words_intercalate
    intro word hword
    obtain ⟨c, hc, rfl⟩ := List.mem_map.1 hword
    exact ⟨List.cons_ne_nil c [], List.forall_mem_singleton.2 (h c hc)⟩
  exact initials_of_words hwords isStopWord_singleton fun _ => rfl

theorem initials_dotSpaced (hne : cs ≠ []) : initials (dotSpaced cs) = cs := by
  have hwords : Text.words (dotSpaced cs) = cs.map ([·, '.']) := by
    rw [dotSpaced_eq_intercalate hne]
    apply Text.words_intercalate
    intro word hword
    obtain ⟨c, hc, rfl⟩ := List.mem_map.1 hword
    refine ⟨List.cons_ne_nil c ['.'], List.forall_mem_cons.2 ⟨h c hc, ?_⟩⟩
    exact List.forall_mem_singleton.2 (by decide)
  exact initials_of_words hwords isStopWord_dotted fun _ => rfl

theorem not_blank_of_mem_dotted : ∀ c ∈ dotted cs, Text.isBlank c = false := by
  intro c hc
  obtain ⟨d, hd, hc⟩ := List.mem_flatMap.1 hc
  rcases List.mem_pair.1 hc with rfl | rfl
  · exact h c hd
  · decide

end Plain

end Words

section Lengths

theorem length_spaced (cs : List Char) : (spaced cs).length = 2 * cs.length - 1 :=
  List.length_intersperse

theorem length_dotted (cs : List Char) : (dotted cs).length = 2 * cs.length := by
  induction cs with
  | nil => rfl
  | cons c cs ih =>
    rw [dotted, List.flatMap_cons, List.length_append, ← dotted, ih, List.length_cons]
    exact Nat.add_comm 2 _

theorem length_dotSpaced (hne : cs ≠ []) : (dotSpaced cs).length + 1 = 3 * cs.length := by
  rw [dotSpaced_eq_intercalate hne]
  induction cs with
  | nil => exact absurd rfl hne
  | cons c cs ih =>
    cases cs with
    | nil => rfl
    | cons d cs =>
      have hrest := ih (List.cons_ne_nil d cs)
      simp only [List.map_cons, List.intercalate_cons_cons, List.length_append, List.length_cons,
        List.length_nil] at hrest ⊢
      omega

theorem pairwise_length (hcs : 2 ≤ cs.length) :
    [cs, spaced cs, dotted cs, dotSpaced cs].Pairwise fun v w => v.length < w.length := by
  have hspaced := length_spaced cs
  have hdotted := length_dotted cs
  have hboth := length_dotSpaced (List.ne_nil_of_length_pos (Nat.zero_lt_of_lt hcs))
  simp only [List.pairwise_cons, List.forall_mem_cons, List.not_mem_nil, false_imp_iff,
    implies_true, List.Pairwise.nil, and_true]
  omega

theorem nodup_forms (hcs : 2 ≤ cs.length) : [cs, spaced cs, dotted cs, dotSpaced cs].Nodup := by
  apply (pairwise_length hcs).imp
  intro v w hlt he
  rw [he] at hlt
  exact Nat.lt_irrefl _ hlt

theorem two_le_bytes_of_mem_forms (hcs : 2 ≤ cs.length) :
    ∀ form ∈ [cs, spaced cs, dotted cs, dotSpaced cs], 2 ≤ (String.ofList form).utf8ByteSize := by
  intro form hform
  have hlength : cs.length ≤ form.length := by
    rcases List.mem_cons.1 hform with rfl | hform
    · exact Nat.le_refl _
    · exact Nat.le_of_lt ((List.pairwise_cons.1 (pairwise_length hcs)).1 form hform)
  have hbytes := length_le_utf8ByteSize (.ofList form)
  rw [String.toList_ofList] at hbytes
  exact hcs.trans (hlength.trans hbytes)

end Lengths

theorem size_alternatives {v : Variant} {phrase : String} {forms : List (List Char)}
    (hforms : v.spellings phrase.toList = .ok forms) (hnodup : forms.Nodup)
    (hbytes : ∀ form ∈ forms, 2 ≤ (String.ofList form).utf8ByteSize) :
    ∃ others, alternatives [v] phrase = .ok others ∧
      others.size = if phrase.toList ∈ forms then forms.length - 1 else forms.length := by
  obtain ⟨others, ho, hmem⟩ := exists_alternatives_singleton hforms
  refine ⟨others, ho, ?_⟩
  have hinj : Function.Injective String.ofList := fun _ _ h => String.ofList_injective h
  have hkept (s : String) : s ∈ others ↔ s ∈ ((forms.erase phrase.toList).map String.ofList) := by
    rw [hmem, List.mem_map]
    constructor
    · intro hs
      obtain ⟨hform, -, hne⟩ := hs
      refine ⟨s.toList, (List.mem_erase_of_ne ?_).2 hform, String.ofList_toList⟩
      exact fun he => hne (String.toList_injective he)
    · intro hs
      obtain ⟨form, hform, rfl⟩ := hs
      obtain ⟨hne, hform⟩ := hnodup.mem_erase_iff.1 hform
      rw [String.toList_ofList]
      refine ⟨hform, hbytes form hform, ?_⟩
      intro he
      exact hne (by rw [← he, String.toList_ofList])
  rw [OrdSet.size_eq_length (List.Nodup.map hinj (hnodup.erase _)) hkept, List.length_map,
    List.length_erase]

/-- Where initials are set apart from each other they are the initials again, and where they are
run together there are no acronyms. So the phrase is left out of its own alternatives exactly if
it is one of the two forms with blanks. -/
theorem acronyms_fixed {phrase : String} (h : acronyms phrase.toList ≠ []) :
    ∃ plain spaced dotted dotSpaced : List Char,
      acronyms phrase.toList = [plain, spaced, dotted, dotSpaced] ∧
      acronyms spaced = acronyms phrase.toList ∧ acronyms dotSpaced = acronyms phrase.toList ∧
      acronyms plain = [] ∧ acronyms dotted = [] ∧
      [plain, spaced, dotted, dotSpaced].Nodup ∧
      (∀ form ∈ [plain, spaced, dotted, dotSpaced], 2 ≤ (String.ofList form).utf8ByteSize) ∧
      ∃ others, alternatives [.acronym] phrase = .ok others ∧
        others.size = if phrase.toList = spaced ∨ phrase.toList = dotSpaced then 3 else 4 := by
  have hcs := two_le_of_acronyms h
  have hblank : ∀ c ∈ initials phrase.toList, Text.isBlank c = false :=
    fun _ => not_blank_of_mem_initials
  generalize hinitials : initials phrase.toList = cs at hcs hblank
  have hne : cs ≠ [] := List.ne_nil_of_length_pos (Nat.zero_lt_of_lt hcs)
  have hforms := acronyms_of_initials hinitials hcs
  have hplain : acronyms cs = [] := acronyms_of_one_word hne hblank
  have hdotted : acronyms (dotted cs) = [] := by
    apply acronyms_of_one_word ?_ (not_blank_of_mem_dotted hblank)
    apply List.ne_nil_of_length_pos
    rw [length_dotted]
    omega
  have hspaced := acronyms_of_initials (initials_spaced hblank) hcs
  have hdotSpaced := acronyms_of_initials (initials_dotSpaced hblank hne) hcs
  have hself : phrase.toList ∈ [cs, spaced cs, dotted cs, dotSpaced cs] ↔
      phrase.toList = spaced cs ∨ phrase.toList = dotSpaced cs := by
    have hnot {form : List Char} (hnone : acronyms form = []) : phrase.toList ≠ form := by
      intro he
      rw [he] at h
      exact h hnone
    simp [hnot hplain, hnot hdotted]
  have hspellings : acronym.spellings phrase.toList =
      .ok [cs, spaced cs, dotted cs, dotSpaced cs] := congrArg Except.ok hforms
  obtain ⟨others, ho, hsize⟩ := size_alternatives hspellings (nodup_forms hcs)
    (two_le_bytes_of_mem_forms hcs)
  rw [if_congr hself rfl rfl] at hsize
  rw [hforms]
  exact ⟨cs, spaced cs, dotted cs, dotSpaced cs, rfl, hspaced, hdotSpaced, hplain, hdotted,
    nodup_forms hcs, two_le_bytes_of_mem_forms hcs, others, ho, hsize⟩

theorem acronyms_fixed_of_left_out_word :
    acronyms "o f".toList ≠ [] ∧
      acronyms "o f".toList = ["of".toList, "o f".toList, "o.f.".toList, "o. f.".toList] ∧
      acronyms "of".toList = [] ∧ acronyms "o. f.".toList = acronyms "o f".toList ∧
      ∃ others, alternatives [.acronym] "o f" = .ok others ∧ others.size = 3 := by
  have hsome : acronyms "o f".toList ≠ [] := by decide +kernel
  have hforms : acronyms "o f".toList =
      ["of".toList, "o f".toList, "o.f.".toList, "o. f.".toList] := by decide +kernel
  obtain ⟨plain, spaced, dotted, dotSpaced, hsame, -, hdotSpaced, hplain, -, -, -, others, ho,
    hsize⟩ := acronyms_fixed hsome
  rw [hforms] at hsame
  simp only [List.cons.injEq, and_true] at hsame
  obtain ⟨rfl, rfl, rfl, rfl⟩ := hsame
  rw [if_pos (Or.inl rfl)] at hsize
  exact ⟨hsome, hforms, hplain, hdotSpaced, others, ho, hsize⟩

end Variant

end Winnow
