import Mathlib.Data.List.Basic
import Mathlib.Data.List.InsertIdx
import Winnow.Alternatives
import Winnow.Text.AsciiCase

/-!
# Alternatives and the case of letters

Every kind of variant looks at letters without regard to case, and so the spellings of a
phrase in lower case are those of the phrase itself, in lower case. What sets two recased
phrases apart is which of their spellings is the phrase, and that one they both have as
a word anyway.
-/

namespace Winnow

theorem forall_toLower {P : Char → Char → Prop}
    (other : ∀ c, ¬(65 ≤ c.toNat ∧ c.toNat ≤ 90) → P c c)
    (letter : ∀ n : Fin 26, P (.ofNat (65 + n)) (.ofNat (97 + n))) (c : Char) : P c c.toLower := by
  by_cases hc : 65 ≤ c.toNat ∧ c.toNat ≤ 90
  · have hlower : ∀ n : Fin 26, (Char.ofNat (65 + n)).toLower = .ofNat (97 + n) := by decide
    have heq : c = .ofNat (65 + (c.toNat - 65)) := by
      rw [Nat.add_sub_cancel' hc.1, Char.ofNat_toNat]
    have hp := letter ⟨c.toNat - 65, by omega⟩
    rw [← hlower] at hp
    rwa [← heq] at hp
  · have hsame : c.toLower = c := dif_neg hc
    rw [hsame]
    exact other c hc

theorem toLower_toLower (c : Char) : c.toLower.toLower = c.toLower := by
  refine forall_toLower (P := fun _ d => d.toLower = d) (fun c hc => ?_) (by decide) c
  exact dif_neg hc

theorem isBlank_toLower (c : Char) : Text.isBlank c.toLower = Text.isBlank c :=
  forall_toLower (P := fun c d => Text.isBlank d = Text.isBlank c) (fun _ _ => rfl) (by decide) c

open AsciiCase (fold lower)

theorem lower_ofNat {n : Nat} (hn : n < 256) (h : ¬(65 ≤ n ∧ n ≤ 90)) :
    lower (.ofNat n) = .ofNat n := by
  have hall : ∀ n : Fin 256, ¬(65 ≤ n.1 ∧ n.1 ≤ 90) → lower (.ofNat n.1) = .ofNat n.1 := by
    decide +kernel
  exact hall ⟨n, hn⟩ h

theorem utf8EncodeChar_toLower (c : Char) :
    String.utf8EncodeChar c.toLower = (String.utf8EncodeChar c).map lower := by
  refine forall_toLower (P := fun c d => String.utf8EncodeChar d = (String.utf8EncodeChar c).map lower)
    (fun c hc => ?_) (by decide) c
  have high {n : Nat} (h1 : 128 ≤ n) (h2 : n < 256) : lower (.ofNat n) = .ofNat n :=
    lower_ofNat h2 (by omega)
  change ¬(65 ≤ c.val.toNat ∧ c.val.toNat ≤ 90) at hc
  -- one case for each number of bytes; with more than one of them all are from 128 on
  simp only [String.utf8EncodeChar]
  split
  · rw [List.map_singleton, lower_ofNat (by omega) hc]
  · split
    · simp only [List.map_cons, List.map_nil]
      rw [high (by omega) (by omega), high (by omega) (by omega)]
    · split
      · simp only [List.map_cons, List.map_nil]
        rw [high (by omega) (by omega), high (by omega) (by omega), high (by omega) (by omega)]
      · simp only [List.map_cons, List.map_nil]
        rw [high (by omega) (by omega), high (by omega) (by omega), high (by omega) (by omega),
          high (by omega) (by omega)]

theorem fold_encode (s : String) :
    fold true (Utf8.encode s) = (s.toList.map Char.toLower).flatMap String.utf8EncodeChar := by
  rw [List.flatMap_map]
  simp only [fold, ↓reduceIte, Utf8.encode, List.map_flatMap, utf8EncodeChar_toLower]

theorem fold_encode_congr {s t : String}
    (h : s.toList.map Char.toLower = t.toList.map Char.toLower) :
    fold true (Utf8.encode s) = fold true (Utf8.encode t) := by
  rw [fold_encode, fold_encode, h]

theorem length_encode (s : String) : (Utf8.encode s).length = s.utf8ByteSize := by
  rw [← String.size_toByteArray, ← String.utf8Encode_toList, List.utf8Encode,
    List.size_toByteArray]
  rfl

theorem length_le_utf8ByteSize (s : String) : s.toList.length ≤ s.utf8ByteSize := by
  rw [← length_encode, Utf8.encode]
  induction s.toList with
  | nil => exact Nat.le_refl 0
  | cons c cs ih =>
    have hc := c.utf8Size_pos
    rw [List.flatMap_cons, List.length_append, String.length_utf8EncodeChar, List.length_cons]
    omega

theorem utf8ByteSize_congr {s t : String}
    (h : s.toList.map Char.toLower = t.toList.map Char.toLower) :
    s.utf8ByteSize = t.utf8ByteSize := by
  have hlength := congrArg List.length (fold_encode_congr h)
  rwa [AsciiCase.length_fold, AsciiCase.length_fold, length_encode, length_encode] at hlength

namespace Text

variable {p : Char → Bool} {f : Char → Char}

theorem fields_map (h : ∀ c, p (f c) = p c) (cs : List Char) :
    fields p (cs.map f) = (fields p cs).map (List.map f) := by
  induction cs with
  | nil => rfl
  | cons c cs ih =>
    simp only [List.map_cons, fields, h, ih]
    split
    · rfl
    · cases fields p cs <;> rfl

theorem words_map (h : ∀ c, isBlank (f c) = isBlank c) (cs : List Char) :
    words (cs.map f) = (words cs).map (List.map f) := by
  rw [words, fields_map h, List.filter_map, words]
  refine congrArg _ (List.filter_congr fun w _ => ?_)
  cases w <;> rfl

end Text

namespace Variant

theorem isVowel_toLower (c : Char) : isVowel c.toLower = isVowel c :=
  forall_toLower (P := fun c d => isVowel d = isVowel c) (fun _ _ => rfl) (by decide) c

theorem isStopWord_lower (w : List Char) : isStopWord (w.map Char.toLower) = isStopWord w := by
  have h : (w.map Char.toLower).map Char.toLower = w.map Char.toLower := by
    rw [List.map_map]
    exact List.map_congr_left fun c _ => toLower_toLower c
  rw [isStopWord, h, isStopWord]

theorem initials_lower (cs : List Char) :
    initials (cs.map Char.toLower) = (initials cs).map Char.toLower := by
  have hstop : (fun w => !isStopWord w) ∘ List.map Char.toLower = fun w => !isStopWord w :=
    funext fun w => congrArg not (isStopWord_lower w)
  rw [initials, Text.words_map isBlank_toLower, List.filter_map, hstop, List.filterMap_map,
    initials, List.map_filterMap]
  refine List.filterMap_congr fun w _ => ?_
  exact List.head?_map

theorem map_intersperse {α β : Type} (f : α → β) (sep : α) (cs : List α) :
    (cs.intersperse sep).map f = (cs.map f).intersperse (f sep) := by
  induction cs with
  | nil => rfl
  | cons c cs ih =>
    cases cs with
    | nil => rfl
    | cons d cs => simpa using ih

theorem acronyms_lower (cs : List Char) :
    acronyms (cs.map Char.toLower) = (acronyms cs).map (List.map Char.toLower) := by
  have hdot : Char.toLower '.' = '.' := by decide
  have hblank : Char.toLower ' ' = ' ' := by decide
  have hspaced := map_intersperse Char.toLower ' ' (initials cs)
  have hdotted := map_intersperse (List.map Char.toLower) ['.', ' '] ((initials cs).map ([·]))
  rw [hblank] at hspaced
  rw [List.map_map] at hdotted
  rw [acronyms, acronyms, initials_lower, List.length_map]
  split
  · rfl
  · simp only [List.map_cons, List.map_nil, hspaced, List.intercalate, List.map_append,
      List.map_flatten, hdotted, hdot, hblank, List.flatMap_map, List.map_flatMap, List.map_map]
    rfl

theorem vowelPlaces_lower (cs : List Char) : vowelPlaces (cs.map Char.toLower) = vowelPlaces cs := by
  have hvowel : (fun x : Char × Nat => isVowel x.1) ∘ Prod.map Char.toLower id =
      fun x => isVowel x.1 := funext fun x => isVowel_toLower x.1
  rw [vowelPlaces, List.zipIdx_map, ← List.map_drop, List.filter_map, hvowel, ← List.map_take,
    List.map_map, vowelPlaces]
  rfl

theorem contractions_lower (cs : List Char) :
    contractions (cs.map Char.toLower) = (contractions cs).map (List.map Char.toLower) := by
  have hdot : Char.toLower '.' = '.' := by decide
  rw [contractions, vowelPlaces_lower, contractions, List.map_flatMap]
  refine congrArg (List.flatMap · _) (funext fun n => ?_)
  simp [List.map_take, hdot]

theorem stems_lower (cs : List Char) :
    stems (cs.map Char.toLower) = (stems cs).map (List.map Char.toLower) := by
  rw [stems, stems, List.length_map, List.map_map]
  refine List.map_congr_left fun n _ => ?_
  exact List.map_take.symm

theorem swapped_map (f : Char → Char) (cs : List Char) (i : Nat) :
    swapped (cs.map f) i = (swapped cs i).map f := by
  induction i generalizing cs with
  | zero =>
    cases cs with
    | nil => rfl
    | cons a cs => cases cs <;> rfl
  | succ i ih =>
    cases cs with
    | nil => rfl
    | cons a cs => rw [List.map_cons, swapped, ih, swapped, List.map_cons]

theorem slips_lower (cs : List Char) :
    slips (cs.map Char.toLower) = (slips cs).map (List.map Char.toLower) := by
  have hat (i : Nat) : slipsAt (cs.map Char.toLower) i =
      (slipsAt cs i).map (List.map Char.toLower) := by
    cases i <;> simp [slipsAt, without, doubled, swapped_map, List.eraseIdx_map, List.map_take,
      List.map_drop]
  rw [slips, slips, List.length_map]
  split
  · rfl
  · rw [List.map_flatMap, funext hat]

theorem spellings_lower (v : Variant) (cs : List Char) :
    v.spellings (cs.map Char.toLower) = (v.spellings cs).map (List.map (List.map Char.toLower)) := by
  cases v with
  | acronym => exact congrArg Except.ok (acronyms_lower cs)
  | contraction => exact congrArg Except.ok (contractions_lower cs)
  | ellipses => exact congrArg Except.ok (stems_lower cs)
  | levenshtein => exact congrArg Except.ok (slips_lower cs)
  | fatFinger | sensitive | thesaurus | unicode => rfl

theorem mapM_spellings_lower (vs : List Variant) (cs : List Char) :
    vs.mapM (spellings · (cs.map Char.toLower)) =
      (vs.mapM (spellings · cs)).map (List.map (List.map (List.map Char.toLower))) := by
  induction vs with
  | nil => rfl
  | cons v vs ih =>
    rw [List.mapM_cons, List.mapM_cons, ih, spellings_lower]
    cases v.spellings cs with
    | error e => rfl
    | ok xs => cases vs.mapM (spellings · cs) <;> rfl

theorem exists_spellings {vs : List Variant} {cs ds : List Char} {xs : List (List (List Char))}
    (h : cs.map Char.toLower = ds.map Char.toLower) (hx : vs.mapM (spellings · cs) = .ok xs) :
    ∃ ys, vs.mapM (spellings · ds) = .ok ys ∧
      ∀ x ∈ xs.flatten, ∃ y ∈ ys.flatten, y.map Char.toLower = x.map Char.toLower := by
  have hlower := mapM_spellings_lower vs ds
  rw [← h, mapM_spellings_lower, hx] at hlower
  cases hy : vs.mapM (spellings · ds) with
  | error e =>
    rw [hy] at hlower
    cases hlower
  | ok ys =>
    rw [hy] at hlower
    have hflat := congrArg List.flatten (Except.ok.inj hlower)
    rw [← List.map_flatten, ← List.map_flatten] at hflat
    refine ⟨ys, rfl, fun x hxm => ?_⟩
    have hm := List.mem_map_of_mem (f := List.map Char.toLower) hxm
    rw [hflat] at hm
    exact List.mem_map.1 hm

theorem alternatives_singleton {v : Variant} {phrase : String} {xs : List (List Char)}
    (h : v.spellings phrase.toList = .ok xs) : alternatives [v] phrase =
      .ok (.ofList ((xs.map String.ofList).filter fun s =>
        minPatternBytes ≤ s.utf8ByteSize && s != phrase)) := by
  have hall : [v].mapM (spellings · phrase.toList) = .ok [xs] := by
    rw [List.mapM_cons, h]
    rfl
  rw [alternatives, hall]
  change Except.ok (OrdSet.ofList (([xs].flatten.map String.ofList).filter _)) = _
  rw [List.flatten_singleton]

theorem exists_alternatives_singleton {v : Variant} {phrase : String} {xs : List (List Char)}
    (h : v.spellings phrase.toList = .ok xs) :
    ∃ others, alternatives [v] phrase = .ok others ∧ ∀ s, s ∈ others ↔
      s.toList ∈ xs ∧ minPatternBytes ≤ s.utf8ByteSize ∧ s ≠ phrase := by
  refine ⟨_, alternatives_singleton h, fun s => ?_⟩
  have hfound : s ∈ xs.map String.ofList ↔ s.toList ∈ xs := by
    constructor
    · intro hs
      obtain ⟨cs, hcs, rfl⟩ := List.mem_map.1 hs
      rwa [String.toList_ofList]
    · intro hs
      exact List.mem_map.2 ⟨_, hs, String.ofList_toList⟩
  rw [OrdSet.mem_ofList, List.mem_filter, hfound, Bool.and_eq_true, decide_eq_true_eq, bne_iff_ne]

theorem exists_alternatives {vs : List Variant} {s t : String} {others : OrdSet String}
    (h : s.toList.map Char.toLower = t.toList.map Char.toLower)
    (ho : alternatives vs s = .ok others) :
    ∃ others', alternatives vs t = .ok others' ∧
      ∀ x ∈ others, ∃ y, (y = t ∨ y ∈ others') ∧
        y.toList.map Char.toLower = x.toList.map Char.toLower := by
  cases hx : vs.mapM (spellings · s.toList) with
  | error e =>
    rw [alternatives, hx] at ho
    cases ho
  | ok xs =>
    obtain ⟨ys, hy, hspell⟩ := exists_spellings h hx
    rw [alternatives, hx] at ho
    cases ho
    refine ⟨_, by rw [alternatives, hy]; rfl, fun x hxm => ?_⟩
    obtain ⟨hfound, hlong⟩ := List.mem_filter.1 (OrdSet.mem_ofList.1 hxm)
    obtain ⟨cs, hcs, rfl⟩ := List.mem_map.1 hfound
    obtain ⟨ds, hds, he⟩ := hspell cs hcs
    have hlower : (String.ofList ds).toList.map Char.toLower =
        (String.ofList cs).toList.map Char.toLower := by
      rwa [String.toList_ofList, String.toList_ofList]
    refine ⟨.ofList ds, ?_, hlower⟩
    by_cases ht : String.ofList ds = t
    · exact Or.inl ht
    · rw [Bool.and_eq_true, decide_eq_true_eq, ← utf8ByteSize_congr hlower] at hlong
      refine Or.inr (OrdSet.mem_ofList.2 (List.mem_filter.2 ⟨List.mem_map_of_mem hds, ?_⟩))
      simp [hlong.1, ht]

end Variant

end Winnow
