import Mathlib.Data.List.TakeDrop
import Mathlib.Data.List.TakeWhile
import Winnow.Text.Blank

/-!
# Texts cut where they were joined

What was joined by a separator that stands in none of the parts is cut into these parts
again, and the parts of a text are joined to the text. Only blanks are trimmed off an item, and
all of them, and words are found again that were joined by a blank.
-/

namespace Winnow.Text

variable {p : Char → Bool} {b : Char} {cs f before after : List Char} {fs : List (List Char)}

section Span

variable {c : Char}

theorem bne_of_not_mem (h : c ∉ cs) : ∀ d ∈ cs, (d != c) = true := by
  intro d hd
  refine bne_iff_ne.2 fun he => h ?_
  rwa [← he]

theorem span_of_not_mem (h : c ∉ cs) : cs.span (· != c) = (cs, []) := by
  rw [List.span_eq_takeWhile_dropWhile, List.takeWhile_eq_self_iff.2 (bne_of_not_mem h),
    List.dropWhile_eq_nil_iff.2 (bne_of_not_mem h)]

theorem span_append_cons (h : c ∉ cs) (ds : List Char) :
    (cs ++ c :: ds).span (· != c) = (cs, c :: ds) := by
  have hstop : ¬(c != c) = true := by rw [bne_self_eq_false]; exact Bool.false_ne_true
  rw [List.span_eq_takeWhile_dropWhile, List.takeWhile_append_of_pos (bne_of_not_mem h),
    List.dropWhile_append_of_pos (bne_of_not_mem h),
    List.takeWhile_cons_of_neg (p := (· != c)) hstop,
    List.dropWhile_cons_of_neg (p := (· != c)) hstop, List.append_nil]

end Span

theorem fields_eq_splitOnP (p : Char → Bool) (cs : List Char) : fields p cs = cs.splitOnP p := by
  induction cs with
  | nil => rfl
  | cons c cs ih =>
    rw [fields, List.splitOnP_cons_eq_if_modifyHead, ih]
    split
    · rfl
    · cases hparts : cs.splitOnP p with
      | nil => exact absurd hparts (List.splitOnP_ne_nil p cs)
      | cons part parts => rfl

theorem fields_of_not (h : ∀ c ∈ cs, p c = false) : fields p cs = [cs] := by
  rw [fields_eq_splitOnP, List.splitOnP_eq_singleton h]

theorem not_of_mem_fields (h : f ∈ fields p cs) : ∀ c ∈ f, p c = false := by
  induction cs generalizing f with
  | nil =>
    rw [fields, List.mem_singleton] at h
    rw [h]
    exact List.forall_mem_nil _
  | cons d cs ih =>
    rw [fields] at h
    split at h
    · rcases List.mem_cons.1 h with rfl | h
      · exact List.forall_mem_nil _
      · exact ih h
    · rename_i hd
      split at h
      · rename_i hnil
        exact absurd hnil (fields_ne_nil p cs)
      · rename_i part parts hparts
        rw [hparts] at ih
        rcases List.mem_cons.1 h with rfl | h
        · exact List.forall_mem_cons.2 ⟨Bool.eq_false_iff.2 hd, ih List.mem_cons_self⟩
        · exact ih (List.mem_cons_of_mem part h)

section Trim

theorem trimEnd_eq (cs : List Char) : trimEnd cs = (trimStart cs.reverse).reverse := rfl

theorem trimStart_eq_self (h : ∀ c ∈ cs.head?, isBlank c = false) : trimStart cs = cs := by
  cases cs with
  | nil => rfl
  | cons c cs => exact List.dropWhile_cons_of_neg (Bool.eq_false_iff.1 (h c rfl))

theorem trimEnd_eq_self (h : ∀ c ∈ cs.getLast?, isBlank c = false) : trimEnd cs = cs := by
  rw [← List.head?_reverse] at h
  rw [trimEnd_eq, trimStart_eq_self h, List.reverse_reverse]

theorem trim_eq_self (hhead : ∀ c ∈ cs.head?, isBlank c = false)
    (hlast : ∀ c ∈ cs.getLast?, isBlank c = false) : trim cs = cs := by
  rw [trim, trimStart_eq_self hhead, trimEnd_eq_self hlast]

theorem trim_of_not_blank (h : ∀ c ∈ cs, isBlank c = false) : trim cs = cs :=
  trim_eq_self (fun c hc => h c (List.mem_of_mem_head? hc))
    (fun c hc => h c (List.mem_of_mem_getLast? hc))

theorem trim_of_blank (h : ∀ c ∈ cs, isBlank c = true) : trim cs = [] := by
  rw [trim, trimStart, List.dropWhile_eq_nil_iff.2 h]
  rfl

theorem trimEnd_append_blanks (h : ∀ c ∈ after, isBlank c = true) :
    trimEnd (cs ++ after) = trimEnd cs := by
  rw [trimEnd, List.reverse_append, List.dropWhile_append_of_pos, trimEnd]
  intro c hc
  exact h c (List.mem_reverse.1 hc)

theorem trim_padded (hbefore : ∀ c ∈ before, isBlank c = true)
    (hafter : ∀ c ∈ after, isBlank c = true) (cs : List Char) :
    trim (before ++ cs ++ after) = trim cs := by
  rw [trim, trimStart, List.append_assoc, List.dropWhile_append_of_pos hbefore,
    List.dropWhile_append]
  split
  · -- nothing but blanks
    rename_i hnil
    rw [List.dropWhile_eq_nil_iff.2 hafter, trim, trimStart, List.isEmpty_iff.1 hnil]
  · exact trimEnd_append_blanks hafter

theorem exists_trimStart (cs : List Char) :
    ∃ before, cs = before ++ trimStart cs ∧ ∀ c ∈ before, isBlank c = true :=
  ⟨_, List.takeWhile_append_dropWhile.symm, fun _ => List.mem_takeWhile_imp⟩

theorem exists_trimEnd (cs : List Char) :
    ∃ after, cs = trimEnd cs ++ after ∧ ∀ c ∈ after, isBlank c = true := by
  obtain ⟨blanks, hsplit, hblanks⟩ := exists_trimStart cs.reverse
  refine ⟨blanks.reverse, ?_, fun c hc => hblanks c (List.mem_reverse.1 hc)⟩
  rw [trimEnd_eq, ← List.reverse_append, ← hsplit, List.reverse_reverse]

theorem exists_padding (cs : List Char) :
    ∃ before after, cs = before ++ trim cs ++ after ∧ (∀ c ∈ before, isBlank c = true) ∧
      ∀ c ∈ after, isBlank c = true := by
  obtain ⟨before, hstart, hbefore⟩ := exists_trimStart cs
  obtain ⟨after, hend, hafter⟩ := exists_trimEnd (trimStart cs)
  refine ⟨before, after, ?_, hbefore, hafter⟩
  rw [trim, List.append_assoc, ← hend, ← hstart]

theorem head?_trimStart (cs : List Char) : ∀ c ∈ (trimStart cs).head?, isBlank c = false := by
  intro c hc
  have h := List.head?_dropWhile_not isBlank cs
  rw [← trimStart, Option.mem_def.1 hc] at h
  exact h

theorem head?_trim (cs : List Char) : ∀ c ∈ (trim cs).head?, isBlank c = false := by
  intro c hc
  obtain ⟨after, hend, -⟩ := exists_trimEnd (trimStart cs)
  apply head?_trimStart cs c
  rw [hend, List.head?_append]
  exact Option.mem_def.2 (Option.or_eq_some_iff.2 (.inl hc))

theorem getLast?_trim (cs : List Char) : ∀ c ∈ (trim cs).getLast?, isBlank c = false := by
  rw [trim, trimEnd_eq, List.getLast?_reverse]
  exact head?_trimStart _

end Trim

section CommaItems

theorem comma_not_mem_of_blank (h : ∀ c ∈ cs, isBlank c = true) : ',' ∉ cs :=
  fun hc => absurd (h _ hc) (by decide)

theorem commaItems_append_comma (cs ds : List Char) :
    commaItems (cs ++ ',' :: ds) = commaItems cs ++ commaItems ds := by
  rw [commaItems, fields_append_cons _ (by decide), List.map_append, List.filter_append]
  rfl

theorem commaItems_of_not_mem (h : ',' ∉ cs) :
    commaItems cs = if trim cs = [] then [] else [trim cs] := by
  have hfields : fields (· == ',') cs = [cs] := by
    apply fields_of_not
    intro c hc
    exact beq_eq_false_iff_ne.2 fun he => h (he ▸ hc)
  rw [commaItems, hfields, List.map_singleton]
  cases trim cs <;> rfl

theorem commaItems_intercalate (h : ∀ f ∈ fs, ',' ∉ f) :
    commaItems ([','].intercalate fs) = (fs.map trim).filter (!·.isEmpty) := by
  cases fs with
  | nil => rfl
  | cons f fs =>
    rw [commaItems, fields_eq_splitOnP]
    exact congrArg (fun parts => (parts.map trim).filter (!·.isEmpty))
      (List.splitOn_intercalate ',' h (List.cons_ne_nil f fs))

theorem intercalate_fields (cs : List Char) : [','].intercalate (fields (· == ',') cs) = cs := by
  rw [fields_eq_splitOnP]
  exact List.intercalate_splitOn ','

theorem comma_not_mem_of_mem_fields (h : f ∈ fields (· == ',') cs) : ',' ∉ f :=
  fun hc => absurd (not_of_mem_fields h ',' hc) (by decide)

end CommaItems

section Words

theorem words_append_cons (hb : isBlank b = true) (cs ds : List Char) :
    words (cs ++ b :: ds) = words cs ++ words ds := by
  rw [words, fields_append_cons _ hb, List.filter_append]
  rfl

theorem words_of_not_blank (hne : cs ≠ []) (h : ∀ c ∈ cs, isBlank c = false) : words cs = [cs] := by
  rw [words, fields_of_not h]
  cases cs with
  | nil => exact absurd rfl hne
  | cons c cs => rfl

theorem of_mem_words (h : f ∈ words cs) : f ≠ [] ∧ ∀ c ∈ f, isBlank c = false := by
  obtain ⟨hf, hne⟩ := List.mem_filter.1 h
  rw [Bool.not_eq_true', List.isEmpty_eq_false_iff] at hne
  exact ⟨hne, not_of_mem_fields hf⟩

theorem words_intercalate (h : ∀ f ∈ fs, f ≠ [] ∧ ∀ c ∈ f, isBlank c = false) :
    words ([' '].intercalate fs) = fs := by
  induction fs with
  | nil => rfl
  | cons f fs ih =>
    obtain ⟨⟨hne, hf⟩, hfs⟩ := List.forall_mem_cons.1 h
    cases fs with
    | nil => rw [List.intercalate_singleton, words_of_not_blank hne hf]
    | cons g fs =>
      rw [List.intercalate_cons_cons, List.append_assoc, List.singleton_append,
        words_append_cons (by decide), ih hfs, words_of_not_blank hne hf, List.singleton_append]

end Words

end Winnow.Text
