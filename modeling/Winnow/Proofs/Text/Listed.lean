import Winnow.Proofs.Text.Fields

/-!
# Lists with commas

A list is written with commas between its items, blanks around them and any number of blank
places. The items that are read from it are those that it was written with, and every text is
such a list.
-/

namespace Winnow.Text

/-- What can be one item of a list: it is not empty, no comma is in it and it neither begins
nor ends with a blank. -/
structure ItemText (text : String) : Prop where
  ne_empty : text ≠ ""
  comma_not_mem : ',' ∉ text.toList
  head_not_blank : ∀ c ∈ text.toList.head?, isBlank c = false
  last_not_blank : ∀ c ∈ text.toList.getLast?, isBlank c = false

/-- The texts between commas, and the items in them. There may be blanks around an item, and
a text of nothing but blanks holds none. -/
inductive Listed : List String → List String → Prop
  | nil : Listed [] []
  | blank {text : String} {texts items : List String}
      (htext : ∀ c ∈ text.toList, isBlank c = true) (h : Listed texts items) :
      Listed (text :: texts) items
  | item {before item after : String} {texts items : List String}
      (hbefore : ∀ c ∈ before.toList, isBlank c = true)
      (hafter : ∀ c ∈ after.toList, isBlank c = true) (hitem : ItemText item)
      (h : Listed texts items) : Listed ((before ++ item ++ after) :: texts) (item :: items)

variable {text : String} {texts items : List String} {fs : List (List Char)}

theorem Listed.comma_not_mem (h : Listed texts items) : ∀ text ∈ texts, ',' ∉ text.toList := by
  induction h with
  | nil => exact List.forall_mem_nil _
  | blank htext _ ih => exact List.forall_mem_cons.2 ⟨comma_not_mem_of_blank htext, ih⟩
  | item hbefore hafter hitem _ ih =>
    refine List.forall_mem_cons.2 ⟨?_, ih⟩
    simp only [String.toList_append, List.mem_append, not_or]
    exact ⟨⟨comma_not_mem_of_blank hbefore, hitem.comma_not_mem⟩, comma_not_mem_of_blank hafter⟩

theorem Listed.itemText (h : Listed texts items) : ∀ item ∈ items, ItemText item := by
  induction h with
  | nil => exact List.forall_mem_nil _
  | blank _ _ ih => exact ih
  | item _ _ hitem _ ih => exact List.forall_mem_cons.2 ⟨hitem, ih⟩

theorem ItemText.trim_eq (h : ItemText text) : trim text.toList = text.toList :=
  trim_eq_self h.head_not_blank h.last_not_blank

theorem ItemText.toList_ne_nil (h : ItemText text) : text.toList ≠ [] :=
  mt String.toList_eq_nil_iff.1 h.ne_empty

theorem Listed.trimmed (h : Listed texts items) :
    ((texts.map String.toList).map trim).filter (!·.isEmpty) = items.map String.toList := by
  induction h with
  | nil => rfl
  | blank htext _ ih =>
    rw [List.map_cons, List.map_cons, trim_of_blank htext]
    exact ih
  | @item before item after texts items hbefore hafter hitem _ ih =>
    have htrim : trim (before ++ item ++ after).toList = item.toList := by
      rw [String.toList_append, String.toList_append, trim_padded hbefore hafter, hitem.trim_eq]
    have hkept : (!item.toList.isEmpty) = true := by
      rw [List.isEmpty_eq_false_iff.2 hitem.toList_ne_nil]
      rfl
    rw [List.map_cons, List.map_cons, htrim, List.filter_cons, if_pos hkept, ih, List.map_cons]

theorem Listed.commaItems_eq (h : Listed texts items) :
    commaItems (",".intercalate texts).toList = items.map String.toList := by
  rw [String.toList_intercalate, ← h.trimmed]
  exact commaItems_intercalate (List.forall_mem_map.2 h.comma_not_mem)

theorem itemText_trim {f : List Char} (hcomma : ',' ∉ f) (hne : trim f ≠ []) :
    ItemText (.ofList (trim f)) where
  ne_empty := mt String.ofList_eq_empty_iff.1 hne
  comma_not_mem := by
    obtain ⟨before, after, hsplit, -⟩ := exists_padding f
    rw [String.toList_ofList]
    intro hc
    rw [hsplit] at hcomma
    exact hcomma (List.mem_append_left _ (List.mem_append_right _ hc))
  head_not_blank := by
    rw [String.toList_ofList]
    exact head?_trim f
  last_not_blank := by
    rw [String.toList_ofList]
    exact getLast?_trim f

theorem Listed.cons_trim {f : List Char} (hcomma : ',' ∉ f) (h : Listed texts items) :
    Listed (.ofList f :: texts) (if trim f = [] then items else .ofList (trim f) :: items) := by
  obtain ⟨before, after, hsplit, hbefore, hafter⟩ := exists_padding f
  split
  · rename_i hnil
    rw [hnil, List.append_nil] at hsplit
    refine .blank ?_ h
    rw [String.toList_ofList, hsplit]
    exact List.forall_mem_append.2 ⟨hbefore, hafter⟩
  · rename_i hne
    have hpadded : String.ofList f = .ofList before ++ .ofList (trim f) ++ .ofList after := by
      rw [← String.ofList_append, ← String.ofList_append, ← hsplit]
    rw [hpadded]
    refine .item ?_ ?_ (itemText_trim hcomma hne) h
    · rwa [String.toList_ofList]
    · rwa [String.toList_ofList]

theorem listed_of_comma_not_mem (h : ∀ f ∈ fs, ',' ∉ f) : Listed (fs.map String.ofList)
    (((fs.map trim).filter (!·.isEmpty)).map String.ofList) := by
  -- each text holds one item or none, and what is trimmed off it is blank
  induction fs with
  | nil => exact .nil
  | cons f fs ih =>
    obtain ⟨hf, hfs⟩ := List.forall_mem_cons.1 h
    have hcons := (ih hfs).cons_trim hf
    rw [List.map_cons, List.map_cons, List.filter_cons]
    cases htrim : trim f with
    | nil => rwa [if_pos htrim] at hcons
    | cons c cs => rwa [htrim, if_neg (List.cons_ne_nil c cs)] at hcons

theorem exists_listed (text : String) :
    ∃ texts, text = ",".intercalate texts ∧
      Listed texts ((commaItems text.toList).map String.ofList) := by
  refine ⟨(fields (· == ',') text.toList).map String.ofList, ?_,
    listed_of_comma_not_mem fun _ => comma_not_mem_of_mem_fields⟩
  have hlists : String.toList ∘ String.ofList = id := funext fun cs => String.toList_ofList
  apply String.toList_injective
  rw [String.toList_intercalate, List.map_map, hlists, List.map_id]
  exact (intercalate_fields text.toList).symm

end Winnow.Text
