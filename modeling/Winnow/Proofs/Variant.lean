import Mathlib.Data.Set.List
import Winnow.Proofs.Except
import Winnow.Proofs.Text.Listed
import Winnow.Variant

/-!
# Lists of variants, written and read

An item is a full name or a run of letters, and it cannot be taken for two different lists
of kinds, since each name has a character in it that is no letter of a kind. A list is read
field by field, and so two lists with a comma between them are read as one after the other.
A list that cannot be read has a first item that is to blame, and the error names it.
-/

namespace Winnow.Variant

variable {item text cs ds : List Char} {v : Variant} {us vs : List Variant} {e : Error}

section Letters

theorem ofLetter?_eq_some_iff {c : Char} : ofLetter? c = some v ↔ c = v.letter := by
  constructor
  · intro h
    have hletter := List.find?_some h
    exact (beq_iff_eq.1 hletter).symm
  · intro h
    rw [h]
    exact ofLetter?_letter v

theorem letter_injective : Function.Injective letter := by
  intro v w h
  have hv := ofLetter?_letter v
  rw [h, ofLetter?_letter w] at hv
  exact (Option.some.inj hv).symm

theorem mapM_ofLetter?_eq_some_iff : item.mapM ofLetter? = some vs ↔ item = vs.map letter := by
  induction item generalizing vs with
  | nil =>
    rw [List.mapM_nil, eq_comm (a := []), List.map_eq_nil_iff]
    exact (Option.some.injEq _ _).to_iff.trans eq_comm
  | cons c cs ih =>
    rw [List.mapM_cons, eq_comm (a := c :: cs), List.map_eq_cons_iff]
    simp only [Option.bind_eq_bind, Option.bind_eq_some_iff, ofLetter?_eq_some_iff, ih,
      Option.pure_def, Option.some.injEq]
    constructor
    · intro h
      obtain ⟨v, hc, vs, hcs, he⟩ := h
      exact ⟨v, vs, he.symm, hc.symm, hcs.symm⟩
    · intro h
      obtain ⟨v, vs, he, hc, hcs⟩ := h
      exact ⟨v, hc.symm, vs, hcs.symm, he.symm⟩

theorem forall_letter_iff :
    (∀ c ∈ item, ∃ v : Variant, c = v.letter) ↔ ∃ vs : List Variant, item = vs.map letter := by
  have hrange := Set.ext_iff.1 (Set.range_list_map letter) item
  simpa only [Set.mem_range, Set.mem_ofPred_eq, eq_comm] using hrange.symm

theorem name_ne_letters (v : Variant) (vs : List Variant) : v.name.toList ≠ vs.map letter := by
  have hother : v.name.toList.any (fun c => (ofLetter? c).isNone) = true := by
    cases v <;> rfl
  obtain ⟨c, hc, hnone⟩ := List.any_eq_true.1 hother
  intro he
  rw [he] at hc
  obtain ⟨w, -, rfl⟩ := List.mem_map.1 hc
  rw [ofLetter?_letter] at hnone
  cases hnone

end Letters

section Items

/-- A full name, or letters for kinds one after the other. -/
inductive Item : List Char → List Variant → Prop
  | name (v : Variant) : Item v.name.toList [v]
  | letters {vs : List Variant} (hne : vs ≠ []) : Item (vs.map letter) vs

def Readable (item : List Char) : Prop :=
  (∃ v : Variant, item = v.name.toList) ∨ ∀ c ∈ item, ∃ v : Variant, c = v.letter

theorem eq_of_ofName? (h : ofName? item = some v) : item = v.name.toList ∨ item = [v.letter] := by
  have hfound := List.find?_some h
  rw [Bool.or_eq_true, beq_iff_eq, beq_iff_eq] at hfound
  exact hfound.imp Eq.symm Eq.symm

theorem ofItem_name (v : Variant) : ofItem v.name.toList = .ok [v] := by
  rw [ofItem, ofName?_name]

theorem ofItem_letters (vs : List Variant) : ofItem (vs.map letter) = .ok vs := by
  rw [ofItem]
  cases hname : ofName? (vs.map letter) with
  | none => simp only [mapM_ofLetter?_eq_some_iff.2 (rfl : vs.map letter = vs.map letter)]
  | some v =>
    rcases eq_of_ofName? hname with h | h
    · exact absurd h.symm (name_ne_letters v vs)
    · obtain ⟨w, rfl, hw⟩ := List.map_eq_singleton_iff.1 h
      rw [letter_injective hw]

theorem Item.ofItem_eq (h : Item item vs) : ofItem item = .ok vs := by
  cases h with
  | name v => exact ofItem_name v
  | letters => exact ofItem_letters vs

theorem exists_ofItem_iff : (∃ vs, ofItem item = .ok vs) ↔ Readable item := by
  constructor
  · intro hread
    obtain ⟨vs, h⟩ := hread
    rw [ofItem] at h
    split at h
    · rename_i v hname
      rcases eq_of_ofName? hname with hitem | hitem
      · exact .inl ⟨v, hitem⟩
      · exact .inr (forall_letter_iff.2 ⟨[v], hitem⟩)
    · split at h
      · rename_i ws hrun
        exact .inr (forall_letter_iff.2 ⟨ws, mapM_ofLetter?_eq_some_iff.1 hrun⟩)
      · cases h
  · intro hread
    rcases hread with ⟨v, rfl⟩ | h
    · exact ⟨[v], ofItem_name v⟩
    · obtain ⟨vs, rfl⟩ := forall_letter_iff.1 h
      exact ⟨vs, ofItem_letters vs⟩

theorem eq_of_ofItem_eq_error (h : ofItem item = .error e) :
    e = .unknownVariant (.ofList item) := by
  rw [ofItem] at h
  split at h
  · cases h
  · split at h
    · cases h
    · exact (Except.error.inj h).symm

theorem ofItem_eq_error_iff :
    ofItem item = .error e ↔ ¬Readable item ∧ e = .unknownVariant (.ofList item) := by
  rw [← exists_ofItem_iff]
  cases h : ofItem item with
  | ok vs => simp
  | error e' =>
    rw [eq_of_ofItem_eq_error h]
    simp [eq_comm]

end Items

section Fields

/-- What stands between two commas: an item with blanks around it, or nothing but blanks. -/
inductive Field : List Char → List Variant → Prop
  | blank {text : List Char} (h : ∀ c ∈ text, Text.isBlank c = true) : Field text []
  | item {before item after : List Char} {vs : List Variant}
      (hbefore : ∀ c ∈ before, Text.isBlank c = true)
      (hafter : ∀ c ∈ after, Text.isBlank c = true) (hitem : Item item vs) :
      Field (before ++ item ++ after) vs

theorem Item.not_blank (h : Item item vs) : ∀ c ∈ item, Text.isBlank c = false := by
  cases h with
  | name v =>
    have hall : v.name.toList.all (fun c => Text.isBlank c == false) = true := by
      cases v <;> rfl
    intro c hc
    exact eq_of_beq (List.all_eq_true.1 hall c hc)
  | letters =>
    intro c hc
    obtain ⟨v, -, rfl⟩ := List.mem_map.1 hc
    cases v <;> decide

theorem Item.comma_not_mem (h : Item item vs) : ',' ∉ item := by
  cases h with
  | name v => cases v <;> decide
  | letters =>
    intro hc
    obtain ⟨v, -, he⟩ := List.mem_map.1 hc
    cases v <;> cases he

theorem ofList_of_not_mem (h : ',' ∉ text) : ofList text = ofItem (Text.trim text) := by
  rw [ofList, Text.commaItems_of_not_mem h]
  split
  · rename_i hnil
    rw [hnil]
    rfl
  · rw [List.mapM_cons]
    cases ofItem (Text.trim text) with
    | error e => rfl
    | ok vs => exact congrArg Except.ok List.flatten_singleton

theorem Field.ofList_eq (h : Field text vs) : ofList text = .ok vs := by
  cases h with
  | blank h =>
    rw [ofList_of_not_mem (Text.comma_not_mem_of_blank h), Text.trim_of_blank h]
    rfl
  | @item before item after vs hbefore hafter hitem =>
    have hcomma : ',' ∉ before ++ item ++ after := by
      simp only [List.mem_append, not_or]
      exact ⟨⟨Text.comma_not_mem_of_blank hbefore, hitem.comma_not_mem⟩,
        Text.comma_not_mem_of_blank hafter⟩
    rw [ofList_of_not_mem hcomma, Text.trim_padded hbefore hafter,
      Text.trim_of_not_blank hitem.not_blank, hitem.ofItem_eq]

end Fields

section Lists

theorem ofList_append_comma (cs ds : List Char) :
    ofList (cs ++ ',' :: ds) = do return (← ofList cs) ++ (← ofList ds) := by
  rw [ofList, Text.commaItems_append_comma, List.mapM_append, ofList, ofList]
  cases (Text.commaItems cs).mapM ofItem with
  | error e => rfl
  | ok uss =>
    cases (Text.commaItems ds).mapM ofItem with
    | error e => rfl
    | ok vss => exact congrArg Except.ok List.flatten_append

theorem ofList_intercalate {fields : List (List Char)} {vss : List (List Variant)}
    (h : List.Forall₂ Field fields vss) : ofList ([','].intercalate fields) = .ok vss.flatten := by
  induction h with
  | nil => rfl
  | @cons text vs fields vss htext hfields ih =>
    cases hfields with
    | nil => rw [List.intercalate_singleton, htext.ofList_eq, List.flatten_singleton]
    | cons =>
      rw [List.intercalate_cons_cons, List.append_assoc, List.singleton_append,
        ofList_append_comma, htext.ofList_eq, ih]
      rfl

theorem ofList_eq_error_iff : ofList text = .error e ↔
    ∃ before item after, Text.commaItems text = before ++ item :: after ∧
      (∀ i ∈ before, Readable i) ∧ ¬Readable item ∧ e = .unknownVariant (.ofList item) := by
  have hread : ofList text = .error e ↔ (Text.commaItems text).mapM ofItem = .error e := by
    rw [ofList, bind_eq_error_iff]
    exact or_iff_left fun ⟨_, _, h⟩ => nomatch h
  simp only [hread, mapM_eq_error_iff, exists_ofItem_iff, ofItem_eq_error_iff]

theorem exists_ofList_iff :
    (∃ vs, ofList text = .ok vs) ↔ ∀ item ∈ Text.commaItems text, Readable item := by
  simp only [← exists_ofItem_iff, ← exists_mapM_iff, ofList, bind_eq_ok_iff]
  constructor
  · intro h
    obtain ⟨vs, vss, hvss, -⟩ := h
    exact ⟨vss, hvss⟩
  · intro h
    obtain ⟨vss, hvss⟩ := h
    exact ⟨vss.flatten, vss, hvss, rfl⟩

section Listed

variable {fields items : List String}

theorem exists_error_of_listed_iff (h : Text.Listed fields items) :
    (∃ e, ofList (",".intercalate fields).toList = .error e) ↔
      ∃ item ∈ items, ¬Readable item.toList := by
  rw [exists_error_iff, exists_ofList_iff, h.commaItems_eq, List.forall_mem_map]
  simp only [not_forall, exists_prop]

theorem ofList_eq_error_of_listed (h : Text.Listed fields items)
    (herror : ofList (",".intercalate fields).toList = .error e) :
    ∃ before item after, items = before ++ item :: after ∧
      (∀ i ∈ before, Readable i.toList) ∧ ¬Readable item.toList ∧ e = .unknownVariant item := by
  obtain ⟨before, item, after, hsplit, hbefore, hitem, he⟩ := ofList_eq_error_iff.1 herror
  rw [h.commaItems_eq] at hsplit
  obtain ⟨before, rest, rfl, rfl, hrest⟩ := List.map_eq_append_iff.1 hsplit
  obtain ⟨item, after, rfl, rfl, rfl⟩ := List.map_eq_cons_iff.1 hrest
  rw [String.ofList_toList] at he
  exact ⟨before, item, after, rfl, List.forall_mem_map.1 hbefore, hitem, he⟩

end Listed

/-- Fields that spell some kinds read as these kinds, however they are spelled. Two lists with a
comma between them read as one after the other, and as the first fault in them if there is one.
Every text is a list of items with blanks around them and blank places between them, and it is
refused exactly for an item that is neither a name nor all letters, the first of them. -/
theorem ofList_unambiguous :
    (∀ (fields : List (List Char)) (vss : List (List Variant)), List.Forall₂ Field fields vss →
      ofList ([','].intercalate fields) = .ok vss.flatten) ∧
    (∀ cs ds, ofList (cs ++ ',' :: ds) = do return (← ofList cs) ++ (← ofList ds)) ∧
    (∀ text : String, ∃ fields items, text = ",".intercalate fields ∧ Text.Listed fields items) ∧
    (∀ fields items, Text.Listed fields items →
      ((∃ e, ofList (",".intercalate fields).toList = .error e) ↔
        ∃ item ∈ items, ¬Readable item.toList)) ∧
    ∀ fields items e, Text.Listed fields items →
      ofList (",".intercalate fields).toList = .error e → ∃ before item after,
        items = before ++ item :: after ∧ (∀ i ∈ before, Readable i.toList) ∧
          ¬Readable item.toList ∧ e = .unknownVariant item := by
  refine ⟨fun _ _ => ofList_intercalate, ofList_append_comma, fun text => ?_, fun _ _ =>
    exists_error_of_listed_iff, fun _ _ _ => ofList_eq_error_of_listed⟩
  obtain ⟨fields, htext, hlisted⟩ := Text.exists_listed text
  exact ⟨fields, _, htext, hlisted⟩

theorem ofList_unambiguous_of_mixed_spelling :
    let fields := [['a', 'l'], [' '], '\u3000' :: "ellipses".toList]
    let vss := [[.acronym, .levenshtein], [], [.ellipses]]
    List.Forall₂ Field fields vss ∧
      ofList ([','].intercalate fields) = .ok [.acronym, .levenshtein, .ellipses] ∧
      Text.Listed ["a", " lé ", "x"] ["a", "lé", "x"] ∧
      ofList "a, lé ,x".toList = .error (.unknownVariant "lé") ∧
      ∃ before item after, ["a", "lé", "x"] = before ++ item :: after ∧
        (∀ i ∈ before, Readable i.toList) ∧ ¬Readable item.toList ∧
        Error.unknownVariant "lé" = .unknownVariant item := by
  intro fields vss
  have hletters : Field ['a', 'l'] [.acronym, .levenshtein] :=
    @Field.item [] ['a', 'l'] [] _ nofun nofun
      (@Item.letters [.acronym, .levenshtein] (List.cons_ne_nil _ _))
  have hblank : Field [' '] [] := .blank (List.forall_mem_singleton.2 rfl)
  have hname : Field ('\u3000' :: "ellipses".toList) [.ellipses] := by
    rw [← List.append_nil "ellipses".toList]
    exact @Field.item ['\u3000'] _ [] _ (List.forall_mem_singleton.2 rfl) nofun (.name .ellipses)
  have hfields : List.Forall₂ Field fields vss := .cons hletters (.cons hblank (.cons hname .nil))
  have hitem (text : String) (h : text ∈ ["a", "lé", "x"]) : Text.ItemText text := by
    simp only [List.mem_cons, List.not_mem_nil, or_false] at h
    rcases h with rfl | rfl | rfl
    all_goals exact ⟨by decide, by decide, by rintro _ ⟨⟩; rfl, by rintro _ ⟨⟩; rfl⟩
  have hempty : ∀ c ∈ "".toList, Text.isBlank c = true := List.forall_mem_nil _
  have hspace : ∀ c ∈ " ".toList, Text.isBlank c = true := List.forall_mem_singleton.2 rfl
  have hlast : Text.Listed ["x"] ["x"] := .item hempty hempty (hitem "x" (by simp)) .nil
  have hlisted : Text.Listed ["a", " lé ", "x"] ["a", "lé", "x"] :=
    .item hempty hempty (hitem "a" (by simp)) (.item hspace hspace (hitem "lé" (by simp)) hlast)
  have herror : ofList "a, lé ,x".toList = .error (.unknownVariant "lé") := by decide +kernel
  exact ⟨hfields, ofList_unambiguous.1 fields vss hfields, hlisted, herror,
    ofList_unambiguous.2.2.2.2 _ _ _ hlisted herror⟩

def written : List Variant → List Char
  | [] => []
  | [v] => v.name.toList
  | v :: w :: vs => v.name.toList ++ ',' :: written (w :: vs)

theorem ofList_name (v : Variant) : ofList v.name.toList = .ok [v] := by
  rw [ofList_of_not_mem (Item.name v).comma_not_mem, Text.trim_of_not_blank (Item.name v).not_blank,
    ofItem_name]

theorem ofList_written (vs : List Variant) : ofList (written vs) = .ok vs := by
  induction vs using written.induct with
  | case1 => rfl
  | case2 v => exact ofList_name v
  | case3 v w vs ih =>
    rw [written, ofList_append_comma, ofList_name, ih]
    rfl

theorem bracket_not_mem_written (vs : List Variant) : ']' ∉ written vs := by
  have hname : ∀ v : Variant, ']' ∉ v.name.toList := by
    intro v
    cases v <;> decide
  induction vs using written.induct with
  | case1 => exact List.not_mem_nil
  | case2 v => exact hname v
  | case3 v w vs ih =>
    intro hmem
    rcases List.mem_append.1 hmem with h | h
    · exact hname v h
    · rcases List.mem_cons.1 h with h | h
      · exact absurd h (by decide)
      · exact ih h

end Lists

end Winnow.Variant
