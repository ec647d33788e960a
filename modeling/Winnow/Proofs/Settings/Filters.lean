import Winnow.Proofs.Text.Listed
import Winnow.Settings

/-!
# A path and its filters

Filters stand in braces behind the path, with commas between them. The first opening brace is
where they begin, so a path before them has none, and the last character is where they end, so
braces within them do no harm. A word is split into the path and the filters that it was put
together from; one in which no braces close at the end is all path.
-/

namespace Winnow.Settings

open Text (ItemText Listed)

def braced (path : String) (texts : List String) : String :=
  (path.push '{' ++ ",".intercalate texts).push '}'

/-- A word with no closing brace at its end, or with no opening one before that. -/
def Unbraced (token : String) : Prop := ∀ body : String, token = body.push '}' → '{' ∉ body.toList

/-- A word, the path in it and the filters behind that. -/
inductive Splits : String → String → List String → Prop
  | braced {path : String} {texts filters : List String} (hpath : '{' ∉ path.toList)
      (hlisted : Listed texts filters) : Splits (braced path texts) path filters
  | unbraced {token : String} (htoken : Unbraced token) : Splits token token []

variable {path token : String} {texts filters : List String}

theorem splitFilters_push_brace (hpath : '{' ∉ path.toList) (body : String) :
    splitFilters ((path.push '{' ++ body).push '}') =
      (path, (Text.commaItems body.toList).map String.ofList) := by
  have hreverse : ((path.push '{' ++ body).push '}').toList.reverse =
      '}' :: (path.toList ++ '{' :: body.toList).reverse := by
    simp
  rw [splitFilters, hreverse]
  simp only [List.reverse_reverse, Text.span_append_cons hpath, String.ofList_toList]

theorem splitFilters_of_unbraced (h : Unbraced token) : splitFilters token = (token, []) := by
  unfold splitFilters
  split
  · rename_i rest hrest
    have htoken : token = (String.ofList rest.reverse).push '}' := by
      apply String.toList_injective
      rw [String.toList_push, String.toList_ofList, ← List.reverse_cons, ← hrest,
        List.reverse_reverse]
    have hopen := h _ htoken
    rw [String.toList_ofList] at hopen
    rw [Text.span_of_not_mem hopen]
  · rfl

theorem unbraced_or_exists (token : String) : Unbraced token ∨
    ∃ path body : String, '{' ∉ path.toList ∧ token = (path.push '{' ++ body).push '}' := by
  by_cases h : ∃ body : String, token = body.push '}' ∧ '{' ∈ body.toList
  · obtain ⟨body, rfl, hopen⟩ := h
    -- of several opening braces it is the first that ends the path
    obtain ⟨before, list, hsplit, hbefore⟩ := List.eq_append_cons_of_mem hopen
    refine .inr ⟨.ofList before, .ofList list, by rwa [String.toList_ofList], ?_⟩
    rw [String.push_inj]
    refine ⟨String.toList_injective ?_, rfl⟩
    simp [hsplit]
  · exact .inl fun body htoken hopen => h ⟨body, htoken, hopen⟩

theorem splitFilters_braced (hpath : '{' ∉ path.toList) (h : Listed texts filters) :
    splitFilters (braced path texts) = (path, filters) := by
  have hlists : String.ofList ∘ String.toList = id := funext fun text => String.ofList_toList
  rw [braced, splitFilters_push_brace hpath, h.commaItems_eq, List.map_map, hlists, List.map_id]

theorem Splits.splitFilters_eq (h : Splits token path filters) :
    splitFilters token = (path, filters) := by
  cases h with
  | braced hpath hlisted => exact splitFilters_braced hpath hlisted
  | unbraced htoken => exact splitFilters_of_unbraced htoken

theorem splits_splitFilters (token : String) :
    Splits token (splitFilters token).1 (splitFilters token).2 := by
  rcases unbraced_or_exists token with hunbraced | ⟨path, body, hpath, rfl⟩
  · rw [splitFilters_of_unbraced hunbraced]
    exact .unbraced hunbraced
  · obtain ⟨texts, hbody, htexts⟩ := Text.exists_listed body
    rw [splitFilters_push_brace hpath]
    have hsplits := Splits.braced hpath htexts
    rwa [braced, ← hbody] at hsplits

theorem exists_braced (h : splitFilters token = (path, filters)) (hne : filters ≠ []) :
    '{' ∉ path.toList ∧ ∃ texts, Listed texts filters ∧ token = braced path texts := by
  have hsplits := splits_splitFilters token
  rw [h] at hsplits
  cases hsplits with
  | braced hpath hlisted => exact ⟨hpath, _, hlisted, rfl⟩
  | unbraced => exact absurd rfl hne

/-- A path without an opening brace and a list of filters in braces behind it are found again,
however the list is spaced. A word with no closing brace at its end, or no opening one before
that, is all path. Where filters are found, the word was put together in this way. -/
theorem splitFilters_roundTrip :
    (∀ path texts filters, '{' ∉ path.toList → Listed texts filters →
      splitFilters (braced path texts) = (path, filters)) ∧
    (∀ token, Unbraced token → splitFilters token = (token, [])) ∧
    ∀ token path filters, splitFilters token = (path, filters) → filters ≠ [] →
      '{' ∉ path.toList ∧ (∀ filter ∈ filters, ItemText filter) ∧
        ∃ texts, Listed texts filters ∧ token = braced path texts := by
  refine ⟨fun _ _ _ => splitFilters_braced, fun _ => splitFilters_of_unbraced, ?_⟩
  intro token path filters h hne
  obtain ⟨hpath, texts, htexts, htoken⟩ := exists_braced h hne
  exact ⟨hpath, htexts.itemText, texts, htexts, htoken⟩

theorem splitFilters_roundTrip_of_inner_braces :
    let texts := ["\u3000a\x7b2\x7d", "", "b "]
    let filters := ["a\x7b2\x7d", "b"]
    '{' ∉ "src".toList ∧ Listed texts filters ∧
      splitFilters "src\x7b\u3000a\x7b2\x7d,,b \x7d" = ("src", filters) ∧
      (∀ filter ∈ filters, ItemText filter) ∧ Unbraced "src/a\x7d" ∧
      splitFilters "src/a\x7d" = ("src/a\x7d", []) := by
  intro texts filters
  have hpath : '{' ∉ "src".toList := by decide
  have hbraces : ItemText "a\x7b2\x7d" :=
    ⟨by decide, by decide, by rintro _ ⟨⟩; rfl, by rintro _ ⟨⟩; rfl⟩
  have hletter : ItemText "b" :=
    ⟨by decide, by decide, by rintro _ ⟨⟩; rfl, by rintro _ ⟨⟩; rfl⟩
  have hempty : ∀ c ∈ "".toList, Text.isBlank c = true := List.forall_mem_nil _
  have hspace : ∀ c ∈ " ".toList, Text.isBlank c = true := List.forall_mem_singleton.2 rfl
  have hwide : ∀ c ∈ "\u3000".toList, Text.isBlank c = true := List.forall_mem_singleton.2 rfl
  have hlast : Listed ["b "] ["b"] := .item hempty hspace hletter .nil
  have hlisted : Listed texts filters := .item hwide hempty hbraces (.blank hempty hlast)
  have hsplit := splitFilters_roundTrip.1 "src" texts filters hpath hlisted
  have hunbraced : Unbraced "src/a\x7d" := by
    intro body hbody hopen
    have hmem : '{' ∈ "src/a\x7d".toList := by
      rw [hbody, String.toList_push]
      exact List.mem_append_left _ hopen
    exact absurd hmem (by decide)
  obtain ⟨-, hfilters, -⟩ := splitFilters_roundTrip.2.2 _ _ _ hsplit (List.cons_ne_nil _ _)
  exact ⟨hpath, hlisted, hsplit, hfilters, hunbraced, splitFilters_roundTrip.2.1 _ hunbraced⟩

end Winnow.Settings
