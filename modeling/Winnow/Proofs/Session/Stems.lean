import Winnow.Proofs.Alternatives
import Winnow.Proofs.Session.Permuted

/-!
# A stem in place of the whole phrase

Where each word of one pattern begins a word of another, the one can take the other's place
and no plane is needed that was not needed before. With ellipses the words of a pattern are
its phrase and what the phrase begins with, from eight characters on. So they take no more
planes than the phrase alone, and the shortest of them is found wherever one of them is.
-/

namespace Winnow

open AsciiCase (fold)

theorem Utf8.encode_take_isPrefix (s : String) (n : Nat) :
    encode (.ofList (s.toList.take n)) <+: encode s := by
  refine ⟨(s.toList.drop n).flatMap String.utf8EncodeChar, ?_⟩
  rw [encode, encode, String.toList_ofList, ← List.flatMap_append, List.take_append_drop]

theorem Occurs.of_isPrefix {caseless : Bool} {v w buffer : List UInt8}
    (h : Occurs caseless w buffer) (hv : v <+: w) : Occurs caseless v buffer := by
  obtain ⟨rest, rfl⟩ := hv
  rw [Occurs, AsciiCase.fold_append] at h
  exact (List.prefix_append _ _).isInfix.trans h

theorem path_subset_of_isPrefix {l : Layout} {caseless : Bool} {u v w : List UInt8} (h : v <+: w) :
    path l caseless u v ⊆ path l caseless u w := by
  obtain ⟨rest, rfl⟩ := h
  rw [path_append]
  exact List.subset_append_left _ _

theorem Variant.mem_stems {cs ds : List Char} :
    ds ∈ stems cs ↔ ∃ n, 8 ≤ n ∧ n + 2 ≤ cs.length ∧ ds = cs.take n := by
  have hrange (n : Nat) : n ∈ List.range' minStem (cs.length - 1 - minStem) ↔
      8 ≤ n ∧ n + 2 ≤ cs.length := by
    rw [List.mem_range'_1, minStem]
    omega
  simp only [stems, List.mem_map, hrange, and_assoc, eq_comm (a := ds)]

theorem Variant.exists_alternatives_ellipses (phrase : String) :
    ∃ others, alternatives [.ellipses] phrase = .ok others ∧
      ∀ s, s ∈ others ↔ s.toList ∈ stems phrase.toList := by
  obtain ⟨others, ho, hmem⟩ := exists_alternatives_singleton
    (show ellipses.spellings phrase.toList = .ok (stems phrase.toList) from rfl)
  refine ⟨others, ho, fun s => (hmem s).trans (and_iff_left_of_imp fun hs => ?_)⟩
  obtain ⟨n, h8, hn, hs⟩ := mem_stems.1 hs
  have hlength : s.toList.length = n := by
    rw [hs, List.length_take]
    omega
  constructor
  · have hbytes := length_le_utf8ByteSize s
    unfold minPatternBytes
    omega
  · intro he
    rw [he] at hlength
    omega

namespace Pattern

variable {p q : Pattern} {variantsOn caseless : Bool} {w buffer : List UInt8}

theorem alternatives_of_bare (h : p.variants = []) (variantsOn : Bool) :
    p.alternatives variantsOn = .ok ∅ := by
  rw [alternatives, h]
  cases variantsOn <;> rfl

theorem isWord_of_bare (h : p.variants = []) :
    p.IsWord variantsOn w ↔ w = Utf8.encode p.text := by
  refine or_iff_left ?_
  intro hother
  obtain ⟨others, ho, s, hs, -⟩ := hother
  rw [alternatives_of_bare h] at ho
  cases ho
  exact OrdSet.not_mem_empty s hs

theorem isWord_of_ellipses (h : p.variants = [.ellipses]) :
    p.IsWord true w ↔ w = Utf8.encode p.text ∨
      ∃ n, 8 ≤ n ∧ n + 2 ≤ p.text.length ∧ w = Utf8.encode (.ofList (p.text.toList.take n)) := by
  obtain ⟨others, ho, hmem⟩ := Variant.exists_alternatives_ellipses p.text
  rw [← h] at ho
  have hwords : (∃ others, p.alternatives true = .ok others ∧ ∃ s ∈ others, w = Utf8.encode s) ↔
      ∃ s ∈ others, w = Utf8.encode s := by
    change (∃ others, Variant.alternatives p.variants p.text = .ok others ∧ _) ↔ _
    rw [ho]
    simp only [Except.ok.injEq, exists_eq_left']
  rw [IsWord, hwords]
  refine or_congr_right ?_
  constructor
  · intro hword
    obtain ⟨s, hs, hw⟩ := hword
    obtain ⟨n, h8, hn, he⟩ := Variant.mem_stems.1 ((hmem s).1 hs)
    refine ⟨n, h8, hn, ?_⟩
    rw [hw, ← he, String.ofList_toList]
  · intro hstem
    obtain ⟨n, h8, hn, hw⟩ := hstem
    refine ⟨_, (hmem _).2 (Variant.mem_stems.2 ⟨n, h8, hn, ?_⟩), hw⟩
    rw [String.toList_ofList]

def bare (p : Pattern) : Pattern := { p with variants := [] }

/-- The first eight characters as a pattern of their own. -/
def stem (p : Pattern) : Pattern := .plain p.polarity (.ofList (p.text.toList.take 8))

theorem stem_prefix_of_isWord (h : p.variants = [.ellipses]) (hw : p.IsWord true w) :
    Utf8.encode p.stem.text <+: w := by
  rcases (isWord_of_ellipses h).1 hw with rfl | ⟨n, h8, -, rfl⟩
  · exact Utf8.encode_take_isPrefix p.text 8
  · have hprefix := Utf8.encode_take_isPrefix (.ofList (p.text.toList.take n)) 8
    rwa [String.toList_ofList, List.take_take, Nat.min_eq_left h8] at hprefix

theorem encode_stem_ne_nil (hlength : 10 ≤ p.text.length) : Utf8.encode p.stem.text ≠ [] := by
  have hchars : p.stem.text.toList.length = 8 := by
    change (String.ofList (p.text.toList.take 8)).toList.length = 8
    rw [String.toList_ofList, List.length_take, String.length_toList]
    omega
  have hbytes := length_le_utf8ByteSize p.stem.text
  rw [← length_encode] at hbytes
  intro hnil
  rw [hnil, List.length_nil] at hbytes
  omega

theorem occursIn_stem_iff (h : p.variants = [.ellipses]) (hlength : 10 ≤ p.text.length) :
    p.stem.OccursIn true caseless buffer ↔ p.OccursIn true caseless buffer := by
  constructor
  · intro hstem
    obtain ⟨w, hw, hne, hoccurs⟩ := hstem
    have he := (isWord_of_bare (p := p.stem) rfl).1 hw
    have hword : p.IsWord true w :=
      (isWord_of_ellipses h).2 (Or.inr ⟨8, Nat.le_refl 8, hlength, he⟩)
    exact ⟨w, hword, hne, hoccurs⟩
  · intro hphrase
    obtain ⟨w, hw, -, hoccurs⟩ := hphrase
    have hword : p.stem.IsWord true (Utf8.encode p.stem.text) := (isWord_of_bare rfl).2 rfl
    exact ⟨_, hword, encode_stem_ne_nil hlength, hoccurs.of_isPrefix (stem_prefix_of_isWord h hw)⟩

/-- Each word of the first pattern begins a word of the second. -/
def Begins (variantsOn : Bool) (q p : Pattern) : Prop :=
  ∀ v, q.IsWord variantsOn v → ∃ w, p.IsWord variantsOn w ∧ v <+: w

theorem begins_of_bare (hq : q.variants = []) (h : Utf8.encode q.text <+: Utf8.encode p.text) :
    q.Begins variantsOn p := by
  intro v hv
  rw [(isWord_of_bare hq).1 hv]
  exact ⟨_, Or.inl rfl, h⟩

theorem begins_bare_of_ellipses (h : p.variants = [.ellipses]) : p.Begins true p.bare := by
  intro v hv
  refine ⟨Utf8.encode p.text, (isWord_of_bare (p := p.bare) rfl).2 rfl, ?_⟩
  rcases (isWord_of_ellipses h).1 hv with rfl | ⟨n, -, -, rfl⟩
  · exact List.prefix_refl _
  · exact Utf8.encode_take_isPrefix p.text n

end Pattern

namespace Session

variable {settings : Settings} {s s' : Session} {before after ps : List Pattern} {p q : Pattern}
  {variantsOn : Bool}

theorem mem_needed_wordsOf {l : Layout} {caseless : Bool} {r : Roster} {n : Node} :
    n ∈ needed l caseless (folds caseless (wordsOf variantsOn r ps)) ↔
      n = .word [] ∨ ∃ p ∈ ps, ∃ w, p.IsWord variantsOn w ∧ n ∈ path l caseless [] w := by
  simp only [mem_needed, Prod.exists, mem_wordsOf]
  refine or_congr_right ⟨?_, ?_⟩
  · intro h
    obtain ⟨w, id, ⟨p, hid, hw⟩, hn⟩ := h
    exact ⟨p, (mem_numbered hid).1, w, hw, hn⟩
  · intro h
    obtain ⟨p, hp, w, hw, hn⟩ := h
    obtain ⟨id, hid⟩ := exists_number hp
    exact ⟨w, id, ⟨p, hid, hw⟩, hn⟩

theorem needed_subset_of_begins (l : Layout) (caseless : Bool) (r : Roster)
    (h : q.Begins variantsOn p) :
    needed l caseless (folds caseless (wordsOf variantsOn r (before ++ q :: after))) ⊆
      needed l caseless (folds caseless (wordsOf variantsOn r (before ++ p :: after))) := by
  intro n hn
  rw [mem_needed_wordsOf] at hn ⊢
  refine hn.imp_right fun htaken => ?_
  obtain ⟨x, hx, v, hv, hnode⟩ := htaken
  rcases List.mem_append.1 hx with hx | hx
  · exact ⟨x, List.mem_append_left _ hx, v, hv, hnode⟩
  · rcases List.mem_cons.1 hx with rfl | hx
    · obtain ⟨w, hw, hprefix⟩ := h v hv
      exact ⟨p, by simp, w, hw, path_subset_of_isPrefix hprefix hnode⟩
    · exact ⟨x, by simp [hx], v, hv, hnode⟩

theorem size_of_compile (h : compile settings = .ok s) :
    s.automaton.size = (needed settings.layout (!settings.caseSensitive)
      (folds (!settings.caseSensitive)
        (wordsOf settings.variants .empty settings.patterns))).card + 1 := by
  obtain ⟨-, -, a, ha, rfl⟩ := compile_eq_ok_iff.1 h
  exact Automaton.size_of_insertAll ha

section Replacing

variable (hpatterns : settings.patterns = before ++ p :: after)

include hpatterns

theorem exists_compile_of_begins (hbegins : q.Begins settings.variants p)
    (hq : ∃ others, q.alternatives settings.variants = .ok others)
    (h : ∃ s, compile settings = .ok s) :
    ∃ s, compile { settings with patterns := before ++ q :: after } = .ok s := by
  obtain ⟨-, hall, hroom⟩ := exists_compile_iff.1 h
  rw [hpatterns] at hall hroom
  refine exists_compile_iff.2 ⟨by simp, ?_, ?_⟩
  · rw [List.forall_mem_append, List.forall_mem_cons] at hall ⊢
    exact ⟨hall.1, hq, hall.2.2⟩
  · exact (Finset.card_le_card (needed_subset_of_begins _ _ _ hbegins)).trans hroom

theorem isMatch_of_finds_iff (hpolarity : q.polarity = p.polarity)
    (haccept : settings.acceptCount < 2 ^ 31)
    (hreject : settings.patterns.countP (·.polarity == .reject) < 2 ^ 31)
    (hfinds : ∀ buffer, settings.Finds q buffer ↔ settings.Finds p buffer)
    (hs : compile settings = .ok s)
    (hs' : compile { settings with patterns := before ++ q :: after } = .ok s')
    (buffer : List UInt8) : s.isMatch buffer = s'.isMatch buffer := by
  have hcount (x : Polarity) : (before ++ q :: after).countP (·.polarity == x) =
      settings.patterns.countP (·.polarity == x) := by
    rw [hpatterns, List.countP_append, List.countP_append, List.countP_cons, List.countP_cons,
      hpolarity]
  have haccept' :
      Settings.acceptCount { settings with patterns := before ++ q :: after } < 2 ^ 31 :=
    (hcount .accept).trans_lt haccept
  have hreject' := (hcount .reject).trans_lt hreject
  have hfinds' (x : Pattern) :
      Settings.Finds { settings with patterns := before ++ q :: after } x buffer ↔
        settings.Finds x buffer := Iff.rfl
  rw [Bool.eq_iff_iff, isMatch_iff_forall haccept hreject hs,
    isMatch_iff_forall haccept' hreject' hs', hpatterns]
  simp only [List.forall_mem_append, List.forall_mem_cons, hfinds', hfinds, hpolarity]

end Replacing

/-- Ellipses of a phrase of ten characters or more take no planes of their own, and what is
found with them is what the first eight characters alone would find. -/
theorem compile_ellipses (hpatterns : settings.patterns = before ++ p :: after)
    (hon : settings.variants = true) (hvariants : p.variants = [.ellipses])
    (hlength : 10 ≤ p.text.length) (haccept : settings.acceptCount < 2 ^ 31)
    (hreject : settings.patterns.countP (·.polarity == .reject) < 2 ^ 31) :
    let bare := { settings with patterns := before ++ p.bare :: after }
    let stemmed := { settings with patterns := before ++ p.stem :: after }
    ((∃ s, compile settings = .ok s) ↔ ∃ s, compile bare = .ok s) ∧
    (∀ s s', compile settings = .ok s → compile bare = .ok s' →
      s.automaton.size = s'.automaton.size) ∧
    ∀ s, compile settings = .ok s →
      ∃ s', compile stemmed = .ok s' ∧ ∀ buffer, s.isMatch buffer = s'.isMatch buffer := by
  intro bare stemmed
  have hbare : p.bare.Begins settings.variants p :=
    Pattern.begins_of_bare rfl (List.prefix_refl _)
  have hstem : p.stem.Begins settings.variants p :=
    Pattern.begins_of_bare rfl (Utf8.encode_take_isPrefix p.text 8)
  have hback : p.Begins settings.variants p.bare := by
    rw [hon]
    exact Pattern.begins_bare_of_ellipses hvariants
  have hellipses : ∃ others, p.alternatives settings.variants = .ok others := by
    obtain ⟨others, ho, -⟩ := Variant.exists_alternatives_ellipses p.text
    rw [← hvariants] at ho
    rw [hon]
    exact ⟨others, ho⟩
  have hsettings : settings = { bare with patterns := before ++ p :: after } := by
    rw [← hpatterns]
  refine ⟨⟨fun h => ?_, fun h => ?_⟩, fun s s' hs hs' => ?_, fun s hs => ?_⟩
  · exact exists_compile_of_begins hpatterns hbare ⟨∅, Pattern.alternatives_of_bare rfl _⟩ h
  · rw [hsettings]
    have hplace : bare.patterns = before ++ p.bare :: after := rfl
    exact exists_compile_of_begins hplace hback hellipses h
  · rw [size_of_compile hs, size_of_compile hs', hpatterns]
    apply congrArg Nat.succ
    apply Nat.le_antisymm
    · exact Finset.card_le_card (needed_subset_of_begins _ _ _ hback)
    · exact Finset.card_le_card (needed_subset_of_begins _ _ _ hbare)
  · obtain ⟨s', hs'⟩ := exists_compile_of_begins hpatterns hstem
      ⟨∅, Pattern.alternatives_of_bare rfl _⟩ ⟨s, hs⟩
    have hfinds (buffer : List UInt8) : settings.Finds p.stem buffer ↔ settings.Finds p buffer := by
      rw [Settings.Finds, Settings.Finds, hon]
      exact Pattern.occursIn_stem_iff hvariants hlength
    exact ⟨s', hs', isMatch_of_finds_iff (q := p.stem) hpatterns rfl haccept hreject hfinds hs hs'⟩

theorem compile_ellipses_of_wide_characters :
    let p : Pattern := ⟨"Übergrößen", .accept, [.ellipses]⟩
    let before := [.plain .reject "unter"]
    let after := [.plain .accept "ab"]
    let settings :=
      { Settings.of (before ++ p :: after) "." with variants := true, layout := .nibble }
    settings.variants = true ∧ p.variants = [.ellipses] ∧ 10 ≤ p.text.length ∧
      settings.acceptCount < 2 ^ 31 ∧
      settings.patterns.countP (·.polarity == .reject) < 2 ^ 31 ∧
      ∃ s s', compile settings = .ok s ∧
        compile { settings with patterns := before ++ .plain .accept "Übergröß" :: after } =
          .ok s' ∧
        ∀ buffer, s.isMatch buffer = s'.isMatch buffer := by
  intro p before after settings
  have hlength : 10 ≤ p.text.length := by decide
  have haccept : settings.acceptCount < 2 ^ 31 := by decide
  have hreject : settings.patterns.countP (·.polarity == .reject) < 2 ^ 31 := by decide
  obtain ⟨s, hs⟩ : ∃ s, compile settings = .ok s := by
    have hok : (compile settings).isOk = true := by decide +kernel
    cases hs : compile settings with
    | error e =>
      rw [hs] at hok
      cases hok
    | ok s => exact ⟨s, rfl⟩
  have hpatterns : settings.patterns = before ++ p :: after := rfl
  obtain ⟨-, -, hstem⟩ := compile_ellipses hpatterns rfl rfl hlength haccept hreject
  obtain ⟨s', hs', hmatch⟩ := hstem s hs
  have htext : p.stem = .plain .accept "Übergröß" := by decide +kernel
  rw [htext] at hs'
  exact ⟨rfl, rfl, hlength, haccept, hreject, s, s', hs, hs', hmatch⟩

end Session

end Winnow
