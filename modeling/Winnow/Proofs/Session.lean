import Winnow.Occurrence
import Winnow.Proofs.Except
import Winnow.Proofs.Outline.Shape
import Winnow.Proofs.Roster
import Winnow.Proofs.Scan.Verdicts
import Winnow.Session

/-!
# A session answers what its settings ask

Compiling enters every word of every pattern under the number of the pattern, and no two
patterns get the same number. So a number is read in a buffer exactly if its pattern
occurs there, and the verdict of the scan is what the settings say of the buffer.
-/

namespace Winnow

open AsciiCase (fold)

theorem Automaton.insertAll_append {l : Layout} (a : Automaton l)
    (xs ys : List (List UInt8 × PatternId)) :
    a.insertAll (xs ++ ys) = a.insertAll xs >>= (·.insertAll ys) := by
  induction xs generalizing a with
  | nil => rfl
  | cons x xs ih =>
    simp only [List.cons_append, insertAll]
    rcases a.insert x.1 x.2 with ⟨a', res⟩
    cases res with
    | error e => rfl
    | ok u => exact ih a'

def Roster.enlist (r : Roster) (ps : List Pattern) : Roster :=
  ps.foldl (fun r p => r.push p.polarity p.text) r

theorem Roster.size_list_enlist (r : Roster) (ps : List Pattern) (q : Polarity) :
    ((r.enlist ps).list q).size = (r.list q).size + ps.countP (·.polarity == q) := by
  induction ps generalizing r with
  | nil => rfl
  | cons p ps ih =>
    change (((r.push p.polarity p.text).enlist ps).list q).size = _
    rw [ih, Roster.size_list_push, List.countP_cons]
    simp only [beq_iff_eq]
    omega

namespace Session

variable {l : Layout} {variantsOn : Bool} {r r' : Roster} {a a' : Automaton l}
  {ps : List Pattern} {p p' : Pattern} {id : PatternId}

def numbered (r : Roster) : List Pattern → List (PatternId × Pattern)
  | [] => []
  | p :: ps => (r.nextId p.polarity, p) :: numbered (r.push p.polarity p.text) ps

def wordsUnder (variantsOn : Bool) (id : PatternId) (p : Pattern) : List (List UInt8 × PatternId) :=
  (Utf8.encode p.text, id) ::
    ((p.alternatives variantsOn).toOption.getD ∅).toList.map fun s => (Utf8.encode s, id)

def wordsOf (variantsOn : Bool) (r : Roster) (ps : List Pattern) : List (List UInt8 × PatternId) :=
  (numbered r ps).flatMap fun x => wordsUnder variantsOn x.1 x.2

theorem wordsOf_cons (variantsOn : Bool) (r : Roster) (p : Pattern) (ps : List Pattern) :
    wordsOf variantsOn r (p :: ps) = wordsUnder variantsOn (r.nextId p.polarity) p ++
      wordsOf variantsOn (r.push p.polarity p.text) ps := rfl

theorem mem_wordsUnder {w : List UInt8} {i : PatternId} :
    (w, i) ∈ wordsUnder variantsOn id p ↔ i = id ∧ p.IsWord variantsOn w := by
  have hothers : (∃ others, p.alternatives variantsOn = .ok others ∧
        ∃ s ∈ others, w = Utf8.encode s) ↔
      ∃ s ∈ (p.alternatives variantsOn).toOption.getD ∅, w = Utf8.encode s := by
    cases p.alternatives variantsOn with
    | error e => simp [Except.toOption]
    | ok others => simp [Except.toOption]
  simp only [wordsUnder, List.mem_cons, Prod.mk.injEq, List.mem_map, Pattern.IsWord, hothers,
    OrdSet.mem_toList]
  constructor
  · rintro (⟨hw, hi⟩ | ⟨s, hs, rfl, rfl⟩)
    · exact ⟨hi, Or.inl hw⟩
    · exact ⟨rfl, Or.inr ⟨s, hs, rfl⟩⟩
  · rintro ⟨rfl, hw | ⟨s, hs, rfl⟩⟩
    · exact Or.inl ⟨hw, rfl⟩
    · exact Or.inr ⟨s, hs, rfl, rfl⟩

theorem mem_wordsOf {w : List UInt8} :
    (w, id) ∈ wordsOf variantsOn r ps ↔ ∃ p, (id, p) ∈ numbered r ps ∧ p.IsWord variantsOn w := by
  simp only [wordsOf, List.mem_flatMap, Prod.exists, mem_wordsUnder]
  constructor
  · intro ⟨i, p, hp, he, hw⟩
    exact ⟨p, he ▸ hp, hw⟩
  · intro ⟨p, hp, hw⟩
    exact ⟨id, p, hp, rfl, hw⟩

theorem enter_eq_ok_iff :
    enter variantsOn r a p = .ok (r', a') ↔
      (∃ others, p.alternatives variantsOn = .ok others) ∧
        a.insertAll (wordsUnder variantsOn (r.nextId p.polarity) p) = .ok a' ∧
        r' = r.push p.polarity p.text := by
  rw [wordsUnder, ← List.singleton_append, Automaton.insertAll_append]
  simp only [enter, bind_eq_ok_iff]
  constructor
  · intro h
    obtain ⟨a1, h1, others, ho, a2, h2, h3⟩ := h
    cases h3
    rw [ho]
    exact ⟨⟨others, rfl⟩, ⟨a1, h1, h2⟩, rfl⟩
  · intro h
    obtain ⟨⟨others, ho⟩, ⟨a1, h1, h2⟩, h3⟩ := h
    rw [ho] at h2
    rw [h3]
    exact ⟨a1, h1, others, ho, a', h2, rfl⟩

theorem enterAll_eq_ok_iff :
    enterAll variantsOn r a ps = .ok (r', a') ↔
      (∀ p ∈ ps, ∃ others, p.alternatives variantsOn = .ok others) ∧
        a.insertAll (wordsOf variantsOn r ps) = .ok a' ∧ r' = r.enlist ps := by
  induction ps generalizing r a with
  | nil =>
    constructor
    · intro h
      cases h
      exact ⟨nofun, rfl, rfl⟩
    · intro h
      obtain ⟨-, h, hr⟩ := h
      cases h
      rw [hr]
      rfl
  | cons p ps ih =>
    rw [wordsOf_cons, Automaton.insertAll_append, List.forall_mem_cons]
    simp only [enterAll, bind_eq_ok_iff, Prod.exists, enter_eq_ok_iff, ih]
    constructor
    · intro h
      obtain ⟨r1, a1, ⟨hp, h1, hr1⟩, hps, h2, hr⟩ := h
      subst hr1
      exact ⟨⟨hp, hps⟩, ⟨a1, h1, h2⟩, hr⟩
    · intro h
      obtain ⟨⟨hp, hps⟩, ⟨a1, h1, h2⟩, hr⟩ := h
      exact ⟨_, a1, ⟨hp, h1, rfl⟩, hps, h2, hr⟩

theorem enterAll_eq_ok (h : enterAll variantsOn r a ps = .ok (r', a')) :
    (∀ q, (r'.list q).size = (r.list q).size + ps.countP (·.polarity == q)) ∧
      ∃ words, a.insertAll words = .ok a' ∧
        ∀ w id, (w, id) ∈ words ↔ ∃ p, (id, p) ∈ numbered r ps ∧ p.IsWord variantsOn w := by
  obtain ⟨-, ha, hr⟩ := enterAll_eq_ok_iff.1 h
  rw [hr]
  exact ⟨fun q => Roster.size_list_enlist r ps q, _, ha, fun w id => mem_wordsOf⟩

theorem compile_eq_ok_iff {settings : Settings} {s : Session} :
    compile settings = .ok s ↔ settings.patterns ≠ [] ∧
      (∀ p ∈ settings.patterns, ∃ others, p.alternatives settings.variants = .ok others) ∧
      ∃ a, (Automaton.empty !settings.caseSensitive).insertAll
          (wordsOf settings.variants .empty settings.patterns) = .ok a ∧
        s = ⟨settings, Roster.empty.enlist settings.patterns, a⟩ := by
  unfold compile
  split
  · rename_i h
    simp [List.isEmpty_iff.1 h]
  · rename_i h
    simp only [bind_eq_ok_iff, Prod.exists, enterAll_eq_ok_iff]
    constructor
    · intro ⟨r, a, ⟨hp, ha, hr⟩, hs⟩
      cases hs
      exact ⟨mt List.isEmpty_iff.2 h, hp, a, ha, by rw [hr]⟩
    · intro ⟨_, hp, a, ha, hs⟩
      exact ⟨_, a, ⟨hp, ha, rfl⟩, by rw [hs]; rfl⟩

theorem compile_eq_ok {settings : Settings} {s : Session} (h : compile settings = .ok s) :
    ∃ roster automaton, enterAll settings.variants .empty (.empty !settings.caseSensitive)
      settings.patterns = .ok (roster, automaton) ∧ s = ⟨settings, roster, automaton⟩ := by
  obtain ⟨-, hp, a, ha, hs⟩ := compile_eq_ok_iff.1 h
  exact ⟨_, a, enterAll_eq_ok_iff.2 ⟨hp, ha, rfl⟩, hs⟩

theorem mem_numbered (h : (id, p) ∈ numbered r ps) :
    p ∈ ps ∧ ∃ k, (r.list p.polarity).size < k ∧
      k ≤ (r.list p.polarity).size + ps.countP (·.polarity == p.polarity) ∧
      id = .of p.polarity k := by
  induction ps generalizing r with
  | nil => simp [numbered] at h
  | cons q ps ih =>
    rcases List.mem_cons.1 h with h | h
    · obtain ⟨rfl, rfl⟩ := Prod.mk.inj h
      refine ⟨List.mem_cons_self, _, Nat.lt_succ_self _, ?_, rfl⟩
      simp only [List.countP_cons, beq_self_eq_true, ↓reduceIte]
      omega
    · obtain ⟨hp, k, hlt, hle, hid⟩ := ih h
      rw [Roster.size_list_push] at hlt hle
      refine ⟨List.mem_cons_of_mem _ hp, k, by omega, ?_, hid⟩
      simp only [List.countP_cons, beq_iff_eq]
      omega

theorem exists_number (h : p ∈ ps) : ∃ id, (id, p) ∈ numbered r ps := by
  induction ps generalizing r with
  | nil => simp at h
  | cons q ps ih =>
    rcases List.mem_cons.1 h with rfl | h
    · exact ⟨_, List.mem_cons_self⟩
    · obtain ⟨id, hid⟩ := ih h
      exact ⟨id, List.mem_cons_of_mem _ hid⟩

theorem exists_numbered {q : Polarity} {k : Nat} (hlt : (r.list q).size < k)
    (hle : k ≤ (r.list q).size + ps.countP (·.polarity == q)) :
    ∃ p, (.of q k, p) ∈ numbered r ps ∧ p.polarity = q := by
  induction ps generalizing r with
  | nil =>
    simp only [List.countP_nil] at hle
    omega
  | cons p ps ih =>
    by_cases hk : p.polarity = q ∧ k = (r.list q).size + 1
    · obtain ⟨rfl, rfl⟩ := hk
      exact ⟨p, List.mem_cons_self, rfl⟩
    · have hsize := r.size_list_push q p.polarity p.text
      simp only [List.countP_cons, beq_iff_eq] at hle
      obtain ⟨p', hp', hq⟩ := ih (r := r.push p.polarity p.text) (by split at hsize <;> grind)
        (by omega)
      exact ⟨p', List.mem_cons_of_mem _ hp', hq⟩

theorem numbered_inj (hr : ∀ q, (r.list q).size + ps.countP (·.polarity == q) < 2 ^ 31)
    (h : (id, p) ∈ numbered r ps) (h' : (id, p') ∈ numbered r ps) : p = p' := by
  induction ps generalizing r with
  | nil => simp [numbered] at h
  | cons q ps ih =>
    have hr' (s : Polarity) :
        ((r.push q.polarity q.text).list s).size + ps.countP (·.polarity == s) < 2 ^ 31 := by
      have hs := hr s
      rw [Roster.size_list_push]
      simp only [List.countP_cons, beq_iff_eq] at hs
      omega
    -- the number of the first pattern is below all later ones of its kind
    have apart {p : Pattern} (hp : (r.nextId q.polarity, p) ∈
        numbered (r.push q.polarity q.text) ps) : False := by
      obtain ⟨-, k, hlt, hle, hid⟩ := mem_numbered hp
      have hq := hr q.polarity
      have hk := hr' p.polarity
      simp only [List.countP_cons, beq_self_eq_true, ↓reduceIte] at hq
      obtain ⟨he, hn⟩ := PatternId.of_inj (by omega) (by omega) (by omega) (by omega) hid
      rw [Roster.size_list_push, if_pos he, ← he] at hlt
      omega
    rcases List.mem_cons.1 h with h | h
    · obtain ⟨rfl, rfl⟩ := Prod.mk.inj h
      rcases List.mem_cons.1 h' with h' | h'
      · exact (Prod.mk.inj h').2.symm
      · exact (apart h').elim
    · rcases List.mem_cons.1 h' with h' | h'
      · obtain ⟨rfl, rfl⟩ := Prod.mk.inj h'
        exact (apart h).elim
      · exact ih hr' h h'

/-- A number is read exactly if one of its words occurs. -/
theorem mem_readings_iff {caseless : Bool} {words : List (List UInt8 × PatternId)}
    (h : (Automaton.empty caseless).insertAll words = .ok a) {buffer : List UInt8} :
    (∃ ids ∈ ((Outline.empty caseless).insertEach l words).readings buffer, id ∈ ids) ↔
      ∃ w, (w, id) ∈ words ∧ w ≠ [] ∧ Occurs caseless w buffer := by
  simp only [Outline.mem_readings, Automaton.mem_marks_of_insertAll h,
    Outline.caseless_insertEach, Occurs, AsciiCase.infix_fold_iff]
  constructor
  · rintro ⟨p, hp, -, w, hw, hne, he⟩
    exact ⟨w, hw, hne, p, hp, he.symm⟩
  · rintro ⟨w, hw, hne, p, hp, he⟩
    refine ⟨p, hp, ?_, w, hw, hne, he.symm⟩
    rintro rfl
    exact hne (List.eq_nil_of_length_eq_zero (by simpa using congrArg List.length he))

section Numbers

variable {settings : Settings} (haccept : settings.acceptCount < 2 ^ 31)
  (hreject : settings.patterns.countP (·.polarity == .reject) < 2 ^ 31)

@[simp] theorem size_list_empty (q : Polarity) : (Roster.empty.list q).size = 0 := by
  cases q <;> rfl

include haccept hreject

theorem count_lt (q : Polarity) :
    (Roster.empty.list q).size + settings.patterns.countP (·.polarity == q) < 2 ^ 31 := by
  rw [size_list_empty, Nat.zero_add]
  cases q with
  | accept => exact haccept
  | reject => exact hreject

theorem number_eq (h : (id, p) ∈ numbered .empty settings.patterns) :
    ∃ k, 0 < k ∧ k < 2 ^ 31 ∧ k ≤ settings.patterns.countP (·.polarity == p.polarity) ∧
      id = .of p.polarity k := by
  obtain ⟨-, k, hlt, hle, hid⟩ := mem_numbered h
  have hc := count_lt haccept hreject p.polarity
  rw [size_list_empty] at hlt hle hc
  exact ⟨k, hlt, by omega, by omega, hid⟩

theorem isReject_number (h : (id, p) ∈ numbered .empty settings.patterns) :
    id.isReject = true ↔ p.polarity = .reject := by
  obtain ⟨k, hk0, hk, -, rfl⟩ := number_eq haccept hreject h
  cases hp : p.polarity with
  | accept => simp [PatternId.isReject_of_accept hk]
  | reject => simp [PatternId.isReject_of_reject hk0 hk]

theorem number_mem_wanted (h : (id, p) ∈ numbered .empty settings.patterns)
    (hp : p.polarity = .accept) : id ∈ Verdict.wanted settings.acceptCount := by
  obtain ⟨k, hk0, -, hk, hid⟩ := number_eq haccept hreject h
  rw [hp] at hk hid
  exact Verdict.mem_wanted.2 ⟨k, hk0, hk, hid⟩

omit haccept hreject in
theorem exists_wanted (h : id ∈ Verdict.wanted settings.acceptCount) :
    ∃ p, (id, p) ∈ numbered .empty settings.patterns ∧ p.polarity = .accept := by
  obtain ⟨k, hk0, hk, rfl⟩ := Verdict.mem_wanted.1 h
  refine exists_numbered (by rwa [size_list_empty]) ?_
  rw [size_list_empty, Nat.zero_add]
  exact hk

theorem read_iff_finds {buffer : List UInt8} :
    ((∀ id, (∃ p, (id, p) ∈ numbered .empty settings.patterns ∧ settings.Finds p buffer) →
        id.isReject = false) ∧
      ∀ id ∈ Verdict.wanted settings.acceptCount,
        ∃ p, (id, p) ∈ numbered .empty settings.patterns ∧ settings.Finds p buffer) ↔
    (∀ p ∈ settings.patterns, p.polarity = .accept → settings.Finds p buffer) ∧
      ∀ p ∈ settings.patterns, p.polarity = .reject → ¬settings.Finds p buffer := by
  constructor
  · rintro ⟨hnone, hall⟩
    refine ⟨fun p hp hpol => ?_, fun p hp hpol hfinds => ?_⟩
    · obtain ⟨id, hid⟩ := exists_number (r := .empty) hp
      obtain ⟨p', hp', hfinds⟩ := hall id (number_mem_wanted haccept hreject hid hpol)
      exact numbered_inj (count_lt haccept hreject) hp' hid ▸ hfinds
    · obtain ⟨id, hid⟩ := exists_number (r := .empty) hp
      have hr := hnone id ⟨p, hid, hfinds⟩
      rw [(isReject_number haccept hreject hid).2 hpol] at hr
      cases hr
  · rintro ⟨hacc, hrej⟩
    refine ⟨?_, fun id hid => ?_⟩
    · rintro id ⟨p, hid, hfinds⟩
      rw [Bool.eq_false_iff, Ne, isReject_number haccept hreject hid]
      exact fun hpol => hrej p (mem_numbered hid).1 hpol hfinds
    · obtain ⟨p, hp, hpol⟩ := exists_wanted hid
      exact ⟨p, hp, hacc p (mem_numbered hp).1 hpol⟩

end Numbers

theorem not_reject_of_rejectsNothing (hsize : (r.list .reject).size =
    (Roster.empty.list .reject).size + ps.countP (·.polarity == .reject))
    (h : r.rejectsNothing = true) : ∀ p ∈ ps, p.polarity ≠ .reject := by
  intro p hp hpol
  have hpos : 0 < ps.countP (·.polarity == .reject) :=
    List.countP_pos_iff.2 ⟨p, hp, by simp [hpol]⟩
  have hzero : (r.list .reject).size = 0 := Roster.rejectsNothing_iff.1 h
  rw [size_list_empty] at hsize
  omega

theorem mem_readings_iff_finds {settings : Settings} {words : List (List UInt8 × PatternId)}
    (h : (Automaton.empty !settings.caseSensitive).insertAll words = .ok a)
    (hmem : ∀ w id, (w, id) ∈ words ↔
      ∃ p, (id, p) ∈ numbered .empty settings.patterns ∧ p.IsWord settings.variants w)
    (buffer : List UInt8) (id : PatternId) :
    (∃ ids ∈ ((Outline.empty !settings.caseSensitive).insertEach l words).readings buffer,
      id ∈ ids) ↔
    ∃ p, (id, p) ∈ numbered .empty settings.patterns ∧ settings.Finds p buffer := by
  rw [mem_readings_iff h]
  simp only [hmem]
  constructor
  · rintro ⟨w, ⟨p, hid, hw⟩, hne, ho⟩
    exact ⟨p, hid, w, hw, hne, ho⟩
  · rintro ⟨p, hid, w, hw, hne, ho⟩
    exact ⟨w, ⟨p, hid, hw⟩, hne, ho⟩

theorem isMatch_iff_matches {settings : Settings} {s : Session} (h : compile settings = .ok s)
    (haccept : settings.acceptCount < 2 ^ 31)
    (hreject : settings.patterns.countP (·.polarity == .reject) < 2 ^ 31) (buffer : List UInt8) :
    s.isMatch buffer = true ↔ settings.Matches buffer := by
  obtain ⟨roster, automaton, he, rfl⟩ := compile_eq_ok h
  obtain ⟨hsize, words, hwords, hmem⟩ := enterAll_eq_ok he
  have hn : roster.accept.size = settings.acceptCount := by
    have ha := hsize .accept
    rw [size_list_empty, Nat.zero_add] at ha
    exact ha
  have hgathers := (Verdict.gathers_weighAll settings.acceptCount roster.rejectsNothing .empty
    _).congr (mem_readings_iff_finds hwords hmem buffer)
  have hverdict : ((scan ⟨settings, roster, automaton⟩).run buffer).isMatch roster.accept.size =
      true ↔ (∀ p ∈ settings.patterns, p.polarity = .accept → settings.Finds p buffer) ∧
        ∀ p ∈ settings.patterns, p.polarity = .reject → ¬settings.Finds p buffer := by
    rw [Scan.run_eq_of_insertAll (s := scan ⟨settings, roster, automaton⟩) hwords rfl]
    change (Verdict.weighAll roster.accept.size roster.rejectsNothing .empty _).1.isMatch _ = _ ↔ _
    rw [hn, hgathers.isMatch_iff haccept ?_ ?_, read_iff_finds haccept hreject]
    · rintro id ⟨p, hid, -⟩ hr
      rw [Bool.eq_false_iff, Ne, isReject_number haccept hreject hid] at hr
      refine number_mem_wanted haccept hreject hid ?_
      cases hp : p.polarity with
      | accept => rfl
      | reject => exact absurd hp hr
    · rintro hr id ⟨p, hid, -⟩
      rw [Bool.eq_false_iff, Ne, isReject_number haccept hreject hid]
      exact not_reject_of_rejectsNothing (hsize .reject) hr p (mem_numbered hid).1
  simp only [isMatch, Scan.isMatch, Bool.and_eq_true]
  constructor
  · rintro ⟨hb, hv⟩
    obtain ⟨ha, hr⟩ := hverdict.1 hv
    exact ⟨by simpa using hb, ha, hr⟩
  · rintro ⟨hb, ha, hr⟩
    exact ⟨by simpa using hb, hverdict.2 ⟨ha, hr⟩⟩

theorem isMatch_iff_matches_of_contraction :
    let settings := { Settings.of [⟨"Dept of", .accept, [.contraction]⟩, .plain .reject "ab"] "."
      with variants := true, layout := .nibble }
    ∃ s, compile settings = .ok s ∧
      ∀ buffer, s.isMatch buffer = true ↔ settings.Matches buffer :=
  ⟨_, rfl, isMatch_iff_matches rfl (by decide) (by decide)⟩

end Session

end Winnow
