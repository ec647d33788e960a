import Winnow.Proofs.Pattern
import Winnow.Proofs.Settings.Filters

/-!
# The arguments of a search

Digits with a dash come first, as many as there are, and the last of them counts. The last of
the other words is the path, and what stands between is tokens. Of several faults the one that
is reported is not the first in the arguments: the number of threads and the queue are looked
at before any token is. `Resolution` says so without a reader, and `Settings.ofCommandLine`
is proved to come to what it says.
-/

namespace Winnow

namespace Settings

def DigitWord (n : Nat) (word : String) : Prop := 1 ≤ n ∧ n ≤ 9 ∧ word = "-" ++ toString n

/-- Arguments, the digits that lead them, and the words from the first that is no digit on. -/
inductive Arguments : List String → List Nat → List String → Prop
  | digit {n : Nat} {word : String} {args : List String} {digits : List Nat}
      {words : List String} (hword : DigitWord n word) (hargs : Arguments args digits words) :
      Arguments (word :: args) (n :: digits) words
  | words {words : List String} (hfirst : ∀ word ∈ words.head?, ∀ n, ¬DigitWord n word) :
      Arguments words [] words

/-- The last digit, or else the number given with the option, or else that of the defaults. -/
def chosenOversize (digits : List Nat) (given : Option Nat) (default : Nat) : Nat :=
  match digits.getLast?, given with
  | some n, _ => n
  | none, some n => n
  | none, none => default

/-- The settings that come of arguments without a fault. A switch turns on what it stands for,
and none turns anything off. -/
def resolved (l : CommandLine) (d : Defaults) (n : Nat) (root : String) (filters : List String)
    (patterns : List Pattern) : Settings where
  patterns := patterns
  root := root
  filters := filters
  caseSensitive := l.case || d.caseSensitive
  layout := if l.nibbles || d.nibbles then .nibble else .byte
  suppressErrors := l.suppress || d.suppressErrors
  variants := l.variant || d.variants
  oversize := n
  queueDepth := d.queueDepth

/-- What a command line and defaults come to. -/
inductive Resolution (l : CommandLine) (d : Defaults) : Except Error Settings → Prop
  | missingPath {digits : List Nat} (hargs : Arguments l.args digits []) :
      Resolution l d (.error .missingPath)
  | oversize {digits : List Nat} {tokens : List String} {path : String} {n : Nat}
      (hargs : Arguments l.args digits (tokens ++ [path]))
      (hchosen : chosenOversize digits l.oversize d.oversize = n) (hn : ¬(1 ≤ n ∧ n ≤ 9)) :
      Resolution l d (.error (.config ("oversize must be between 1 and 9, got " ++ toString n)))
  | queueDepth {digits : List Nat} {tokens : List String} {path : String} {n : Nat}
      (hargs : Arguments l.args digits (tokens ++ [path]))
      (hchosen : chosenOversize digits l.oversize d.oversize = n) (hn : 1 ≤ n ∧ n ≤ 9)
      (hqueue : d.queueDepth = 0) :
      Resolution l d (.error (.config "queue_depth must be at least 1"))
  | token {digits : List Nat} {before : List String} {token : String} {after : List String}
      {path : String} {n : Nat} {e : Error}
      (hargs : Arguments l.args digits (before ++ token :: after ++ [path]))
      (hchosen : chosenOversize digits l.oversize d.oversize = n) (hn : 1 ≤ n ∧ n ≤ 9)
      (hqueue : 1 ≤ d.queueDepth)
      (hbefore : ∀ t ∈ before, ∃ p, Pattern.ofToken (l.variant || d.variants) t = .ok p)
      (htoken : Pattern.ofToken (l.variant || d.variants) token = .error e) :
      Resolution l d (.error e)
  | noPatterns {digits : List Nat} {path : String} {n : Nat}
      (hargs : Arguments l.args digits [path])
      (hchosen : chosenOversize digits l.oversize d.oversize = n) (hn : 1 ≤ n ∧ n ≤ 9)
      (hqueue : 1 ≤ d.queueDepth) : Resolution l d (.error .noPatterns)
  | settings {digits : List Nat} {tokens filters : List String} {path root : String} {n : Nat}
      {patterns : List Pattern} (hargs : Arguments l.args digits (tokens ++ [path]))
      (hchosen : chosenOversize digits l.oversize d.oversize = n) (hn : 1 ≤ n ∧ n ≤ 9)
      (hqueue : 1 ≤ d.queueDepth) (htokens : tokens ≠ [])
      (hpatterns : List.Forall₂
        (fun t p => Pattern.ofToken (l.variant || d.variants) t = .ok p) tokens patterns)
      (hsplits : Splits path root filters) :
      Resolution l d (.ok (resolved l d n root filters patterns))

variable {l : CommandLine} {d : Defaults} {args words tokens : List String} {digits : List Nat}
  {path : String} {n : Nat}

theorem toList_dash_append_of_lt (h : n < 10) :
    ("-" ++ toString n).toList = ['-', n.digitChar] := by
  rw [String.toList_append, Nat.toString_eq_repr, Nat.toList_repr, Nat.toDigits_of_lt_base h]
  rfl

theorem dashDigit?_eq_some_iff {word : String} : dashDigit? word = some n ↔ DigitWord n word := by
  constructor
  · intro h
    unfold dashDigit? at h
    split at h
    · rename_i c hword
      split at h
      · rename_i hc
        have hlow : 49 ≤ c.toNat := hc.1
        have hhigh : c.toNat ≤ 57 := hc.2
        have hn : c.toNat - 48 = n := Option.some.inj h
        have hten : n < 10 := by omega
        have hdigit : c = n.digitChar := by
          apply Char.toNat_inj.1
          rw [Nat.toNat_digitChar_of_lt_ten hten]
          omega
        refine ⟨by omega, by omega, String.toList_injective ?_⟩
        rw [hword, toList_dash_append_of_lt hten, hdigit]
      · cases h
    · cases h
  · intro h
    obtain ⟨hone, hnine, rfl⟩ := h
    have hten : n < 10 := by omega
    have hnat := Nat.toNat_digitChar_of_lt_ten hten
    have hlow : '1' ≤ n.digitChar := show 49 ≤ n.digitChar.toNat by omega
    have hhigh : n.digitChar ≤ '9' := show n.digitChar.toNat ≤ 57 by omega
    rw [dashDigit?, toList_dash_append_of_lt hten]
    simp only [hlow, hhigh, and_self, if_true, Option.some.injEq]
    exact Nat.toNat_digitChar_sub_48_of_lt_ten hten

theorem dashDigit?_eq_none_iff {word : String} :
    dashDigit? word = none ↔ ∀ n, ¬DigitWord n word := by
  simp only [Option.eq_none_iff_forall_ne_some, ne_eq, dashDigit?_eq_some_iff]

theorem Arguments.takeDigits_eq (h : Arguments args digits words) (last : Option Nat) :
    takeDigits last args = (digits.getLast?.or last, words) := by
  -- each digit takes the place of the one before it, so any may stand there at first
  induction h generalizing last with
  | digit hword hargs ih =>
    rw [takeDigits, dashDigit?_eq_some_iff.2 hword, List.getLast?_cons]
    simp only [ih]
    cases List.getLast? _ <;> rfl
  | words hfirst =>
    rename_i words
    cases words with
    | nil => rfl
    | cons word words =>
      rw [takeDigits, dashDigit?_eq_none_iff.2 (hfirst word rfl)]
      rfl

theorem exists_arguments (args : List String) : ∃ digits words, Arguments args digits words := by
  induction args with
  | nil => exact ⟨[], [], .words nofun⟩
  | cons word args ih =>
    by_cases hword : ∃ n, DigitWord n word
    · obtain ⟨n, hn⟩ := hword
      obtain ⟨digits, words, h⟩ := ih
      exact ⟨n :: digits, words, .digit hn h⟩
    · refine ⟨[], word :: args, .words ?_⟩
      intro w hw n hn
      cases Option.mem_some.1 hw
      exact hword ⟨n, hn⟩

theorem orElse_getD_eq (digits : List Nat) (given : Option Nat) (default : Nat) :
    (digits.getLast?.or none <|> given).getD default = chosenOversize digits given default := by
  unfold chosenOversize
  generalize digits.getLast? = last
  cases last <;> cases given <;> rfl

theorem chosenOversize_of_given {given : Option Nat} (h : digits ≠ [] ∨ given.isSome) (m n : Nat) :
    chosenOversize digits given m = chosenOversize digits given n := by
  unfold chosenOversize
  split
  · rfl
  · rfl
  · rename_i hlast
    rcases h with h | h
    · exact absurd (List.getLast?_eq_none_iff.1 hlast) h
    · cases h

theorem Arguments.ofCommandLine_eq (h : Arguments l.args digits (tokens ++ [path]))
    (hchosen : chosenOversize digits l.oversize d.oversize = n) :
    ofCommandLine l d =
      if ¬(1 ≤ n ∧ n ≤ 9) then
        .error (.config ("oversize must be between 1 and 9, got " ++ toString n))
      else if d.queueDepth = 0 then .error (.config "queue_depth must be at least 1")
      else tokens.mapM (Pattern.ofToken (l.variant || d.variants)) >>= fun ps =>
        if ps.isEmpty then .error .noPatterns
        else .ok (resolved l d n (splitFilters path).1 (splitFilters path).2 ps) := by
  rw [ofCommandLine, h.takeDigits_eq]
  simp only [List.getLast?_concat, List.dropLast_concat, orElse_getD_eq, hchosen]
  split
  · rfl
  · split
    · rfl
    · apply bind_congr
      intro ps
      cases ps <;> rfl

theorem Arguments.ofCommandLine_of_range (h : Arguments l.args digits (tokens ++ [path]))
    (hchosen : chosenOversize digits l.oversize d.oversize = n) (hn : 1 ≤ n ∧ n ≤ 9)
    (hqueue : 1 ≤ d.queueDepth) :
    ofCommandLine l d = tokens.mapM (Pattern.ofToken (l.variant || d.variants)) >>= fun ps =>
      if ps.isEmpty then .error .noPatterns
      else .ok (resolved l d n (splitFilters path).1 (splitFilters path).2 ps) := by
  rw [h.ofCommandLine_eq hchosen, if_neg (not_not.2 hn), if_neg (Nat.ne_of_gt hqueue)]

theorem Resolution.ofCommandLine_eq {r : Except Error Settings} (h : Resolution l d r) :
    ofCommandLine l d = r := by
  cases h with
  | missingPath hargs =>
    rw [ofCommandLine, hargs.takeDigits_eq]
    rfl
  | oversize hargs hchosen hn => rw [hargs.ofCommandLine_eq hchosen, if_pos hn]
  | queueDepth hargs hchosen hn hqueue =>
    rw [hargs.ofCommandLine_eq hchosen, if_neg (not_not.2 hn), if_pos hqueue]
  | token hargs hchosen hn hqueue hbefore htoken =>
    rw [hargs.ofCommandLine_of_range hchosen hn hqueue,
      mapM_eq_error_iff.2 ⟨_, _, _, rfl, hbefore, htoken⟩]
    rfl
  | noPatterns hargs hchosen hn hqueue =>
    -- the path alone is what follows no tokens
    have htokens : Arguments l.args _ ([] ++ [_]) := hargs
    rw [htokens.ofCommandLine_of_range hchosen hn hqueue]
    rfl
  | settings hargs hchosen hn hqueue htokens hpatterns hsplits =>
    rw [hargs.ofCommandLine_of_range hchosen hn hqueue, mapM_eq_ok_iff.2 hpatterns,
      hsplits.splitFilters_eq]
    cases hpatterns with
    | nil => exact absurd rfl htokens
    | cons => rfl

theorem exists_resolution (l : CommandLine) (d : Defaults) : ∃ r, Resolution l d r := by
  obtain ⟨digits, words, hargs⟩ := exists_arguments l.args
  rcases List.eq_nil_or_concat' words with rfl | ⟨tokens, path, rfl⟩
  · exact ⟨_, .missingPath hargs⟩
  · by_cases hn : 1 ≤ chosenOversize digits l.oversize d.oversize ∧
        chosenOversize digits l.oversize d.oversize ≤ 9
    · rcases Nat.eq_zero_or_pos d.queueDepth with hqueue | hqueue
      · exact ⟨_, .queueDepth hargs rfl hn hqueue⟩
      · cases hread : tokens.mapM (Pattern.ofToken (l.variant || d.variants)) with
        | error e =>
          obtain ⟨before, token, after, rfl, hbefore, htoken⟩ := mapM_eq_error_iff.1 hread
          exact ⟨_, .token hargs rfl hn hqueue hbefore htoken⟩
        | ok patterns =>
          by_cases htokens : tokens = []
          · rw [htokens] at hargs
            exact ⟨_, .noPatterns hargs rfl hn hqueue⟩
          · have hsplits := splits_splitFilters path
            exact ⟨_, .settings hargs rfl hn hqueue htokens (mapM_eq_ok_iff.1 hread) hsplits⟩
    · exact ⟨_, .oversize hargs rfl hn⟩

theorem ofCommandLine_eq_iff {r : Except Error Settings} :
    ofCommandLine l d = r ↔ Resolution l d r := by
  constructor
  · intro h
    obtain ⟨r', hr⟩ := exists_resolution l d
    rwa [← h, hr.ofCommandLine_eq]
  · exact Resolution.ofCommandLine_eq

theorem Arguments.digitWord_of_nil (h : Arguments args digits []) :
    ∀ word ∈ args, ∃ n, DigitWord n word := by
  induction args generalizing digits with
  | nil => exact List.forall_mem_nil _
  | cons word args ih =>
    cases h with
    | digit hword hargs => exact List.forall_mem_cons.2 ⟨⟨_, hword⟩, ih hargs⟩

theorem exists_arguments_nil (h : ∀ word ∈ args, ∃ n, DigitWord n word) :
    ∃ digits, Arguments args digits [] := by
  induction args with
  | nil => exact ⟨[], .words nofun⟩
  | cons word args ih =>
    obtain ⟨⟨n, hn⟩, hargs⟩ := List.forall_mem_cons.1 h
    obtain ⟨digits, h⟩ := ih hargs
    exact ⟨n :: digits, .digit hn h⟩

theorem ofToken_ne_missingPath (variantsOn : Bool) (token : String) :
    Pattern.ofToken variantsOn token ≠ .error .missingPath := by
  intro h
  cases Pattern.ofToken_eq_iff.1 h

theorem ofCommandLine_eq_missingPath_iff :
    ofCommandLine l d = .error .missingPath ↔ ∀ word ∈ l.args, ∃ n, DigitWord n word := by
  rw [ofCommandLine_eq_iff]
  constructor
  · intro h
    cases h with
    | missingPath hargs => exact hargs.digitWord_of_nil
    | token _ _ _ _ _ htoken => exact absurd htoken (ofToken_ne_missingPath _ _)
  · intro h
    obtain ⟨digits, hargs⟩ := exists_arguments_nil h
    exact .missingPath hargs

theorem Arguments.append (h : Arguments args digits words) (hwords : words ≠ [])
    (more : List String) : Arguments (args ++ more) digits (words ++ more) := by
  induction h with
  | digit hword hargs ih => exact .digit hword (ih hwords)
  | words hfirst =>
    apply Arguments.words
    rwa [List.head?_append_of_ne_nil _ hwords]

theorem ofCommandLine_oversize_default (h : Arguments l.args digits words)
    (hgiven : digits ≠ [] ∨ l.oversize.isSome) (n : Nat) :
    ofCommandLine l { d with oversize := n } = ofCommandLine l d := by
  rcases List.eq_nil_or_concat' words with rfl | ⟨tokens, path, rfl⟩
  · rw [Resolution.ofCommandLine_eq (.missingPath h), Resolution.ofCommandLine_eq (.missingPath h)]
  · rw [h.ofCommandLine_eq rfl, h.ofCommandLine_eq (chosenOversize_of_given hgiven d.oversize n)]
    rfl

theorem acceptCount_add_reject (s : Settings) :
    s.acceptCount + s.patterns.countP (·.polarity == .reject) = s.patterns.length := by
  rw [acceptCount, List.length_eq_countP_add_countP (·.polarity == .accept)]
  congr 1
  apply List.countP_congr
  intro p hp
  cases p.polarity <;> decide

theorem Resolution.of_ok {s : Settings} (h : Resolution l d (.ok s)) :
    ∃ digits tokens path, Arguments l.args digits (tokens ++ [path]) ∧
      Splits path s.root s.filters ∧ s.patterns.length = tokens.length ∧
      1 ≤ s.oversize ∧ s.oversize ≤ 9 ∧ 1 ≤ s.queueDepth ∧
      s.acceptCount + s.patterns.countP (·.polarity == .reject) = tokens.length := by
  cases h with
  | settings hargs hchosen hn hqueue htokens hpatterns hsplits =>
    have hlength := hpatterns.length_eq.symm
    refine ⟨_, _, _, hargs, hsplits, hlength, hn.1, hn.2, hqueue, ?_⟩
    rw [acceptCount_add_reject]
    exact hlength

/-- A command line is resolved as the relation says and in no other way. The path is missing
if every word is a digit, and only then. Words that follow one that is no digit do not change
the digits, whatever they are. A number given on the command line stands in front of that of
the defaults, even of a wrong one. Settings have the root and the filters that the path was put
together from, one pattern for each token, and numbers that are in range. -/
theorem ofCommandLine_resolution :
    (∀ l d r, ofCommandLine l d = r ↔ Resolution l d r) ∧
      (∀ l d, ofCommandLine l d = .error .missingPath ↔
        ∀ word ∈ l.args, ∃ n, DigitWord n word) ∧
      (∀ args digits words more, Arguments args digits words → words ≠ [] →
        Arguments (args ++ more) digits (words ++ more)) ∧
      (∀ (l : CommandLine) (d : Defaults) digits words n, Arguments l.args digits words →
        digits ≠ [] ∨ l.oversize.isSome →
        ofCommandLine l { d with oversize := n } = ofCommandLine l d) ∧
      ∀ l d s, ofCommandLine l d = .ok s →
        ∃ digits tokens path, Arguments l.args digits (tokens ++ [path]) ∧
          Splits path s.root s.filters ∧ s.patterns.length = tokens.length ∧
          1 ≤ s.oversize ∧ s.oversize ≤ 9 ∧ 1 ≤ s.queueDepth ∧
          s.acceptCount + s.patterns.countP (·.polarity == .reject) = tokens.length := by
  refine ⟨?_, ?_, ?_, ?_, ?_⟩
  · intro l d r
    exact ofCommandLine_eq_iff
  · intro l d
    exact ofCommandLine_eq_missingPath_iff
  · intro args digits words more h hwords
    exact h.append hwords more
  · intro l d digits words n h hgiven
    exact ofCommandLine_oversize_default h hgiven n
  · intro l d s h
    exact (ofCommandLine_eq_iff.1 h).of_ok

theorem ofCommandLine_resolution_of_second_digit :
    let args := ["-1", "-3", "ab", "src\x7ba , b\x7d"]
    Arguments args [1, 3] ["ab", "src\x7ba , b\x7d"] ∧
      Arguments (args ++ ["-3", "."]) [1, 3] ["ab", "src\x7ba , b\x7d", "-3", "."] ∧
      ofCommandLine { CommandLine.empty with args := args }
          { Defaults.standard with oversize := 0 } =
        .ok { of [.plain .accept "ab"] "src" with oversize := 3, filters := ["a", "b"] } ∧
      (∃ digits tokens path, Arguments args digits (tokens ++ [path]) ∧ tokens.length = 1 ∧
        Splits path "src" ["a", "b"]) ∧
      ofCommandLine { CommandLine.empty with args := args ++ ["-3", "."] }
        { Defaults.standard with oversize := 0 } = .error (.patternTooShort "-3") := by
  intro args
  have hargs : Arguments args [1, 3] ["ab", "src\x7ba , b\x7d"] := by
    refine .digit (n := 1) ⟨by decide, by decide, rfl⟩ ?_
    refine .digit (n := 3) ⟨by decide, by decide, rfl⟩ (.words ?_)
    intro word hword
    cases hword
    exact dashDigit?_eq_none_iff.1 rfl
  have hmore := ofCommandLine_resolution.2.2.1 _ _ _ ["-3", "."] hargs (List.cons_ne_nil _ _)
  have hdefault := ofCommandLine_resolution.2.2.2.1
    { CommandLine.empty with args := args } .standard _ _ 0 hargs (.inl (List.cons_ne_nil _ _))
  have hstandard : ofCommandLine { CommandLine.empty with args := args } .standard =
      .ok { of [.plain .accept "ab"] "src" with oversize := 3, filters := ["a", "b"] } := by
    decide +kernel
  have hok := hdefault.trans hstandard
  obtain ⟨digits, tokens, path, hwords, hsplits, hlength, -⟩ :=
    ofCommandLine_resolution.2.2.2.2 _ _ _ hok
  have hshort : Pattern.ofToken false "-3" = .error (.patternTooShort "-3") := by decide +kernel
  have hbefore : ∀ t ∈ ["ab", "src\x7ba , b\x7d"], ∃ p, Pattern.ofToken false t = .ok p :=
    exists_mapM_iff.1 ⟨[.plain .accept "ab", .plain .accept "src\x7ba , b\x7d"], by decide +kernel⟩
  have herror := (ofCommandLine_resolution.1 _ _ _).2 (@Resolution.token
    { CommandLine.empty with args := args ++ ["-3", "."] }
    { Defaults.standard with oversize := 0 } [1, 3] ["ab", "src\x7ba , b\x7d"] "-3" [] "." 3 _
    hmore rfl (by decide) (by decide) hbefore hshort)
  exact ⟨hargs, hmore, hok, ⟨digits, tokens, path, hwords, hlength.symm, hsplits⟩, herror⟩

end Settings

end Winnow
