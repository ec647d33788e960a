import Winnow.Pattern
import Winnow.Proofs.Variant

/-!
# The grammar of pattern tokens

A token is a sign, or none, and a body. With variants on, a body without an opening bracket
is all phrase. In another one the first opening bracket begins a list, and what decides is
where the first closing bracket after it stands: at the end of the body, or not. The three
relations below say so without a reader, and reading is proved to come to what they say, for
tokens that are wrong in more than one way too.
-/

namespace Winnow

namespace Pattern

/-- A token, its polarity and its body. One sign is taken off, and no more. -/
inductive Signed : List Char → Polarity → List Char → Prop
  | minus (body : List Char) : Signed ('-' :: body) .reject body
  | plus (body : List Char) : Signed ('+' :: body) .accept body
  | unsigned {body : List Char} (hminus : body.head? ≠ some '-') (hplus : body.head? ≠ some '+') :
      Signed body .accept body

inductive Bracketed : List Char → List Char → Except Error (List Variant) → Prop
  | bare {text : List Char} (htext : '[' ∉ text) : Bracketed text text (.ok [])
  | listed {text list : List Char} {vs : Except Error (List Variant)} (htext : '[' ∉ text)
      (hlist : ']' ∉ list) (hvs : Variant.ofList list = vs) :
      Bracketed (text ++ '[' :: (list ++ [']'])) text vs

/-- A body with an opening bracket, after the first of which there is no closing bracket or
the first closing bracket is not the last character. -/
inductive Unclosed : List Char → Prop
  | missing {text rest : List Char} (htext : '[' ∉ text) (hrest : ']' ∉ rest) :
      Unclosed (text ++ '[' :: rest)
  | early {text list rest : List Char} (htext : '[' ∉ text) (hlist : ']' ∉ list)
      (hrest : rest ≠ []) : Unclosed (text ++ '[' :: (list ++ ']' :: rest))

variable {token : String} {cs body text list rest : List Char} {q : Polarity}

theorem Signed.takeSign_eq (h : Signed cs q body) : takeSign cs = (q, body) := by
  cases h with
  | minus | plus => rfl
  | unsigned hminus hplus =>
    unfold takeSign
    split
    · exact absurd rfl hminus
    · exact absurd rfl hplus
    · rfl

theorem exists_signed (cs : List Char) : ∃ q body, Signed cs q body := by
  by_cases hminus : cs.head? = some '-'
  · obtain ⟨body, rfl⟩ := List.head?_eq_some_iff.1 hminus
    exact ⟨.reject, body, .minus body⟩
  · by_cases hplus : cs.head? = some '+'
    · obtain ⟨body, rfl⟩ := List.head?_eq_some_iff.1 hplus
      exact ⟨.accept, body, .plus body⟩
    · exact ⟨.accept, cs, .unsigned hminus hplus⟩

theorem splitBracket_of_not_mem (h : '[' ∉ text) : splitBracket text = (text, none) := by
  rw [splitBracket, Text.span_of_not_mem h]

theorem splitBracket_append (h : '[' ∉ text) (rest : List Char) :
    splitBracket (text ++ '[' :: rest) = (text, some rest) := by
  rw [splitBracket, Text.span_append_cons h]

theorem closedList?_of_not_mem (h : ']' ∉ rest) : closedList? rest = none := by
  rw [closedList?, Text.span_of_not_mem h]

theorem closedList?_closed (h : ']' ∉ list) : closedList? (list ++ [']']) = some list := by
  rw [closedList?, Text.span_append_cons h]

theorem closedList?_early (h : ']' ∉ list) (hrest : rest ≠ []) :
    closedList? (list ++ ']' :: rest) = none := by
  obtain ⟨c, cs, rfl⟩ := List.exists_cons_of_ne_nil hrest
  rw [closedList?, Text.span_append_cons h]

theorem Bracketed.phraseAndVariants_eq {vs : Except Error (List Variant)}
    (h : Bracketed body text vs) (token : String) :
    phraseAndVariants token body = vs.map (text, ·) := by
  cases h with
  | bare htext =>
    rw [phraseAndVariants, splitBracket_of_not_mem htext]
    rfl
  | listed htext hlist hvs =>
    rw [phraseAndVariants, splitBracket_append htext]
    simp only [closedList?_closed hlist, hvs]
    cases vs <;> rfl

theorem Unclosed.phraseAndVariants_eq (h : Unclosed body) (token : String) :
    phraseAndVariants token body = .error (.malformedVariant token) := by
  cases h with
  | missing htext hrest =>
    rw [phraseAndVariants, splitBracket_append htext]
    simp only [closedList?_of_not_mem hrest]
  | early htext hlist hrest =>
    rw [phraseAndVariants, splitBracket_append htext]
    simp only [closedList?_early hlist hrest]

theorem bracketed_or_unclosed (body : List Char) :
    (∃ text vs, Bracketed body text vs) ∨ Unclosed body := by
  by_cases hopen : '[' ∈ body
  · obtain ⟨text, after, rfl, htext⟩ := List.eq_append_cons_of_mem hopen
    by_cases hclose : ']' ∈ after
    · obtain ⟨list, rest, rfl, hlist⟩ := List.eq_append_cons_of_mem hclose
      by_cases hrest : rest = []
      · rw [hrest]
        exact .inl ⟨text, _, .listed htext hlist rfl⟩
      · exact .inr (.early htext hlist hrest)
    · exact .inr (.missing htext hclose)
  · exact .inl ⟨body, .ok [], .bare hopen⟩

theorem Bracketed.eq_unknownVariant {e : Error} (h : Bracketed body text (.error e)) :
    ∃ item, e = .unknownVariant item := by
  cases h with
  | listed htext hlist hvs =>
    obtain ⟨before, item, after, -, -, -, he⟩ := Variant.ofList_eq_error_iff.1 hvs
    exact ⟨_, he⟩

def sized (token : String) (q : Polarity) (text : List Char) (vs : List Variant) :
    Except Error Pattern :=
  if (String.ofList text).utf8ByteSize < minPatternBytes then .error (.patternTooShort token)
  else .ok ⟨.ofList text, q, vs⟩

theorem sized_of_le {p : Pattern} (h : 2 ≤ p.text.utf8ByteSize) (token : String) :
    sized token p.polarity p.text.toList p.variants = .ok p := by
  rw [sized, String.ofList_toList]
  exact if_neg (Nat.not_lt_of_le h)

theorem sized_of_lt {text : String} (h : text.utf8ByteSize < 2) (token : String) (q : Polarity)
    (vs : List Variant) : sized token q text.toList vs = .error (.patternTooShort token) := by
  rw [sized, String.ofList_toList]
  exact if_pos h

theorem Signed.ofToken_true (h : Signed token.toList q body) :
    ofToken true token = phraseAndVariants token body >>= fun x => sized token q x.1 x.2 := by
  rw [ofToken, h.takeSign_eq]
  rfl

theorem Signed.ofToken_false (h : Signed token.toList q body) :
    ofToken false token = sized token q body [] := by
  rw [ofToken, h.takeSign_eq]
  rfl

/-- What a token says, with variants on or off. -/
inductive Reading (token : String) : Bool → Except Error Pattern → Prop
  | pattern {body : List Char} {p : Pattern} (hsign : Signed token.toList p.polarity body)
      (hbody : Bracketed body p.text.toList (.ok p.variants)) (hlength : 2 ≤ p.text.utf8ByteSize) :
      Reading token true (.ok p)
  | malformed {q : Polarity} {body : List Char} (hsign : Signed token.toList q body)
      (hbody : Unclosed body) : Reading token true (.error (.malformedVariant token))
  | unknown {q : Polarity} {body text : List Char} {item : String}
      (hsign : Signed token.toList q body)
      (hbody : Bracketed body text (.error (.unknownVariant item))) :
      Reading token true (.error (.unknownVariant item))
  | short {q : Polarity} {body : List Char} {text : String} {vs : List Variant}
      (hsign : Signed token.toList q body) (hbody : Bracketed body text.toList (.ok vs))
      (hlength : text.utf8ByteSize < 2) : Reading token true (.error (.patternTooShort token))
  | plain {p : Pattern} (hsign : Signed token.toList p.polarity p.text.toList)
      (hvariants : p.variants = []) (hlength : 2 ≤ p.text.utf8ByteSize) :
      Reading token false (.ok p)
  | plainShort {q : Polarity} {text : String} (hsign : Signed token.toList q text.toList)
      (hlength : text.utf8ByteSize < 2) : Reading token false (.error (.patternTooShort token))

theorem Reading.ofToken_eq {variantsOn : Bool} {r : Except Error Pattern}
    (h : Reading token variantsOn r) : ofToken variantsOn token = r := by
  cases h with
  | pattern hsign hbody hlength =>
    rw [hsign.ofToken_true, hbody.phraseAndVariants_eq]
    exact sized_of_le hlength token
  | malformed hsign hbody =>
    rw [hsign.ofToken_true, hbody.phraseAndVariants_eq]
    rfl
  | unknown hsign hbody =>
    rw [hsign.ofToken_true, hbody.phraseAndVariants_eq]
    rfl
  | short hsign hbody hlength =>
    rw [hsign.ofToken_true, hbody.phraseAndVariants_eq]
    exact sized_of_lt hlength token _ _
  | plain hsign hvariants hlength =>
    rw [hsign.ofToken_false, ← hvariants]
    exact sized_of_le hlength token
  | plainShort hsign hlength =>
    rw [hsign.ofToken_false]
    exact sized_of_lt hlength token _ _

theorem exists_reading (variantsOn : Bool) (token : String) : ∃ r, Reading token variantsOn r := by
  obtain ⟨q, body, hsign⟩ := exists_signed token.toList
  cases variantsOn with
  | true =>
    rcases bracketed_or_unclosed body with ⟨text, vs, hbody⟩ | hbody
    · cases vs with
      | error e =>
        obtain ⟨item, rfl⟩ := hbody.eq_unknownVariant
        exact ⟨_, .unknown hsign hbody⟩
      | ok vs =>
        rw [← String.toList_ofList (l := text)] at hbody
        rcases Nat.lt_or_ge (String.ofList text).utf8ByteSize 2 with hlength | hlength
        · exact ⟨_, .short hsign hbody hlength⟩
        · exact ⟨_, .pattern (p := ⟨.ofList text, q, vs⟩) hsign hbody hlength⟩
    · exact ⟨_, .malformed hsign hbody⟩
  | false =>
    rw [← String.toList_ofList (l := body)] at hsign
    rcases Nat.lt_or_ge (String.ofList body).utf8ByteSize 2 with hlength | hlength
    · exact ⟨_, .plainShort hsign hlength⟩
    · exact ⟨_, .plain (p := ⟨.ofList body, q, []⟩) hsign rfl hlength⟩

theorem ofToken_eq_iff {variantsOn : Bool} {r : Except Error Pattern} :
    ofToken variantsOn token = r ↔ Reading token variantsOn r := by
  constructor
  · rintro rfl
    obtain ⟨r, hr⟩ := exists_reading variantsOn token
    rwa [hr.ofToken_eq]
  · exact Reading.ofToken_eq

def sign : Polarity → Char
  | .accept => '+'
  | .reject => '-'

theorem signed_sign (q : Polarity) (body : List Char) : Signed (sign q :: body) q body := by
  cases q with
  | accept => exact .plus body
  | reject => exact .minus body

def writtenBody (p : Pattern) : List Char :=
  p.text.toList ++ if p.variants = [] then [] else '[' :: (Variant.written p.variants ++ [']'])

theorem bracketed_writtenBody {p : Pattern} (htext : '[' ∉ p.text.toList) :
    Bracketed p.writtenBody p.text.toList (.ok p.variants) := by
  unfold writtenBody
  split
  · rename_i hnone
    rw [hnone, List.append_nil]
    exact .bare htext
  · exact .listed htext (Variant.bracket_not_mem_written _) (Variant.ofList_written _)

def signedToken (q : Polarity) (body : List Char) : String := .ofList (sign q :: body)

theorem ofToken_signedToken {p : Pattern} (hbody : Bracketed body p.text.toList (.ok p.variants))
    (hlength : 2 ≤ p.text.utf8ByteSize) : ofToken true (signedToken p.polarity body) = .ok p := by
  refine ofToken_eq_iff.2 (.pattern ?_ hbody hlength)
  rw [signedToken, String.toList_ofList]
  exact signed_sign p.polarity body

/-- A token is read as the grammar says and in no other way. With a sign in front of it every
body that can be read at all stands for its pattern, and every pattern whose text has no opening
bracket and is long enough is written so, even one whose text begins with a sign. -/
theorem ofToken_grammar :
    (∀ variantsOn token r, ofToken variantsOn token = r ↔ Reading token variantsOn r) ∧
      (∀ (p : Pattern) body, Bracketed body p.text.toList (.ok p.variants) →
        2 ≤ p.text.utf8ByteSize → ofToken true (signedToken p.polarity body) = .ok p) ∧
      ∀ p : Pattern, '[' ∉ p.text.toList → 2 ≤ p.text.utf8ByteSize →
        ofToken true (signedToken p.polarity p.writtenBody) = .ok p :=
  ⟨fun _ _ _ => ofToken_eq_iff, fun _ _ => ofToken_signedToken,
    fun _ htext => ofToken_signedToken (bracketed_writtenBody htext)⟩

theorem ofToken_grammar_of_second_sign :
    ofToken true "-[z]x" = .error (.malformedVariant "-[z]x") ∧
      Bracketed "-a[al]".toList "-a".toList (.ok [.acronym, .levenshtein]) ∧
      ofToken true "--a[al]" = .ok ⟨"-a", .reject, [.acronym, .levenshtein]⟩ ∧
      '[' ∉ "-a".toList ∧ 2 ≤ "-a".utf8ByteSize ∧
      ofToken true "--a[acronym,levenshtein1]" = .ok ⟨"-a", .reject, [.acronym, .levenshtein]⟩ := by
  have hearly : Unclosed "[z]x".toList :=
    @Unclosed.early [] ['z'] ['x'] (by decide) (by decide) (by decide)
  have hlisted : Bracketed "-a[al]".toList "-a".toList (.ok [.acronym, .levenshtein]) :=
    @Bracketed.listed ['-', 'a'] ['a', 'l'] _ (by decide) (by decide) (by decide +kernel)
  have hlength : 2 ≤ "-a".utf8ByteSize := by decide
  have hopen : '[' ∉ "-a".toList := by decide
  have hwrong := (ofToken_grammar.1 true "-[z]x" _).2 (.malformed (.minus "[z]x".toList) hearly)
  have hletters := ofToken_grammar.2.1 ⟨"-a", .reject, [.acronym, .levenshtein]⟩ _ hlisted hlength
  have hnames := ofToken_grammar.2.2 ⟨"-a", .reject, [.acronym, .levenshtein]⟩ hopen hlength
  exact ⟨hwrong, hlisted, hletters, hopen, hlength, hnames⟩

end Pattern

end Winnow
