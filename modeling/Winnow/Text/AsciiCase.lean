/-!
# ASCII letter case

Only the letters A to Z have a case here; every other byte is its own upper and
lower form. Two words are equal up to case when folding makes them the same.
-/

namespace Winnow.AsciiCase

def upper (b : UInt8) : UInt8 := if 0x61 ≤ b ∧ b ≤ 0x7a then b - 0x20 else b

def lower (b : UInt8) : UInt8 := if 0x41 ≤ b ∧ b ≤ 0x5a then b + 0x20 else b

def fold (caseless : Bool) (word : List UInt8) : List UInt8 :=
  if caseless then word.map lower else word

theorem lower_upper (b : UInt8) : lower (upper b) = lower b :=
  have h : ∀ n : Fin 256, lower (upper (.ofFin n)) = lower (.ofFin n) := by decide +kernel
  h b.toFin

theorem lower_lower (b : UInt8) : lower (lower b) = lower b :=
  have h : ∀ n : Fin 256, lower (lower (.ofFin n)) = lower (.ofFin n) := by decide +kernel
  h b.toFin

theorem upper_lower (b : UInt8) : upper (lower b) = upper b :=
  have h : ∀ n : Fin 256, upper (lower (.ofFin n)) = upper (.ofFin n) := by decide +kernel
  h b.toFin

@[simp] theorem length_fold (caseless : Bool) (word : List UInt8) :
    (fold caseless word).length = word.length := by
  cases caseless <;> simp [fold]

@[simp] theorem fold_nil (caseless : Bool) : fold caseless [] = [] := by
  cases caseless <;> rfl

theorem fold_fold (caseless : Bool) (word : List UInt8) :
    fold caseless (fold caseless word) = fold caseless word := by
  cases caseless <;> simp [fold, lower_lower]

theorem fold_append (caseless : Bool) (v w : List UInt8) :
    fold caseless (v ++ w) = fold caseless v ++ fold caseless w := by
  cases caseless <;> simp [fold]

theorem fold_cons (caseless : Bool) (b : UInt8) (w : List UInt8) :
    fold caseless (b :: w) = fold caseless [b] ++ fold caseless w :=
  fold_append caseless [b] w

theorem infix_fold_iff {caseless : Bool} {v bs : List UInt8} :
    v <:+: fold caseless bs ↔ ∃ w, w <:+: bs ∧ v = fold caseless w := by
  cases caseless with
  | false => simp [fold]
  | true => exact List.infix_map_iff

def forms (caseless : Bool) (b : UInt8) : UInt8 × UInt8 :=
  if caseless then (upper b, lower b) else (b, b)

theorem eq_upper_or_eq_lower (b : UInt8) : b = upper b ∨ b = lower b :=
  have h : ∀ n : Fin 256, UInt8.ofFin n = upper (.ofFin n) ∨ UInt8.ofFin n = lower (.ofFin n) := by
    decide +kernel
  h b.toFin

theorem fold_eq_fold_iff {caseless : Bool} {b c : UInt8} :
    fold caseless [c] = fold caseless [b] ↔
      c = (forms caseless b).1 ∨ c = (forms caseless b).2 := by
  cases caseless with
  | false => simp [fold, forms]
  | true =>
    simp only [fold, forms, ↓reduceIte, List.map_cons, List.map_nil, List.cons.injEq, and_true]
    constructor
    · intro h
      rcases eq_upper_or_eq_lower c with hc | hc
      · left
        rw [hc, ← upper_lower, h, upper_lower]
      · exact Or.inr (hc.trans h)
    · rintro (rfl | rfl)
      · exact lower_upper b
      · exact lower_lower b

theorem forms_eq_of_fold_eq {caseless : Bool} {b c : UInt8}
    (h : fold caseless [c] = fold caseless [b]) : forms caseless c = forms caseless b := by
  cases caseless with
  | false =>
    cases h
    rfl
  | true =>
    have hl : lower c = lower b := List.singleton_inj.1 h
    simp only [forms, ↓reduceIte, Prod.mk.injEq, hl, and_true]
    rw [← upper_lower c, hl, upper_lower]

end Winnow.AsciiCase
