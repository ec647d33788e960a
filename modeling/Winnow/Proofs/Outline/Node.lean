import Mathlib.Data.List.Basic
import Mathlib.Data.List.Nodup
import Winnow.Automaton.Basic

/-!
# What planes stand for

A plane stands for a word, folded, that was read from the root on, or in the nibble
layout for a word and the high half of one more byte. Such a node says where each of
its symbols leads, and a byte below a word has one site, a node and a symbol of it.

`Grown` holds of the nodes that can be made one after the other from the root, each
resting on nodes made before it. In such a list every node but the root has a parent,
and parents come before their children.
-/

namespace Winnow

variable {α : Type} [DecidableEq α]

/-- The number of a member of a list, from 1; 0 is the number of no member. -/
def numberIn (xs : List α) (x : α) : Nat := if x ∈ xs then xs.idxOf x + 1 else 0

theorem numberIn_of_mem {xs : List α} {x : α} (h : x ∈ xs) :
    numberIn xs x = xs.idxOf x + 1 := if_pos h

@[simp] theorem numberIn_eq_zero_iff {xs : List α} {x : α} : numberIn xs x = 0 ↔ x ∉ xs := by
  simp [numberIn]

theorem numberIn_le_length (xs : List α) (x : α) : numberIn xs x ≤ xs.length := by
  by_cases h : x ∈ xs
  · rw [numberIn_of_mem h]
    exact List.idxOf_lt_length_of_mem h
  · simp [numberIn_eq_zero_iff.2 h]

theorem numberIn_inj {xs : List α} {x y : α} (hx : x ∈ xs) (h : numberIn xs x = numberIn xs y) :
    x = y := by
  have hy : y ∈ xs := by
    by_contra hy
    rw [numberIn_eq_zero_iff.2 hy] at h
    exact numberIn_eq_zero_iff.1 h hx
  rw [numberIn_of_mem hx, numberIn_of_mem hy] at h
  exact (List.idxOf_inj hx).1 (Nat.succ.inj h)

theorem numberIn_getElem {xs : List α} (hd : xs.Nodup) {k : Nat} (hk : k < xs.length) :
    numberIn xs xs[k] = k + 1 := by
  rw [numberIn_of_mem (List.getElem_mem hk), hd.idxOf_getElem k hk]

theorem numberIn_append_of_mem {xs : List α} {x : α} (h : x ∈ xs) (ys : List α) :
    numberIn (xs ++ ys) x = numberIn xs x := by
  rw [numberIn_of_mem h, numberIn_of_mem (List.mem_append_left _ h), List.idxOf_append_of_mem h]

theorem numberIn_concat_self {xs : List α} {x : α} (h : x ∉ xs) :
    numberIn (xs ++ [x]) x = xs.length + 1 := by
  rw [numberIn_of_mem (by simp), List.idxOf_append_of_notMem h]
  simp

theorem numberIn_concat_of_ne {xs : List α} {x y : α} (h : y ≠ x) :
    numberIn (xs ++ [x]) y = numberIn xs y := by
  by_cases hy : y ∈ xs
  · exact numberIn_append_of_mem hy _
  · rw [numberIn_eq_zero_iff.2 hy, numberIn_eq_zero_iff.2 (by simp [hy, h])]

open AsciiCase (fold fold_append)

inductive Node where
  | word (w : List UInt8)
  | half (w : List UInt8) (high : Nat)
  deriving DecidableEq

namespace Node

variable {l : Layout} {caseless : Bool}

def Fits (l : Layout) : Node → Prop
  | .word _ => True
  | .half _ high => l = .nibble ∧ high < 16

def child (l : Layout) (caseless : Bool) : Node → Nat → Node
  | .word w, i =>
    match l with
    | .byte => .word (w ++ fold caseless [.ofNat i])
    | .nibble => .half w i
  | .half w high, i => .word (w ++ fold caseless [.ofNat (16 * high + i)])

def site (l : Layout) (w : List UInt8) (b : UInt8) : Node × Nat :=
  match l with
  | .byte => (.word w, b.toNat)
  | .nibble => (.half w (highNibble b), lowNibble b)

theorem highNibble_lt (b : UInt8) : highNibble b < 16 := by
  have := b.toNat_lt
  unfold highNibble
  omega

theorem site_fits (l : Layout) (w : List UInt8) (b : UInt8) : (site l w b).1.Fits l := by
  cases l with
  | byte => trivial
  | nibble => exact ⟨rfl, highNibble_lt b⟩

theorem site_lt_width (l : Layout) (w : List UInt8) (b : UInt8) : (site l w b).2 < l.width := by
  cases l with
  | byte => exact b.toNat_lt
  | nibble => exact Nat.mod_lt _ (by decide)

theorem child_site (l : Layout) (caseless : Bool) (w : List UInt8) (b : UInt8) :
    child l caseless (site l w b).1 (site l w b).2 = .word (w ++ fold caseless [b]) := by
  cases l with
  | byte => simp [child, site]
  | nibble =>
    simp only [child, site, highNibble, lowNibble, Nat.div_add_mod]
    simp

theorem child_cases {n : Node} (hn : n.Fits l) {i : Nat} (hi : i < l.width) :
    (l = .nibble ∧ ∃ w, n = .word w) ∨ ∃ w b, site l w b = (n, i) := by
  cases l with
  | byte =>
    cases n with
    | word w =>
      change i < 256 at hi
      exact Or.inr ⟨w, .ofNat i, by simp [site, Nat.mod_eq_of_lt hi]⟩
    | half w high => exact absurd hn.1 (by decide)
  | nibble =>
    cases n with
    | word w => exact Or.inl ⟨rfl, w, rfl⟩
    | half w high =>
      have hh := hn.2
      change i < 16 at hi
      have hb : (UInt8.ofNat (16 * high + i)).toNat = 16 * high + i := by
        rw [UInt8.toNat_ofNat']
        omega
      refine Or.inr ⟨w, .ofNat (16 * high + i), ?_⟩
      simp only [site, highNibble, lowNibble, hb, Prod.mk.injEq, half.injEq, true_and]
      omega

theorem child_eq_word_iff {n : Node} (hn : n.Fits l) {i : Nat} (hi : i < l.width)
    {w : List UInt8} {b : UInt8} :
    child l caseless n i = .word (w ++ fold caseless [b]) ↔
      ∃ f, fold caseless [f] = fold caseless [b] ∧ site l w f = (n, i) := by
  constructor
  · intro h
    rcases child_cases hn hi with ⟨rfl, v, rfl⟩ | ⟨v, f, hs⟩
    · simp [child] at h
    · have hc := child_site l caseless v f
      rw [hs, h, word.injEq] at hc
      obtain ⟨rfl, hf⟩ := List.append_inj' hc (by simp)
      exact ⟨f, hf.symm, hs⟩
  · rintro ⟨f, hf, hs⟩
    have hc := child_site l caseless w f
    rwa [hs, hf] at hc

theorem child_eq_half_iff {n : Node} {i high : Nat} {w : List UInt8} :
    child .nibble caseless n i = .half w high ↔ n = .word w ∧ i = high := by
  cases n <;> simp [child]

theorem child_ne_root (l : Layout) (caseless : Bool) (n : Node) (i : Nat) :
    child l caseless n i ≠ .word [] := by
  have hf (b : UInt8) : fold caseless [b] ≠ [] := by
    intro h
    simpa using congrArg List.length h
  cases l <;> cases n <;> simp [child, hf]

/-- What has to be there before a node can be made. -/
def RestsOn (l : Layout) (caseless : Bool) (ns : List Node) : Node → Prop
  | .word v => ∃ w b, v = w ++ fold caseless [b] ∧
      ∀ f, fold caseless [f] = fold caseless [b] → (site l w f).1 ∈ ns
  | .half w high => l = .nibble ∧ high < 16 ∧ .word w ∈ ns

theorem RestsOn.mono {ns ms : List Node} {n : Node} (h : n.RestsOn l caseless ns)
    (hs : ns ⊆ ms) : n.RestsOn l caseless ms := by
  cases n with
  | word v =>
    obtain ⟨w, b, hv, hf⟩ := h
    exact ⟨w, b, hv, fun f h => hs (hf f h)⟩
  | half w high => exact ⟨h.1, h.2.1, hs h.2.2⟩

theorem RestsOn.fits {ns : List Node} {n : Node} (h : n.RestsOn l caseless ns) : n.Fits l := by
  cases n with
  | word v => trivial
  | half w high => exact ⟨h.1, h.2.1⟩

theorem RestsOn.parent_mem {ns : List Node} {n : Node} (hn : n.Fits l) {i : Nat}
    (hi : i < l.width) (h : (child l caseless n i).RestsOn l caseless ns) : n ∈ ns := by
  rcases child_cases hn hi with ⟨rfl, w, rfl⟩ | ⟨w, b, hs⟩
  · exact h.2.2
  · have hc := child_site l caseless w b
    rw [hs] at hc
    rw [hc] at h
    obtain ⟨w', b', hv, hf⟩ := h
    obtain ⟨rfl, hb⟩ := List.append_inj' hv (by simp)
    have := hf b hb
    rwa [hs] at this

theorem RestsOn.exists_parent {ns : List Node} {m : Node} (h : m.RestsOn l caseless ns) :
    ∃ n ∈ ns, ∃ i < l.width, child l caseless n i = m := by
  cases m with
  | word v =>
    obtain ⟨w, b, rfl, hf⟩ := h
    exact ⟨_, hf b rfl, _, site_lt_width l w b, child_site l caseless w b⟩
  | half w high =>
    obtain ⟨rfl, hh, hw⟩ := h
    exact ⟨_, hw, high, hh, rfl⟩

end Node

open Node

variable {l : Layout} {caseless : Bool} {ns : List Node}

inductive Grown (l : Layout) (caseless : Bool) : List Node → Prop
  | root : Grown l caseless [.word []]
  | add {ns : List Node} {n : Node} (h : Grown l caseless ns) (new : n ∉ ns)
      (rests : n.RestsOn l caseless ns) : Grown l caseless (ns ++ [n])

namespace Grown

theorem nodup (h : Grown l caseless ns) : ns.Nodup := by
  induction h with
  | root => simp
  | add _ new _ ih => exact List.nodup_append_comm.1 (List.nodup_cons.2 ⟨new, ih⟩)

theorem root_mem (h : Grown l caseless ns) : .word [] ∈ ns := by
  induction h with
  | root => simp
  | add _ _ _ ih => simp [ih]

theorem numberIn_root (h : Grown l caseless ns) : numberIn ns (.word []) = 1 := by
  induction h with
  | root => rfl
  | add h _ _ ih => rw [numberIn_append_of_mem h.root_mem, ih]

theorem rests_of_ne_root (h : Grown l caseless ns) {n : Node} (hn : n ∈ ns)
    (hr : n ≠ .word []) : n.RestsOn l caseless ns := by
  induction h with
  | root => exact absurd (List.mem_singleton.1 hn) hr
  | add _ _ rests ih =>
    rcases List.mem_append.1 hn with hn | hn
    · exact (ih hn).mono (List.subset_append_left _ _)
    · cases List.mem_singleton.1 hn
      exact rests.mono (List.subset_append_left _ _)

theorem fits (h : Grown l caseless ns) {n : Node} (hn : n ∈ ns) : n.Fits l := by
  by_cases hr : n = .word []
  · exact hr ▸ trivial
  · exact (h.rests_of_ne_root hn hr).fits

theorem parent_mem (h : Grown l caseless ns) {n : Node} (hn : n.Fits l) {i : Nat}
    (hi : i < l.width) (hc : child l caseless n i ∈ ns) : n ∈ ns :=
  (h.rests_of_ne_root hc (child_ne_root _ _ _ _)).parent_mem hn hi

theorem site_mem (h : Grown l caseless ns) {w : List UInt8} {b : UInt8}
    (hc : .word (w ++ fold caseless [b]) ∈ ns) : (site l w b).1 ∈ ns :=
  h.parent_mem (site_fits l w b) (site_lt_width l w b) (by rwa [child_site])

theorem word_mem_of_half (h : Grown .nibble caseless ns) {w : List UInt8} {high : Nat}
    (hh : .half w high ∈ ns) : .word w ∈ ns :=
  (h.rests_of_ne_root hh (by simp)).2.2

theorem word_mem_of_site (h : Grown l caseless ns) {w : List UInt8} {b : UInt8}
    (hs : (site l w b).1 ∈ ns) : .word w ∈ ns := by
  cases l with
  | byte => exact hs
  | nibble => exact h.word_mem_of_half hs

theorem word_mem_of_append (h : Grown l caseless ns) {w v : List UInt8}
    (hv : .word (w ++ fold caseless v) ∈ ns) : .word w ∈ ns := by
  induction v generalizing w with
  | nil => simpa using hv
  | cons b v ih =>
    rw [AsciiCase.fold_cons, ← List.append_assoc] at hv
    exact h.word_mem_of_site (h.site_mem (ih hv))

theorem exists_parent (h : Grown l caseless ns) {m : Node} (hm : m ∈ ns) (hr : m ≠ .word []) :
    ∃ n ∈ ns, ∃ i < l.width, child l caseless n i = m :=
  (h.rests_of_ne_root hm hr).exists_parent

theorem number_lt_child (h : Grown l caseless ns) {n : Node} {i : Nat} (hn : n.Fits l)
    (hi : i < l.width) (hc : child l caseless n i ∈ ns) :
    numberIn ns n < numberIn ns (child l caseless n i) := by
  induction h with
  | root => exact absurd (List.mem_singleton.1 hc) (child_ne_root _ _ _ _)
  | @add ns m h new rests ih =>
    by_cases hm : child l caseless n i = m
    · have hp : n ∈ ns := (hm ▸ rests).parent_mem hn hi
      rw [hm, numberIn_concat_self new, numberIn_append_of_mem hp]
      exact Nat.lt_succ_of_le (numberIn_le_length ns n)
    · have hc : child l caseless n i ∈ ns := by simpa [hm] using hc
      rw [numberIn_append_of_mem hc, numberIn_append_of_mem (h.parent_mem hn hi hc)]
      exact ih hc

theorem child_not_mem_concat (h : Grown l caseless ns) {n : Node} (new : n ∉ ns)
    (rests : n.RestsOn l caseless ns) {i : Nat} (hi : i < l.width) :
    child l caseless n i ∉ ns ++ [n] := by
  intro hc
  have hlt := (h.add new rests).number_lt_child rests.fits hi hc
  rcases List.mem_append.1 hc with hc | hc
  · exact new (h.parent_mem rests.fits hi hc)
  · rw [List.mem_singleton.1 hc] at hlt
    exact absurd hlt (Nat.lt_irrefl _)

end Grown

end Winnow
