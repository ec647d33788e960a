import Mathlib.Algebra.Ring.Int.Defs
import Mathlib.Algebra.Ring.Nat
import Winnow.Table.Cell

/-!
# The fields of a cell

The word of a cell is 256 times its high field plus its low one, and each of the two
setters writes one of them. So what was set is read again, the other field is as it
was, and a cell is known by what its two fields read as.
-/

namespace Winnow.Cell

theorem toNat_target (c : Cell) : c.target.toNat = c.word.toNat % 256 := by
  simp [target]

theorem terminal_eq (c : Cell) :
    c.terminal = if c.word.toNat / 256 < 2 ^ 23 then (c.word.toNat / 256 : Int)
      else (c.word.toNat / 256 : Int) - 2 ^ 24 := by
  have h : (8 : Int32).toBitVec.smod 32 = 8#32 := by decide
  rw [terminal, ← Int32.toInt_toBitVec, Int32.toBitVec_shiftRight, h, BitVec.sshiftRight_eq',
    BitVec.toInt_sshiftRight, Int.shiftRight_eq_div_pow, BitVec.toInt_eq_toNat_cond]
  have hw := c.word.toNat_lt
  change (if 2 * c.word.toNat < 2 ^ 32 then (c.word.toNat : Int) else c.word.toNat - (2 ^ 32 : Nat)) /
    2 ^ 8 = _
  split <;> split <;> omega

theorem toNat_and_low (w : UInt32) : (w &&& 0xff).toNat = w.toNat % 256 := by
  rw [UInt32.toNat_and]
  exact Nat.and_two_pow_sub_one_eq_mod _ 8

theorem toNat_and_high (w : UInt32) : (w &&& 0xffffff00).toNat = 2 ^ 8 * (w.toNat / 256) := by
  have hw := w.toNat_lt
  have hm : (0xffffff00 : UInt32).toBitVec = BitVec.allOnes 32 <<< 8 := by decide
  rw [← UInt32.toNat_toBitVec, UInt32.toBitVec_and, hm, ← BitVec.shiftLeft_ushiftRight]
  simp only [BitVec.toNat_shiftLeft, BitVec.toNat_ushiftRight, Nat.shiftLeft_eq,
    Nat.shiftRight_eq_div_pow, UInt32.toNat_toBitVec]
  omega

theorem toNat_setTarget (c : Cell) (t : UInt8) :
    (c.setTarget t).word.toNat = 2 ^ 8 * (c.word.toNat / 256) + t.toNat := by
  rw [setTarget, UInt32.toNat_or, toNat_and_high, UInt8.toNat_toUInt32,
    ← Nat.two_pow_add_eq_or_of_lt t.toNat_lt]

theorem toNat_setTerminal (c : Cell) (n : Int) :
    (c.setTerminal n).word.toNat = 2 ^ 8 * (n % 2 ^ 24).toNat + c.word.toNat % 256 := by
  have hn : (UInt32.ofInt n <<< 8).toNat = 2 ^ 8 * (n % 2 ^ 24).toNat := by
    rw [UInt32.toNat_shiftLeft, UInt32.ofInt, UInt32.toNat_ofNat']
    simp only [UInt32.reduceToNat, Nat.reduceMod, Nat.shiftLeft_eq]
    omega
  rw [setTerminal, UInt32.toNat_or, hn, toNat_and_low,
    ← Nat.two_pow_add_eq_or_of_lt (Nat.mod_lt _ (by decide))]

@[simp] theorem target_setTarget (c : Cell) (t : UInt8) : (c.setTarget t).target = t := by
  apply UInt8.toNat_inj.1
  have ht := t.toNat_lt
  rw [toNat_target, toNat_setTarget]
  omega

@[simp] theorem target_setTerminal (c : Cell) (n : Int) : (c.setTerminal n).target = c.target := by
  apply UInt8.toNat_inj.1
  rw [toNat_target, toNat_target, toNat_setTerminal]
  omega

@[simp] theorem terminal_setTarget (c : Cell) (t : UInt8) :
    (c.setTarget t).terminal = c.terminal := by
  have ht := t.toNat_lt
  have h : (2 ^ 8 * (c.word.toNat / 256) + t.toNat) / 256 = c.word.toNat / 256 := by omega
  simp only [terminal_eq, toNat_setTarget]
  omega

theorem terminal_setTerminal (c : Cell) {n : Int} (h : -2 ^ 23 ≤ n) (h' : n < 2 ^ 23) :
    (c.setTerminal n).terminal = n := by
  simp only [terminal_eq, toNat_setTerminal]
  omega

theorem ext_fields {c d : Cell} (ht : c.target = d.target) (hn : c.terminal = d.terminal) :
    c = d := by
  obtain ⟨v⟩ := c
  obtain ⟨w⟩ := d
  have hv := v.toNat_lt
  have hw := w.toNat_lt
  have hl := congrArg UInt8.toNat ht
  simp only [toNat_target] at hl
  simp only [terminal_eq] at hn
  congr 1
  apply UInt32.toNat_inj.1
  omega

@[simp] theorem target_ofFields (t : UInt8) (n : Int) : (ofFields t n).target = t := by
  simp [ofFields]

theorem terminal_ofFields (t : UInt8) {n : Int} (h : -2 ^ 23 ≤ n) (h' : n < 2 ^ 23) :
    (ofFields t n).terminal = n :=
  terminal_setTerminal _ h h'

end Winnow.Cell
