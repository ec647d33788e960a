import Mathlib.Data.Set.Function
import Winnow.Proofs.Table.Cell

/-!
# A cell as two registers

A cell may be written many times, now one field and now the other. It then reads as the last
value put into each of them, and as it did at first where nothing was put. The word holds the
two fields and nothing besides, so there are as many words as there are pairs of a byte and a
signed number of 24 bits.
-/

namespace Winnow.Cell

def terminals : Set Int := {n | -2 ^ 23 ≤ n ∧ n < 2 ^ 23}

inductive Write
  | target (t : UInt8)
  | terminal (n : Int)

namespace Write

def apply (c : Cell) : Write → Cell
  | target t => c.setTarget t
  | terminal n => c.setTerminal n

def Fits : Write → Prop
  | target _ => True
  | terminal n => n ∈ terminals

def target? : Write → Option UInt8
  | target t => some t
  | terminal _ => none

def terminal? : Write → Option Int
  | target _ => none
  | terminal n => some n

end Write

def writeAll (c : Cell) (writes : List Write) : Cell := writes.foldl Write.apply c

variable {w : Write} {writes : List Write}

section Writes

theorem target_apply (c : Cell) (w : Write) : (w.apply c).target = w.target?.getD c.target := by
  cases w with
  | target t => exact target_setTarget c t
  | terminal n => exact target_setTerminal c n

theorem terminal_apply (c : Cell) (hw : w.Fits) :
    (w.apply c).terminal = w.terminal?.getD c.terminal := by
  cases w with
  | target t => exact terminal_setTarget c t
  | terminal n => exact terminal_setTerminal c hw.1 hw.2

theorem read_writeAll {β : Type} {read : Cell → β} {put? : Write → Option β}
    (h : ∀ w ∈ writes, ∀ c, read (w.apply c) = (put? w).getD (read c)) (c : Cell) :
    read (c.writeAll writes) = (writes.filterMap put?).getLastD (read c) := by
  -- the value that counts if nothing more is put in changes with each write
  induction writes generalizing c with
  | nil => rfl
  | cons w writes ih =>
    obtain ⟨hw, hwrites⟩ := List.forall_mem_cons.1 h
    change read ((w.apply c).writeAll writes) = _
    rw [ih hwrites, hw c, List.filterMap_cons]
    cases put? w with
    | none => rfl
    | some x =>
      rw [List.getLastD_cons]
      rfl

theorem target_writeAll (c : Cell) (writes : List Write) :
    (c.writeAll writes).target = (writes.filterMap Write.target?).getLastD c.target := by
  apply read_writeAll
  intro w _ c
  exact target_apply c w

theorem terminal_writeAll (c : Cell) (h : ∀ w ∈ writes, w.Fits) :
    (c.writeAll writes).terminal = (writes.filterMap Write.terminal?).getLastD c.terminal := by
  apply read_writeAll
  intro w hw c
  exact terminal_apply c (h w hw)

end Writes

section Words

theorem terminal_mem (c : Cell) : c.terminal ∈ terminals := by
  have hw := c.word.toNat_lt
  change -2 ^ 23 ≤ c.terminal ∧ c.terminal < 2 ^ 23
  rw [terminal_eq]
  omega

theorem toNat_word (c : Cell) :
    (c.word.toNat : Int) = c.terminal % 2 ^ 24 * 256 + c.target.toNat := by
  have hw := c.word.toNat_lt
  rw [terminal_eq, toNat_target]
  omega

theorem ofFields_target_terminal (c : Cell) : ofFields c.target c.terminal = c := by
  apply ext_fields
  · exact target_ofFields _ _
  · exact terminal_ofFields _ c.terminal_mem.1 c.terminal_mem.2

theorem fields_bijOn : Set.BijOn (fun w : UInt32 => ((mk w).target, (mk w).terminal)) Set.univ
    (Set.univ ×ˢ terminals) := by
  refine ⟨?_, ?_, ?_⟩
  · intro w _
    exact ⟨trivial, (mk w).terminal_mem⟩
  · intro v _ w _ h
    have hcell : mk v = mk w := ext_fields (congrArg Prod.fst h) (congrArg Prod.snd h)
    exact congrArg word hcell
  · intro p hp
    obtain ⟨_, hlow, hhigh⟩ := hp
    refine ⟨(ofFields p.1 p.2).word, trivial, ?_⟩
    exact Prod.ext (target_ofFields _ _) (terminal_ofFields _ hlow hhigh)

end Words

/-- After any writes a cell reads as the last byte and the last number that were put in, and no
setter changes what the other field reads as, not even one whose number there is no room for.
The word is the high field times 256 plus the low one, each word is made again from what it
reads as, and there is exactly one word for every byte and every number that fits. -/
theorem writeAll_independent :
    (∀ (c : Cell) (writes : List Write), (∀ w ∈ writes, w.Fits) →
      (c.writeAll writes).target = (writes.filterMap Write.target?).getLastD c.target ∧
      (c.writeAll writes).terminal = (writes.filterMap Write.terminal?).getLastD c.terminal) ∧
    (∀ (c : Cell) (t : UInt8), (c.setTarget t).terminal = c.terminal) ∧
    (∀ (c : Cell) (n : Int), (c.setTerminal n).target = c.target) ∧
    (∀ c : Cell, (c.word.toNat : Int) = c.terminal % 2 ^ 24 * 256 + c.target.toNat) ∧
    (∀ w : UInt32, mk w = ofFields (mk w).target (mk w).terminal) ∧
    Set.BijOn (fun w : UInt32 => ((mk w).target, (mk w).terminal)) Set.univ
      (Set.univ ×ˢ terminals) := by
  refine ⟨?_, terminal_setTarget, target_setTerminal, toNat_word, ?_, fields_bijOn⟩
  · intro c writes h
    exact ⟨target_writeAll c writes, terminal_writeAll c h⟩
  · intro w
    exact (ofFields_target_terminal (mk w)).symm

theorem writeAll_independent_of_extremes :
    let c : Cell := ⟨0x7ffffffe⟩
    let writes : List Write := [.terminal (2 ^ 23 - 1), .target 255, .terminal (-2 ^ 23)]
    (∀ w ∈ writes, w.Fits) ∧ (c.writeAll writes).target = 255 ∧
      (c.writeAll writes).terminal = -2 ^ 23 ∧ (c.writeAll writes).word = 0x800000ff := by
  intro c writes
  have hfits : ∀ w ∈ writes, w.Fits := by
    simp [writes, Write.Fits, terminals]
  obtain ⟨htarget, hterminal⟩ := writeAll_independent.1 c writes hfits
  exact ⟨hfits, htarget, hterminal, by decide⟩

end Winnow.Cell
