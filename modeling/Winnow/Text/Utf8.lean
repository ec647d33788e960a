/-!
# UTF-8

`encode` writes text as bytes. `pieces` reads bytes as characters, where `none`
stands for the longest run of bytes that begins a character but does not go on to
be one, or for a byte that can begin none. Strict reading refuses such a run, and
lossy reading puts U+FFFD in its place.
-/

namespace Winnow.Utf8

def encode (s : String) : List UInt8 := s.toList.flatMap String.utf8EncodeChar

/-- The rest of a character of which `n` bytes are still to come, the next of them
from `low` to `high`, and what follows it. -/
def follow (value : Nat) : Nat → UInt8 → UInt8 → List UInt8 → Option Char × List UInt8
  | 0, _, _, bs => (some (.ofNat value), bs)
  | _ + 1, _, _, [] => (none, [])
  | n + 1, low, high, b :: bs =>
    if low ≤ b ∧ b ≤ high then follow (value * 64 + b.toNat % 64) n 0x80 0xbf bs
    else (none, b :: bs)

def character (b : UInt8) (bs : List UInt8) : Option Char × List UInt8 :=
  if b < 0x80 then (some (.ofNat b.toNat), bs)
  else if b < 0xc2 then (none, bs)
  else if b < 0xe0 then follow (b.toNat - 0xc0) 1 0x80 0xbf bs
  else if b = 0xe0 then follow 0 2 0xa0 0xbf bs
  else if b = 0xed then follow 0xd 2 0x80 0x9f bs
  else if b < 0xf0 then follow (b.toNat - 0xe0) 2 0x80 0xbf bs
  else if b = 0xf0 then follow 0 3 0x90 0xbf bs
  else if b < 0xf4 then follow (b.toNat - 0xf0) 3 0x80 0xbf bs
  else if b = 0xf4 then follow 4 3 0x80 0x8f bs
  else (none, bs)

theorem length_follow_le (value n : Nat) (low high : UInt8) (bs : List UInt8) :
    (follow value n low high bs).2.length ≤ bs.length := by
  induction bs generalizing value n low high with
  | nil => cases n <;> simp [follow]
  | cons b bs ih =>
    cases n with
    | zero => simp [follow]
    | succ n =>
      simp only [follow]
      split
      · exact Nat.le_succ_of_le (ih ..)
      · exact Nat.le_refl _

theorem length_character_le (b : UInt8) (bs : List UInt8) :
    (character b bs).2.length ≤ bs.length := by
  unfold character
  repeat' split
  all_goals first | exact Nat.le_refl _ | exact length_follow_le ..

def pieces : List UInt8 → List (Option Char)
  | [] => []
  | b :: bs => (character b bs).1 :: pieces (character b bs).2
termination_by bs => bs.length
decreasing_by exact Nat.lt_succ_of_le (length_character_le b bs)

def decodeLossy (bs : List UInt8) : String := .ofList ((pieces bs).map (·.getD '\uFFFD'))

def decode? (bs : List UInt8) : Option String := ((pieces bs).mapM id).map .ofList

end Winnow.Utf8
