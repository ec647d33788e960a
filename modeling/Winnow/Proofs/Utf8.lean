import Winnow.Text.Utf8

/-!
# Text that is written and read again

A character is written as a byte that tells how many are to follow, and with six bits in
each of these. Reading them puts the bits together again. So text is read back from its
bytes as it was.
-/

namespace Winnow.Utf8

variable {v lead : Nat} {low high : UInt8}

theorem follow_cons {value n x : Nat} (hlow : low.toNat ≤ x % 64 + 0x80)
    (hhigh : x % 64 + 0x80 ≤ high.toNat) (bs : List UInt8) :
    follow value (n + 1) low high (.ofNat (x % 64 + 0x80) :: bs) =
      follow (value * 64 + x % 64) n 0x80 0xbf bs := by
  have hlt : x % 64 + 0x80 < UInt8.size := by
    change _ < 256
    omega
  have hx : (UInt8.ofNat (x % 64 + 0x80)).toNat = x % 64 + 0x80 := UInt8.toNat_ofNat_of_lt' hlt
  have hin : low ≤ .ofNat (x % 64 + 0x80) ∧ .ofNat (x % 64 + 0x80) ≤ high := by
    rw [UInt8.le_iff_toNat_le, UInt8.le_iff_toNat_le, hx]
    exact ⟨hlow, hhigh⟩
  have hbits : (x % 64 + 0x80) % 64 = x % 64 := by omega
  rw [follow, if_pos hin, hx, hbits]

theorem follow_one (hv : lead * 64 + v % 64 = v) (bs : List UInt8) :
    follow lead 1 0x80 0xbf (.ofNat (v % 64 + 0x80) :: bs) = (some (.ofNat v), bs) := by
  rw [follow_cons (Nat.le_add_left _ _) (by change _ ≤ 0xbf; omega), follow, hv]

theorem follow_two (hlow : low.toNat ≤ v / 64 % 64 + 0x80)
    (hhigh : v / 64 % 64 + 0x80 ≤ high.toNat) (hv : lead * 64 + v / 64 % 64 = v / 64)
    (bs : List UInt8) :
    follow lead 2 low high (.ofNat (v / 64 % 64 + 0x80) :: .ofNat (v % 64 + 0x80) :: bs) =
      (some (.ofNat v), bs) := by
  rw [follow_cons hlow hhigh, hv]
  exact follow_one (Nat.div_add_mod' v 64) bs

theorem follow_three (hlow : low.toNat ≤ v / 4096 % 64 + 0x80)
    (hhigh : v / 4096 % 64 + 0x80 ≤ high.toNat) (hv : lead * 64 + v / 4096 % 64 = v / 4096)
    (bs : List UInt8) :
    follow lead 3 low high (.ofNat (v / 4096 % 64 + 0x80) :: .ofNat (v / 64 % 64 + 0x80) ::
      .ofNat (v % 64 + 0x80) :: bs) = (some (.ofNat v), bs) := by
  rw [follow_cons hlow hhigh, hv]
  exact follow_two (Nat.le_add_left _ _) (by change _ ≤ 0xbf; omega) (by omega) bs

theorem character_ofNat {n : Nat} (h : n < 256) (bs : List UInt8) :
    character (.ofNat n) bs =
      if n < 0x80 then (some (.ofNat n), bs)
      else if n < 0xc2 then (none, bs)
      else if n < 0xe0 then follow (n - 0xc0) 1 0x80 0xbf bs
      else if n = 0xe0 then follow 0 2 0xa0 0xbf bs
      else if n = 0xed then follow 0xd 2 0x80 0x9f bs
      else if n < 0xf0 then follow (n - 0xe0) 2 0x80 0xbf bs
      else if n = 0xf0 then follow 0 3 0x90 0xbf bs
      else if n < 0xf4 then follow (n - 0xf0) 3 0x80 0xbf bs
      else if n = 0xf4 then follow 4 3 0x80 0x8f bs
      else (none, bs) := by
  have hn : (UInt8.ofNat n).toNat = n := UInt8.toNat_ofNat_of_lt' h
  simp only [character, UInt8.lt_iff_toNat_lt, ← UInt8.toNat_inj, hn]
  rfl

theorem character_two (h1 : 0x7f < v) (h2 : v ≤ 0x7ff) (bs : List UInt8) :
    character (.ofNat (v / 64 % 32 + 0xc0)) (.ofNat (v % 64 + 0x80) :: bs) =
      (some (.ofNat v), bs) := by
  rw [character_ofNat (by omega), if_neg (by omega), if_neg (by omega), if_pos (by omega)]
  exact follow_one (by omega) bs

theorem character_three (h1 : 0x7ff < v) (h2 : v ≤ 0xffff) (valid : v < 0xd800 ∨ 0xdfff < v)
    (bs : List UInt8) :
    character (.ofNat (v / 4096 % 16 + 0xe0))
      (.ofNat (v / 64 % 64 + 0x80) :: .ofNat (v % 64 + 0x80) :: bs) = (some (.ofNat v), bs) := by
  rw [character_ofNat (by omega), if_neg (by omega), if_neg (by omega), if_neg (by omega)]
  -- the leads 0xe0 and 0xed narrow the range of the byte after them
  by_cases hfirst : v / 4096 % 16 + 0xe0 = 0xe0
  · rw [if_pos hfirst]
    exact follow_two (by change 0xa0 ≤ _; omega) (by change _ ≤ 0xbf; omega) (by omega) bs
  rw [if_neg hfirst]
  by_cases hsurrogate : v / 4096 % 16 + 0xe0 = 0xed
  · rw [if_pos hsurrogate]
    exact follow_two (Nat.le_add_left _ _) (by change _ ≤ 0x9f; omega) (by omega) bs
  rw [if_neg hsurrogate, if_pos (by omega)]
  exact follow_two (Nat.le_add_left _ _) (by change _ ≤ 0xbf; omega) (by omega) bs

theorem character_four (h1 : 0xffff < v) (h2 : v < 0x110000) (bs : List UInt8) :
    character (.ofNat (v / 262144 % 8 + 0xf0))
      (.ofNat (v / 4096 % 64 + 0x80) :: .ofNat (v / 64 % 64 + 0x80) :: .ofNat (v % 64 + 0x80) ::
        bs) = (some (.ofNat v), bs) := by
  rw [character_ofNat (by omega), if_neg (by omega), if_neg (by omega), if_neg (by omega),
    if_neg (by omega), if_neg (by omega), if_neg (by omega)]
  by_cases hfirst : v / 262144 % 8 + 0xf0 = 0xf0
  · rw [if_pos hfirst]
    exact follow_three (by change 0x90 ≤ _; omega) (by change _ ≤ 0xbf; omega) (by omega) bs
  rw [if_neg hfirst]
  by_cases hmiddle : v / 262144 % 8 + 0xf0 < 0xf4
  · rw [if_pos hmiddle]
    exact follow_three (Nat.le_add_left _ _) (by change _ ≤ 0xbf; omega) (by omega) bs
  rw [if_neg hmiddle, if_pos (by omega)]
  exact follow_three (Nat.le_add_left _ _) (by change _ ≤ 0x8f; omega) (by omega) bs

theorem pieces_cons (b : UInt8) (bs : List UInt8) :
    pieces (b :: bs) = (character b bs).1 :: pieces (character b bs).2 := by
  rw [pieces]

theorem pieces_encodeChar (c : Char) (bs : List UInt8) :
    pieces (String.utf8EncodeChar c ++ bs) = some c :: pieces bs := by
  have hc : Char.ofNat c.val.toNat = c := Char.ofNat_toNat c
  have hvalid : c.val.toNat < 0xd800 ∨ 0xdfff < c.val.toNat ∧ c.val.toNat < 0x110000 := c.valid
  simp only [String.utf8EncodeChar]
  split
  · rw [List.singleton_append, pieces_cons, character_ofNat (by omega), if_pos (by omega), hc]
  split
  · simp only [List.cons_append, List.nil_append]
    rw [pieces_cons, character_two (by omega) (by omega), hc]
  split
  · simp only [List.cons_append, List.nil_append]
    rw [pieces_cons, character_three (by omega) (by omega) (by omega), hc]
  · simp only [List.cons_append, List.nil_append]
    rw [pieces_cons, character_four (by omega) (by omega), hc]

theorem pieces_encode (s : String) : pieces (encode s) = s.toList.map some := by
  rw [encode]
  induction s.toList with
  | nil => rw [List.flatMap_nil, pieces, List.map_nil]
  | cons c cs ih => rw [List.flatMap_cons, pieces_encodeChar, ih, List.map_cons]

theorem decodeLossy_encode (s : String) : decodeLossy (encode s) = s := by
  rw [decodeLossy, pieces_encode, List.map_map]
  change String.ofList (s.toList.map id) = s
  rw [List.map_id, String.ofList_toList]

end Winnow.Utf8
