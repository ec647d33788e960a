/-!
# Blanks, trimming and words

A blank is a character with the Unicode property White_Space. `fields` cuts a text
at the characters that pass a test; words are the fields between blanks that are
not empty.
-/

namespace Winnow.Text

def isBlank (c : Char) : Bool :=
  let n := c.toNat
  (0x9 ≤ n && n ≤ 0xd) || n == 0x20 || n == 0x85 || n == 0xa0 || n == 0x1680 ||
    (0x2000 ≤ n && n ≤ 0x200a) || n == 0x2028 || n == 0x2029 || n == 0x202f || n == 0x205f ||
    n == 0x3000

/-- The text between the characters that pass the test: one field more than there
are of them. -/
def fields (p : Char → Bool) : List Char → List (List Char)
  | [] => [[]]
  | c :: cs =>
    if p c then [] :: fields p cs
    else match fields p cs with
      | [] => [[c]]
      | f :: fs => (c :: f) :: fs

def trimStart (cs : List Char) : List Char := cs.dropWhile isBlank

def trimEnd (cs : List Char) : List Char := (cs.reverse.dropWhile isBlank).reverse

def trim (cs : List Char) : List Char := trimEnd (trimStart cs)

def words (cs : List Char) : List (List Char) := (fields isBlank cs).filter (!·.isEmpty)

def commaItems (cs : List Char) : List (List Char) :=
  ((fields (· == ',') cs).map trim).filter (!·.isEmpty)

theorem fields_ne_nil (p : Char → Bool) (cs : List Char) : fields p cs ≠ [] := by
  cases cs with
  | nil => simp [fields]
  | cons c cs =>
    simp only [fields]
    repeat' split
    all_goals simp

theorem fields_append_cons (p : Char → Bool) {c : Char} (h : p c) (cs ds : List Char) :
    fields p (cs ++ c :: ds) = fields p cs ++ fields p ds := by
  induction cs with
  | nil => simp [fields, h]
  | cons b cs ih =>
    simp only [List.cons_append, fields, ih]
    split
    · simp
    · cases hf : fields p cs with
      | nil => exact absurd hf (fields_ne_nil p cs)
      | cons f fs => simp

end Winnow.Text
