import Winnow.Settings
import Winnow.Text.AsciiCase

/-!
# What it means to match

A word occurs in a buffer when its bytes stand there one after the other, up to case
where case is ignored. A pattern occurs when its phrase or one of its alternatives does.
A buffer matches some settings when it is not empty, every accepted pattern occurs in it
and no rejected one. Nothing here speaks of tables; `Session.isMatch` is how they answer.
-/

namespace Winnow

def OccursAt (caseless : Bool) (word buffer : List UInt8) (offset : Nat) : Prop :=
  AsciiCase.fold caseless word <+: (AsciiCase.fold caseless buffer).drop offset

def Occurs (caseless : Bool) (word buffer : List UInt8) : Prop :=
  AsciiCase.fold caseless word <:+: AsciiCase.fold caseless buffer

instance (caseless : Bool) (word buffer : List UInt8) (offset : Nat) :
    Decidable (OccursAt caseless word buffer offset) :=
  inferInstanceAs (Decidable (_ <+: _))

instance (caseless : Bool) (word buffer : List UInt8) : Decidable (Occurs caseless word buffer) :=
  inferInstanceAs (Decidable (_ <:+: _))

theorem OccursAt.length_le {caseless : Bool} {word buffer : List UInt8} {offset : Nat}
    (h : OccursAt caseless word buffer offset) (hw : word ≠ []) :
    offset + word.length ≤ buffer.length := by
  have := List.IsPrefix.length_le h
  have : 0 < word.length := List.length_pos_iff.2 hw
  simp at *
  omega

namespace Pattern

def IsWord (p : Pattern) (variantsOn : Bool) (word : List UInt8) : Prop :=
  word = Utf8.encode p.text ∨
    ∃ others, p.alternatives variantsOn = .ok others ∧ ∃ s ∈ others, word = Utf8.encode s

def OccursIn (p : Pattern) (variantsOn caseless : Bool) (buffer : List UInt8) : Prop :=
  ∃ word, p.IsWord variantsOn word ∧ word ≠ [] ∧ Occurs caseless word buffer

end Pattern

namespace Settings

def Finds (s : Settings) (p : Pattern) (buffer : List UInt8) : Prop :=
  p.OccursIn s.variants (!s.caseSensitive) buffer

/-- What a search with these settings looks for. -/
structure Matches (s : Settings) (buffer : List UInt8) : Prop where
  ne_nil : buffer ≠ []
  accepted : ∀ p ∈ s.patterns, p.polarity = .accept → s.Finds p buffer
  rejected : ∀ p ∈ s.patterns, p.polarity = .reject → ¬s.Finds p buffer

end Settings

end Winnow
