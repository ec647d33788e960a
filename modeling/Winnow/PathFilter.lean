import Winnow.Error
import Winnow.Regex.Reader

/-!
# Filters on paths

A filter is a set of regular expressions, of which one has to match somewhere in the
path. A filter without any lets every path through.
-/

namespace Winnow

structure PathFilter where
  regexes : List Regex

namespace PathFilter

def all : PathFilter := ⟨[]⟩

instance : Inhabited PathFilter := ⟨all⟩

def isEmpty (f : PathFilter) : Bool := f.regexes.isEmpty

def read? (text : String) : Except Error Regex :=
  match Regex.read? text with
  | some r => .ok r
  | none => .error (.regex text)

def ofTexts (texts : List String) : Except Error PathFilter := do
  return ⟨← texts.mapM read?⟩

def allows (f : PathFilter) (path : String) : Bool :=
  f.isEmpty || f.regexes.any (·.isMatch path)

end PathFilter

end Winnow
