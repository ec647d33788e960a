import Winnow.Automaton.Basic
import Winnow.Roster

/-!
# Scanning a buffer

From each place where a pattern can start, the automaton is followed as far as it
goes. Each pattern that ends on the way is credited to the verdict; a rejected one
ends the whole scan. Where nothing is rejected, a scan may also stop once every
accepted pattern has been seen.
-/

namespace Winnow

structure Verdict where
  accepted : OrdSet PatternId
  rejected : OrdSet PatternId
  deriving DecidableEq

namespace Verdict

def empty : Verdict := ⟨∅, ∅⟩

instance : Inhabited Verdict := ⟨empty⟩

def isMatch (v : Verdict) (accepts : Nat) : Bool :=
  v.rejected.isEmpty && v.accepted.size == accepts

/-- The numbers in ascending order, up to the first rejected one; whether there was one. -/
def credit (v : Verdict) : List PatternId → Verdict × Bool
  | [] => (v, false)
  | id :: ids =>
    if id.isReject then ({ v with rejected := v.rejected.insert id }, true)
    else credit { v with accepted := v.accepted.insert id } ids

end Verdict

/-- What to look for: the automaton, how many patterns must be seen, and whether the
scan may stop when they have been. -/
structure Scan (l : Layout) where
  automaton : Automaton l
  accepts : Nat
  mayStop : Bool

namespace Scan

variable {l : Layout}

def of (automaton : Automaton l) (roster : Roster) : Scan l :=
  ⟨automaton, roster.accept.size, roster.rejectsNothing⟩

def exhaustive (s : Scan l) : Scan l := { s with mayStop := false }

def judge (s : Scan l) (v : Verdict) (c : Cell) : Verdict × Bool :=
  if c.terminal = 0 then (v, false)
  else match v.credit (s.automaton.endsAt c).toList with
    | (v, true) => (v, true)
    | (v, false) => (v, s.mayStop && v.accepted.size == s.accepts)

def track (s : Scan l) (state : UInt8) (v : Verdict) : List UInt8 → Verdict × Bool
  | [] => (v, false)
  | b :: bs =>
    let c := s.automaton.step state b
    match s.judge v c with
    | (v, true) => (v, true)
    | (v, false) => if c.isDeadEnd then (v, false) else track s c.target v bs

def scanFrom (s : Scan l) (v : Verdict) (buffer : List UInt8) : Verdict :=
  match _h : s.automaton.starts.find? buffer with
  | none => v
  | some n =>
    match s.track Automaton.root v (buffer.drop n) with
    | (v, true) => v
    | (v, false) => scanFrom s v (buffer.drop (n + 1))
termination_by buffer.length
decreasing_by
  have := StartBytes.lt_of_find? _h
  simp only [List.length_drop]
  omega

def run (s : Scan l) (buffer : List UInt8) : Verdict := s.scanFrom .empty buffer

def scanEach (s : Scan l) (v : Verdict) : List UInt8 → Verdict
  | [] => v
  | b :: bs =>
    match s.track Automaton.root v (b :: bs) with
    | (v, true) => v
    | (v, false) => scanEach s v bs

def isMatch (s : Scan l) (buffer : List UInt8) : Bool :=
  !buffer.isEmpty && (s.run buffer).isMatch s.accepts

end Scan

end Winnow
