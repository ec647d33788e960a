/-!
# What happened in a search

A summary counts the files that were queued, scanned and matched and the faults met
with on the way. The summaries of several threads are added up; in which order does
not matter.
-/

namespace Winnow

structure Summary where
  queued : Nat
  scanned : Nat
  matched : Nat
  fileErrors : Nat
  walkErrors : Nat
  cancelled : Bool
  deriving DecidableEq, Repr

namespace Summary

def zero : Summary := ⟨0, 0, 0, 0, 0, false⟩

instance : Inhabited Summary := ⟨zero⟩

instance : Add Summary where
  add a b := {
    queued := a.queued + b.queued
    scanned := a.scanned + b.scanned
    matched := a.matched + b.matched
    fileErrors := a.fileErrors + b.fileErrors
    walkErrors := a.walkErrors + b.walkErrors
    cancelled := a.cancelled || b.cancelled }

theorem add_def (a b : Summary) :
    a + b = ⟨a.queued + b.queued, a.scanned + b.scanned, a.matched + b.matched,
      a.fileErrors + b.fileErrors, a.walkErrors + b.walkErrors, a.cancelled || b.cancelled⟩ := rfl

theorem add_assoc (a b c : Summary) : a + b + c = a + (b + c) := by
  simp only [add_def, Nat.add_assoc, Bool.or_assoc]

theorem add_comm (a b : Summary) : a + b = b + a := by
  simp only [add_def, Nat.add_comm, Bool.or_comm]

@[simp] theorem add_zero (a : Summary) : a + zero = a := by
  simp [add_def, zero]

@[simp] theorem zero_add (a : Summary) : zero + a = a := by
  simp [add_def, zero]

end Summary

end Winnow
