import Winnow.Queue

/-!
# Concurrent calls of a queue

Any number of pushes and pops of one queue may be under way. A call looks at the cancel
flag, and if the queue is not cancelled tries once; when the attempt times out it starts
over. Calls are numbered in the order in which they begin. What went in and out is kept
in order, with the number of the call that did it.
-/

namespace Winnow.Queue

variable {α : Type}

inductive Call (α : Type) where
  | push (a : α)
  | pop
  deriving DecidableEq, Repr

/-- How far a call is. A push that is done has sent its item, a pop has received one. -/
inductive Stage (α : Type) where
  | waiting
  | checked
  | done (a : α)
  | refused
  deriving DecidableEq, Repr

structure Calls (α : Type) where
  queue : Queue α
  calls : List (Call α × Stage α)
  sent : List (Nat × α)
  received : List (Nat × α)
  deriving DecidableEq

namespace Calls

inductive Event (α : Type) where
  | call (c : Call α)
  | step (n : Nat)
  | timeOut (n : Nat)
  | cancel
  deriving DecidableEq, Repr

def start (capacity : Nat) : Calls α := ⟨.empty capacity, [], [], []⟩

instance : Inhabited (Calls α) := ⟨start 1⟩

def setStage (s : Calls α) (n : Nat) (c : Call α) (stage : Stage α) : Calls α :=
  { s with calls := s.calls.set n (c, stage) }

def attempt? (s : Calls α) (n : Nat) : Call α → Option (Calls α)
  | .push a => (s.queue.send? a).map fun q =>
    { s with queue := q, sent := s.sent ++ [(n, a)] }.setStage n (.push a) (.done a)
  | .pop => s.queue.receive?.map fun (a, q) =>
    { s with queue := q, received := s.received ++ [(n, a)] }.setStage n .pop (.done a)

def step? (s : Calls α) : Event α → Option (Calls α)
  | .call c => some { s with calls := s.calls ++ [(c, .waiting)] }
  | .step n =>
    match s.calls[n]? with
    | some (c, .waiting) =>
      some (s.setStage n c (if s.queue.cancelled then .refused else .checked))
    | some (c, .checked) => s.attempt? n c
    | _ => none
  | .timeOut n =>
    match s.calls[n]? with
    | some (c, .checked) => some (s.setStage n c .waiting)
    | _ => none
  | .cancel => some { s with queue := s.queue.cancel }

def exec? (s : Calls α) : List (Event α) → Option (Calls α)
  | [] => some s
  | e :: es => (s.step? e).bind fun r => exec? r es

def Reaches (s r : Calls α) : Prop := ∃ es, s.exec? es = some r

theorem Reaches.invariant {s r : Calls α} {holds : Calls α → Prop} (h : s.Reaches r)
    (start : holds s)
    (step : ∀ t u e, holds t → t.step? e = some u → holds u) : holds r := by
  obtain ⟨es, h⟩ := h
  induction es generalizing s with
  | nil => cases h; exact start
  | cons e es ih =>
    cases hs : s.step? e with
    | none => simp [exec?, hs] at h
    | some t => exact ih (step _ _ _ start hs) (by simpa [exec?, hs] using h)

end Calls

end Winnow.Queue
