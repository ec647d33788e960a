import Winnow.Pool

/-!
# Schedules of the pool

A run is a list of events that can happen one after the other. `Reaches` relates the
states before and after one. `roundRobin` is one schedule among all: the threads step
in turn.
-/

namespace Winnow.Pool

variable (search : String → Except Error Bool)

def exec? (p : Pool) : List Event → Option Pool
  | [] => some p
  | e :: es => (p.step? search e).bind fun q => exec? q es

def Reaches (p q : Pool) : Prop := ∃ es, p.exec? search es = some q

variable {search}

theorem exec?_append (p : Pool) (es fs : List Event) :
    p.exec? search (es ++ fs) = (p.exec? search es).bind fun q => q.exec? search fs := by
  induction es generalizing p with
  | nil => rfl
  | cons e es ih =>
    cases h : p.step? search e <;> simp [exec?, h, ih]

theorem Reaches.refl (p : Pool) : p.Reaches search p := ⟨[], rfl⟩

theorem Reaches.next {p q r : Pool} {e : Event} (h : p.Reaches search q)
    (he : q.step? search e = some r) : p.Reaches search r := by
  obtain ⟨es, h⟩ := h
  exact ⟨es ++ [e], by simp [exec?_append, h, exec?, he]⟩

theorem Reaches.invariant {p q : Pool} {holds : Pool → Prop} (h : p.Reaches search q)
    (start : holds p)
    (step : ∀ r s e, holds r → r.step? search e = some s → holds s) : holds q := by
  obtain ⟨es, h⟩ := h
  induction es generalizing p with
  | nil => cases h; exact start
  | cons e es ih =>
    cases hs : p.step? search e with
    | none => simp [exec?, hs] at h
    | some r => exact ih (step _ _ _ start hs) (by simpa [exec?, hs] using h)

variable (search)

def threads (p : Pool) : List Thread :=
  .producer :: (List.range p.consumers.length).map .consumer

def round (p : Pool) : Pool :=
  p.threads.foldl (fun p t => (p.step? search (.step t)).getD p) p

def rounds : Nat → Pool → Pool
  | 0, p => p
  | n + 1, p => if p.isFinal then p else rounds n (p.round search)

/-- Enough rounds for a queue that is not cancelled: an entry or a shutdown takes three
steps of the walking thread and three of a consumer. -/
def enoughRounds (p : Pool) : Nat :=
  let entries := match p.producer with
    | .walking rest => rest.length
    | .sending _ _ rest => rest.length + 1
    | _ => 0
  6 * (entries + p.queue.length + p.consumers.length) + 6

def roundRobin (p : Pool) : Pool := p.rounds search p.enoughRounds

end Winnow.Pool
