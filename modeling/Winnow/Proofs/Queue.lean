import Mathlib.Data.List.Basic
import Winnow.Queue.Calls

/-!
# A queue that many call at once

Whatever calls are under way and in whatever order they take their steps, the queue holds
no more than it has places for, and its items leave in the order in which they came. A
push that succeeded has put its item in once, a pop that succeeded has taken one item out,
and no other call has done anything. A call that looks at the flag after the queue was
cancelled is refused, and till then it has not touched the queue.
-/

namespace Winnow.Queue.Calls

variable {α : Type} {s t : Calls α} {e : Event α} {n : Nat} {c : Call α}

def sends (s : Calls α) (n : Nat) (a : α) : Calls α where
  queue := { s.queue with items := s.queue.items ++ [a] }
  calls := s.calls.set n (.push a, .done a)
  sent := s.sent ++ [(n, a)]
  received := s.received

def receives (s : Calls α) (n : Nat) (a : α) (rest : List α) : Calls α where
  queue := { s.queue with items := rest }
  calls := s.calls.set n (.pop, .done a)
  sent := s.sent
  received := s.received ++ [(n, a)]

inductive Move (s : Calls α) : Event α → Calls α → Prop
  | call (c : Call α) : Move s (.call c) { s with calls := s.calls ++ [(c, .waiting)] }
  | look {n : Nat} {c : Call α} (here : s.calls[n]? = some (c, .waiting))
      (active : s.queue.cancelled = false) : Move s (.step n) (s.setStage n c .checked)
  | refuse {n : Nat} {c : Call α} (here : s.calls[n]? = some (c, .waiting))
      (cancelled : s.queue.cancelled = true) : Move s (.step n) (s.setStage n c .refused)
  | send {n : Nat} {a : α} (here : s.calls[n]? = some (.push a, .checked))
      (room : s.queue.isFull = false) : Move s (.step n) (s.sends n a)
  | receive {n : Nat} {a : α} {rest : List α} (here : s.calls[n]? = some (.pop, .checked))
      (first : s.queue.items = a :: rest) : Move s (.step n) (s.receives n a rest)
  | timeOut {n : Nat} {c : Call α} (here : s.calls[n]? = some (c, .checked)) :
      Move s (.timeOut n) (s.setStage n c .waiting)
  | cancel : Move s .cancel { s with queue := s.queue.cancel }

theorem move_of_attempt? (here : s.calls[n]? = some (c, .checked)) (h : s.attempt? n c = some t) :
    Move s (.step n) t := by
  cases c with
  | push a =>
    obtain ⟨q, hq, rfl⟩ := Option.map_eq_some_iff.1 h
    unfold send? at hq
    split at hq
    · cases hq
    · rename_i room
      cases hq
      exact .send here (Bool.eq_false_iff.2 room)
  | pop =>
    obtain ⟨⟨a, q⟩, hq, rfl⟩ := Option.map_eq_some_iff.1 h
    unfold receive? at hq
    split at hq
    · cases hq
    · rename_i first
      cases hq
      exact .receive here first

theorem move_of_step? (h : s.step? e = some t) : Move s e t := by
  cases e with
  | call c =>
    cases h
    exact .call c
  | step n =>
    simp only [step?] at h
    split at h
    · rename_i c here
      cases hc : s.queue.cancelled with
      | true =>
        simp only [hc] at h
        cases h
        exact .refuse here hc
      | false =>
        simp only [hc] at h
        cases h
        exact .look here hc
    · rename_i c here
      exact move_of_attempt? here h
    · cases h
  | timeOut n =>
    simp only [step?] at h
    split at h
    · rename_i c here
      cases h
      exact .timeOut here
    · cases h
  | cancel =>
    cases h
    exact .cancel

def ofCall (n : Nat) (log : List (Nat × α)) : List α := (log.filter (·.1 == n)).map Prod.snd

def given : Call α × Stage α → List α
  | (.push a, .done _) => [a]
  | _ => []

def gained : Call α × Stage α → List α
  | (.pop, .done a) => [a]
  | _ => []

def share (f : Call α × Stage α → List α) (calls : List (Call α × Stage α)) (n : Nat) : List α :=
  (calls[n]?).elim [] f

theorem ofCall_concat (m n : Nat) (a : α) (log : List (Nat × α)) :
    ofCall m (log ++ [(n, a)]) = ofCall m log ++ if n = m then [a] else [] := by
  by_cases h : n = m <;> simp [ofCall, h]

section Share

variable {f : Call α × Stage α → List α} {calls : List (Call α × Stage α)} {x y : Call α × Stage α}

theorem share_of_getElem? (h : calls[n]? = some x) : share f calls n = f x := by
  rw [share, h]
  rfl

theorem share_concat (hx : f x = []) (m : Nat) : share f (calls ++ [x]) m = share f calls m := by
  simp only [share, List.getElem?_append]
  split
  · rfl
  · rename_i hm
    rw [List.getElem?_eq_none (Nat.le_of_not_lt hm), List.getElem?_singleton]
    split <;> simp [hx]

theorem getElem?_set (here : calls[n]? = some x) (m : Nat) :
    (calls.set n y)[m]? = if n = m then some y else calls[m]? := by
  have hn := (List.getElem?_eq_some_iff.1 here).1
  simp only [List.getElem?_set, hn, ↓reduceIte]

theorem share_set (here : calls[n]? = some x) (hx : f x = []) (m : Nat) :
    share f (calls.set n y) m = share f calls m ++ if n = m then f y else [] := by
  rw [share, getElem?_set here]
  split
  · rename_i hm
    rw [← hm, share_of_getElem? here, hx]
    rfl
  · exact (List.append_nil _).symm

theorem share_set_of_nil (here : calls[n]? = some x) (hx : f x = []) (hy : f y = []) (m : Nat) :
    share f (calls.set n y) m = share f calls m := by
  rw [share_set here hx, hy, ite_self, List.append_nil]

end Share

structure Consistent (capacity : Nat) (s : Calls α) : Prop where
  capacity_eq : s.queue.capacity = capacity
  length_le : s.queue.items.length ≤ capacity
  flow : s.received.map Prod.snd ++ s.queue.items = s.sent.map Prod.snd
  sent_eq : ∀ n, ofCall n s.sent = share given s.calls n
  received_eq : ∀ n, ofCall n s.received = share gained s.calls n

namespace Consistent

variable {capacity : Nat}

theorem start (capacity : Nat) : Consistent (max 1 capacity) (start capacity : Calls α) where
  capacity_eq := rfl
  length_le := Nat.zero_le _
  flow := rfl
  sent_eq _ := rfl
  received_eq _ := rfl

theorem setStage (h : s.Consistent capacity) {old new : Stage α}
    (here : s.calls[n]? = some (c, old)) (hgiven : given (c, old) = [] ∧ given (c, new) = [])
    (hgained : gained (c, old) = [] ∧ gained (c, new) = []) :
    (s.setStage n c new).Consistent capacity where
  capacity_eq := h.capacity_eq
  length_le := h.length_le
  flow := h.flow
  sent_eq m := (h.sent_eq m).trans (share_set_of_nil here hgiven.1 hgiven.2 m).symm
  received_eq m := (h.received_eq m).trans (share_set_of_nil here hgained.1 hgained.2 m).symm

theorem sends (h : s.Consistent capacity) {a : α} (here : s.calls[n]? = some (.push a, .checked))
    (room : s.queue.isFull = false) : (s.sends n a).Consistent capacity where
  capacity_eq := h.capacity_eq
  length_le := by
    rw [isFull, decide_eq_false_iff_not, Nat.not_le, h.capacity_eq] at room
    exact Nat.le_trans (Nat.le_of_eq List.length_append) room
  flow := by
    change s.received.map Prod.snd ++ (s.queue.items ++ [a]) = (s.sent ++ [(n, a)]).map Prod.snd
    rw [← List.append_assoc, h.flow, List.map_append]
    rfl
  sent_eq m := by
    change ofCall m (s.sent ++ [(n, a)]) = share given (s.calls.set n (.push a, .done a)) m
    rw [ofCall_concat, share_set here rfl, h.sent_eq]
    rfl
  received_eq m := (h.received_eq m).trans (share_set_of_nil here rfl rfl m).symm

theorem receives (h : s.Consistent capacity) {a : α} {rest : List α}
    (here : s.calls[n]? = some (.pop, .checked)) (first : s.queue.items = a :: rest) :
    (s.receives n a rest).Consistent capacity where
  capacity_eq := h.capacity_eq
  length_le := by
    have hl := h.length_le
    rw [first] at hl
    exact Nat.le_of_succ_le hl
  flow := by
    change (s.received ++ [(n, a)]).map Prod.snd ++ rest = s.sent.map Prod.snd
    rw [← h.flow, first]
    simp
  sent_eq m := (h.sent_eq m).trans (share_set_of_nil here rfl rfl m).symm
  received_eq m := by
    change ofCall m (s.received ++ [(n, a)]) = share gained (s.calls.set n (.pop, .done a)) m
    rw [ofCall_concat, share_set here rfl, h.received_eq]
    rfl

theorem move (h : s.Consistent capacity) (m : Move s e t) : t.Consistent capacity := by
  have idle (c : Call α) : given (c, .waiting) = [] ∧ given (c, .checked) = [] ∧
      given (c, .refused) = [] ∧ gained (c, .waiting) = [] ∧ gained (c, .checked) = [] ∧
      gained (c, .refused) = [] := by
    cases c <;> exact ⟨rfl, rfl, rfl, rfl, rfl, rfl⟩
  cases m with
  | call c =>
    exact ⟨h.capacity_eq, h.length_le, h.flow,
      fun m => (h.sent_eq m).trans (share_concat (idle c).1 m).symm,
      fun m => (h.received_eq m).trans (share_concat (idle c).2.2.2.1 m).symm⟩
  | @look n c here _ => exact h.setStage here (by simp [idle]) (by simp [idle])
  | @refuse n c here _ => exact h.setStage here (by simp [idle]) (by simp [idle])
  | send here room => exact h.sends here room
  | receive here first => exact h.receives here first
  | @timeOut n c here => exact h.setStage here (by simp [idle]) (by simp [idle])
  | cancel => exact ⟨h.capacity_eq, h.length_le, h.flow, h.sent_eq, h.received_eq⟩

theorem reaches (h : s.Consistent capacity) (hr : s.Reaches t) : t.Consistent capacity :=
  hr.invariant h fun _ _ _ h hs => h.move (move_of_step? hs)

end Consistent

/-- A call of a cancelled queue that is about to look at the flag, or was refused. -/
def Barred (n : Nat) (c : Call α) (s : Calls α) : Prop :=
  s.queue.cancelled = true ∧
    (s.calls[n]? = some (c, .waiting) ∨ s.calls[n]? = some (c, .refused))

namespace Barred

theorem set (h : s.Barred n c) {m : Nat} {x y : Call α × Stage α} (here : s.calls[m]? = some x)
    (hx : x.2 = .checked) (calls_eq : t.calls = s.calls.set m y)
    (cancelled_eq : t.queue.cancelled = s.queue.cancelled) : t.Barred n c := by
  -- a call that is about to try is neither waiting nor refused
  have hm : m ≠ n := by
    intro hm
    subst hm
    rcases h.2 with hn | hn <;> (rw [here] at hn; cases hn; cases hx)
  refine ⟨cancelled_eq.trans h.1, ?_⟩
  rw [calls_eq, getElem?_set here, if_neg hm]
  exact h.2

theorem move (h : s.Barred n c) (m : Move s e t) : t.Barred n c := by
  cases m with
  | call d =>
    have hn : n < s.calls.length := by
      rcases h.2 with hn | hn <;> exact (List.getElem?_eq_some_iff.1 hn).1
    refine ⟨h.1, ?_⟩
    change (s.calls ++ [(d, .waiting)])[n]? = _ ∨ (s.calls ++ [(d, .waiting)])[n]? = _
    rw [List.getElem?_append_left hn]
    exact h.2
  | look _ active => simp [h.1] at active
  | @refuse m d here _ =>
    refine ⟨h.1, ?_⟩
    change (s.calls.set m (d, .refused))[n]? = _ ∨ (s.calls.set m (d, .refused))[n]? = _
    rw [getElem?_set here]
    split
    · rename_i hm
      subst hm
      rcases h.2 with hn | hn
      · rw [here] at hn
        cases hn
        exact Or.inr rfl
      · simp [here] at hn
    · exact h.2
  | send here _ => exact h.set here rfl rfl rfl
  | receive here _ => exact h.set here rfl rfl rfl
  | timeOut here => exact h.set here rfl rfl rfl
  | cancel => exact ⟨rfl, h.2⟩

theorem reaches (h : s.Barred n c) (hr : s.Reaches t) : t.Barred n c :=
  hr.invariant h fun _ _ _ h hs => h.move (move_of_step? hs)

theorem share_eq (h : s.Barred n c) : share given s.calls n = [] ∧ share gained s.calls n = [] := by
  rcases h.2 with hn | hn <;> rw [share_of_getElem? hn, share_of_getElem? hn] <;>
    cases c <;> exact ⟨rfl, rfl⟩

end Barred

theorem step?_of_cancelled (hc : s.queue.cancelled = true)
    (here : s.calls[n]? = some (c, .waiting)) :
    s.step? (.step n) = some (s.setStage n c .refused) := by
  simp [step?, here, hc]

/-- In whatever order the calls take their steps, the queue is a bounded first-in first-out
queue, a call has its effect once if it succeeds and none if it is refused, and one that
looks at the flag of a cancelled queue is refused. -/
theorem reaches_fifo {capacity : Nat} {r : Calls α} (h : (start capacity).Reaches r) :
    r.queue.length ≤ max capacity 1 ∧
    r.received.map Prod.snd ++ r.queue.items = r.sent.map Prod.snd ∧
    (∀ n a b, r.calls[n]? = some (.push a, .done b) → ofCall n r.sent = [a]) ∧
    (∀ n a, r.calls[n]? = some (.pop, .done a) → ofCall n r.received = [a]) ∧
    (∀ n c, r.calls[n]? = some (c, .refused) → ofCall n r.sent = [] ∧ ofCall n r.received = []) ∧
    (r.queue.cancelled = true → ∀ n c, r.calls[n]? = some (c, .waiting) →
      (∃ t, r.step? (.step n) = some t ∧ t.calls[n]? = some (c, .refused) ∧ t.queue = r.queue ∧
        t.sent = r.sent ∧ t.received = r.received) ∧
      ∀ t, r.Reaches t → t.queue.cancelled = true ∧
        (t.calls[n]? = some (c, .waiting) ∨ t.calls[n]? = some (c, .refused)) ∧
        ofCall n t.sent = [] ∧ ofCall n t.received = []) := by
  have hr := (Consistent.start capacity).reaches h
  refine ⟨?_, hr.flow, fun n a b hn => ?_, fun n a hn => ?_, fun n c hn => ?_,
    fun hc n c hn => ⟨?_, ?_⟩⟩
  · rw [Nat.max_comm]
    exact hr.length_le
  · rw [hr.sent_eq, share_of_getElem? hn]
    rfl
  · rw [hr.received_eq, share_of_getElem? hn]
    rfl
  · rw [hr.sent_eq, hr.received_eq, share_of_getElem? hn, share_of_getElem? hn]
    cases c <;> exact ⟨rfl, rfl⟩
  · refine ⟨_, step?_of_cancelled hc hn, ?_, rfl, rfl, rfl⟩
    exact (getElem?_set hn n).trans (if_pos rfl)
  · intro t ht
    have hb : r.Barred n c := ⟨hc, Or.inl hn⟩
    have hbt := hb.reaches ht
    have hrt := hr.reaches ht
    exact ⟨hbt.1, hbt.2, (hrt.sent_eq n).trans hbt.share_eq.1,
      (hrt.received_eq n).trans hbt.share_eq.2⟩

theorem reaches_fifo_of_late_push :
    ∃ r : Calls Nat, (start 2).Reaches r ∧ r.queue.items = [9] ∧ r.queue.isFull = false ∧
      ofCall 0 r.sent = [7] ∧ ofCall 2 r.received = [7] ∧
      r.received.map Prod.snd ++ [9] = r.sent.map Prod.snd ∧
      ∃ t, r.step? (.step 3) = some t ∧ t.calls[3]? = some (.push 8, .refused) ∧
        t.queue = r.queue := by
  let es : List (Event Nat) := [.call (.push 7), .step 0, .timeOut 0, .step 0, .step 0,
    .call (.push 9), .call .pop, .step 1, .step 2, .step 1, .step 2, .cancel, .call (.push 8)]
  have h : (start 2).Reaches _ := ⟨es, rfl⟩
  obtain ⟨-, hflow, hpush, hpop, -, hlate⟩ := reaches_fifo h
  obtain ⟨⟨t, ht, hrefused, hqueue, -, -⟩, -⟩ := hlate rfl 3 (.push 8) rfl
  exact ⟨_, h, rfl, rfl, hpush 0 7 7 rfl, hpop 2 7 rfl, hflow, t, ht, hrefused, hqueue⟩

end Winnow.Queue.Calls
