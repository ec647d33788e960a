import Mathlib.Algebra.BigOperators.Group.List.Basic
import Mathlib.Algebra.Group.Prod
import Mathlib.Algebra.Order.Group.Multiset
import Mathlib.Tactic.Abel
import Winnow.Proofs.Pool.Order

/-!
# What is reported and what is still to come

A tally is a report without the order of its paths and faults, so the tallies of several
threads can be added up in any way. What is reported so far, what the walking thread has
left, what is queued and what is being scanned make up the tally of one pass over the
entries; each move of the pool only carries something from one of these to another.
-/

namespace Winnow

instance : Zero Summary := ⟨.zero⟩

instance : AddCommMonoid Summary where
  add_assoc := Summary.add_assoc
  zero_add := Summary.zero_add
  add_zero := Summary.add_zero
  add_comm := Summary.add_comm
  nsmul := nsmulRec

abbrev Tally := Summary × Multiset String × Multiset Error

namespace Tally

def of (s : Summary) (found : List String) (faults : List Error) : Tally := (s, found, faults)

theorem of_append (s t : Summary) (found found' : List String) (faults faults' : List Error) :
    of (s + t) (found ++ found') (faults ++ faults') = of s found faults + of t found' faults' :=
  rfl

theorem of_add (s t : Summary) (found : List String) (faults : List Error) :
    of (s + t) found faults = of s found faults + of t [] [] := by
  rw [← of_append, List.append_nil, List.append_nil]

def queued : Tally := .of { Summary.zero with queued := 1 } [] []

def scanned : Tally := .of { Summary.zero with scanned := 1 } [] []

def ofOutcome (path : String) : Except Error Bool → Tally
  | .ok true => .of { Summary.zero with matched := 1 } [path] []
  | .ok false => 0
  | .error e => .of { Summary.zero with fileErrors := 1 } [] [e]

def ofEntry (search : String → Except Error Bool) : WalkEntry → Tally
  | .ok path => queued + (scanned + ofOutcome path (search path))
  | .error e => .of { Summary.zero with walkErrors := 1 } [] [e]

end Tally

namespace Report

def tally (r : Report) : Tally := .of r.summary r.found r.faults

theorem tally_append (a b : Report) : (a.append b).tally = a.tally + b.tally := rfl

theorem tally_ofScan (path : String) (r : Except Error Bool) :
    (ofScan path r).tally = .scanned + .ofOutcome path r := by
  rcases r with e | found
  · rfl
  · cases found <;> rfl

theorem tally_ofEntry (search : String → Except Error Bool) (e : WalkEntry) :
    (ofEntry search e).tally = .ofEntry search e := by
  cases e with
  | ok path =>
    rw [ofEntry, tally_append, tally_ofScan]
    rfl
  | error e => rfl

theorem tally_ofEntries (search : String → Except Error Bool) (entries : List WalkEntry) :
    (ofEntries search entries).tally = (entries.map (.ofEntry search)).sum := by
  have go (r : Report) : (entries.foldl (fun r e => r.append (ofEntry search e)) r).tally =
      r.tally + (entries.map (.ofEntry search)).sum := by
    induction entries generalizing r with
    | nil => simp
    | cons e entries ih =>
      rw [List.foldl_cons, ih, tally_append, tally_ofEntry, List.map_cons, List.sum_cons, add_assoc]
  rw [ofEntries, go]
  exact zero_add _

end Report

def Producer.owed (search : String → Except Error Bool) : Producer → Tally
  | .walking rest => (rest.map (.ofEntry search)).sum
  | .sending path _ rest => .ofEntry search (.ok path) + (rest.map (.ofEntry search)).sum
  | .closing _ _ | .stopped => 0

def Item.owed (search : String → Except Error Bool) : Item → Tally
  | .file path => .scanned + .ofOutcome path (search path)
  | .shutdown => 0

def Phase.owed (search : String → Except Error Bool) : Phase → Tally
  | .scanning path => .ofOutcome path (search path)
  | .ready | .checked | .stopped => 0

def Consumer.account (search : String → Except Error Bool) (c : Consumer) : Tally :=
  .of c.summary [] [] + c.phase.owed search

theorem Consumer.account_ready (search : String → Except Error Bool) (s t : Summary) :
    Consumer.account search ⟨.ready, s + t⟩ = .of s [] [] + .of t [] [] := by
  rw [account, Phase.owed, add_zero, Tally.of_add]

theorem Consumer.account_scanning (search : String → Except Error Bool) (s t : Summary)
    (path : String) : Consumer.account search ⟨.scanning path, s + t⟩ =
      .of s [] [] + (.of t [] [] + .ofOutcome path (search path)) := by
  rw [account, Phase.owed, Tally.of_add, add_assoc]

namespace Pool

variable {search : String → Except Error Bool} {p q : Pool} {e : Event} {i : Nat} {c d : Consumer}

def account (search : String → Except Error Bool) (p : Pool) : Tally :=
  .of p.walked p.found p.faults + p.producer.owed search +
    (p.queue.items.map (Item.owed search)).sum + (p.consumers.map (Consumer.account search)).sum

theorem sum_account_set (hc : p.consumers[i]? = some c) {x y : Tally}
    (h : c.account search + x = d.account search + y) :
    (p.consumers.map (Consumer.account search)).sum + x =
      ((p.consumers.set i d).map (Consumer.account search)).sum + y := by
  obtain ⟨hi, rfl⟩ := List.getElem?_eq_some_iff.1 hc
  have hold := ((List.getElem_cons_eraseIdx_perm hi).map (Consumer.account search)).sum_eq
  have hnew := ((List.set_perm_cons_eraseIdx hi d).map (Consumer.account search)).sum_eq
  rw [← hold, hnew, List.map_cons, List.map_cons, List.sum_cons, List.sum_cons, add_right_comm, h,
    add_right_comm]

theorem account_producer {next : Producer} (h : next.owed search = p.producer.owed search) :
    account search { p with producer := next } = p.account search := by
  simp only [account, h]

theorem account_fault {e : Error} {rest : List WalkEntry}
    (state : p.producer = .walking (.error e :: rest)) :
    (p.walk rest (.error e)).account search = p.account search := by
  have hof := Tally.of_append p.walked { Summary.zero with walkErrors := 1 } p.found [] p.faults [e]
  rw [List.append_nil] at hof
  simp only [account, walk, state, hof, Producer.owed, List.map_cons, List.sum_cons, Tally.ofEntry]
  abel

theorem account_sends {a : Item} {next : Producer} (s : Summary)
    (h : .of s [] [] + next.owed search + a.owed search = p.producer.owed search) :
    account search { p.sends a next with walked := p.walked + s } = p.account search := by
  simp only [account, sends, Tally.of_add, List.map_append, List.sum_append, List.map_cons,
    List.map_nil, List.sum_cons, List.sum_nil, ← h]
  abel

theorem account_hands (hc : p.consumers[i]? = some c) {found : List String} {faults : List Error}
    (h : c.account search = d.account search + .of .zero found faults) :
    account search ({ p with found := p.found ++ found, faults := p.faults ++ faults }.setConsumer i d) =
      p.account search := by
  have hs : (p.consumers.map (Consumer.account search)).sum =
      ((p.consumers.set i d).map (Consumer.account search)).sum + .of .zero found faults := by
    rw [← sum_account_set hc ((add_zero _).trans h), add_zero]
  have hof := Tally.of_append p.walked .zero p.found found p.faults faults
  rw [Summary.add_zero] at hof
  simp only [account, setConsumer, hof, hs]
  abel

theorem account_setConsumer (hc : p.consumers[i]? = some c)
    (h : c.account search = d.account search) :
    (p.setConsumer i d).account search = p.account search := by
  have hs := account_hands hc (h.trans (add_zero _).symm : _ = _ + Tally.of .zero [] [])
  rwa [List.append_nil, List.append_nil] at hs

theorem account_takes {a : Item} {rest : List Item} (hc : p.consumers[i]? = some c)
    (first : p.queue.items = a :: rest) (h : d.account search = c.account search + a.owed search) :
    (p.takes i a rest d).account search = p.account search := by
  have hs : (p.consumers.map (Consumer.account search)).sum + a.owed search =
      ((p.consumers.set i d).map (Consumer.account search)).sum := by
    rw [sum_account_set hc (h.symm.trans (add_zero _).symm), add_zero]
  simp only [account, takes, first, ← hs, List.map_cons, List.sum_cons]
  abel

theorem account_scan {path : String} (hc : p.consumers[i]? = some c)
    (state : c.phase = .scanning path) :
    (p.scan search i c path).account search = p.account search := by
  have hc' : c.account search = .of c.summary [] [] + .ofOutcome path (search path) := by
    rw [Consumer.account, state, Phase.owed]
  have hands (s : Summary) (found : List String) (faults : List Error)
      (h : Tally.ofOutcome path (search path) = .of s [] [] + .of .zero found faults) :=
    account_hands (d := ⟨.ready, c.summary + s⟩) hc
      (by rw [hc', h, Consumer.account_ready, add_assoc])
  unfold scan
  rcases hr : search path with e | found
  · have h := hands { Summary.zero with fileErrors := 1 } [] [e] (by rw [hr]; rfl)
    rw [List.append_nil] at h
    exact h
  · cases found with
    | true =>
      have h := hands { Summary.zero with matched := 1 } [path] [] (by rw [hr]; rfl)
      rw [List.append_nil] at h
      exact h
    | false =>
      refine account_setConsumer hc ?_
      rw [hc', hr]
      rfl

/-- No move changes the account, as long as the queue is not cancelled. -/
theorem Move.account_eq (m : Move search p e q) (active : p.queue.cancelled = false) :
    q.account search = p.account search := by
  cases m with
  | @close rest state ended =>
    have hrest := ended.resolve_right (by simp [active])
    subst hrest
    exact account_producer (by rw [state]; rfl)
  | @walk e rest state _ =>
    cases e with
    | ok path => exact account_producer (by rw [state]; rfl)
    | error e => exact account_fault state
  | giveUp _ cancelled => simp [active] at cancelled
  | lookToSend state _ => exact account_producer (by rw [state]; rfl)
  | @sendFile path rest state _ =>
    refine account_sends _ ?_
    rw [state]
    exact add_right_comm _ _ _
  | finish state => exact account_producer (by rw [state]; rfl)
  | abandon _ cancelled => simp [active] at cancelled
  | lookToClose state _ => exact account_producer (by rw [state]; rfl)
  | @sendShutdown left state _ =>
    have h : account search { p.sends .shutdown (.closing left false) with
        walked := p.walked + .zero } = p.account search :=
      account_sends .zero (by rw [state]; rfl)
    rwa [Summary.add_zero] at h
  | quit _ _ cancelled => simp [active] at cancelled
  | look here state _ => exact account_setConsumer here (by rw [Consumer.account, state]; rfl)
  | takeFile here state first =>
    refine account_takes here first ?_
    rw [Consumer.account_scanning, Consumer.account, state, Phase.owed, add_zero]
    rfl
  | takeShutdown here state first =>
    refine account_takes here first ?_
    rw [Consumer.account, Consumer.account, state]
    exact (add_zero _).symm
  | scan here state => exact account_scan here state
  | retrySend state => exact account_producer (by rw [state]; rfl)
  | retryClose state => exact account_producer (by rw [state]; rfl)
  | retryTake here state => exact account_setConsumer here (by rw [Consumer.account, state]; rfl)
  | cancel => rfl

end Pool

end Winnow
