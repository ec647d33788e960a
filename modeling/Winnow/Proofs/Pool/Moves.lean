import Winnow.Pool.Schedule

/-!
# What one event does

`Move` lists every way in which an event changes the pool, with what has to hold before.
It is all that later proofs need to know of `step?`.
-/

namespace Winnow.Pool

def sends (p : Pool) (a : Item) (next : Producer) : Pool :=
  { p with
    queue := { p.queue with items := p.queue.items ++ [a] }
    producer := next
    sent := p.sent ++ [a] }

def takes (p : Pool) (i : Nat) (a : Item) (rest : List Item) (c : Consumer) : Pool :=
  { p with
    queue := { p.queue with items := rest }
    consumers := p.consumers.set i c
    taken := p.taken ++ [(i, a)] }

inductive Move (search : String → Except Error Bool) (p : Pool) : Event → Pool → Prop
  | close {rest : List WalkEntry} (state : p.producer = .walking rest)
      (ended : rest = [] ∨ p.queue.cancelled = true) : Move search p (.step .producer) p.close
  | walk {e : WalkEntry} {rest : List WalkEntry} (state : p.producer = .walking (e :: rest))
      (active : p.queue.cancelled = false) : Move search p (.step .producer) (p.walk rest e)
  | giveUp {path : String} {rest : List WalkEntry} (state : p.producer = .sending path false rest)
      (cancelled : p.queue.cancelled = true) : Move search p (.step .producer) p.close
  | lookToSend {path : String} {rest : List WalkEntry}
      (state : p.producer = .sending path false rest) (active : p.queue.cancelled = false) :
      Move search p (.step .producer) { p with producer := .sending path true rest }
  | sendFile {path : String} {rest : List WalkEntry} (state : p.producer = .sending path true rest)
      (room : p.queue.isFull = false) : Move search p (.step .producer)
        { p.sends (.file path) (.walking rest) with
          walked := p.walked + { Summary.zero with queued := 1 } }
  | finish {checked : Bool} (state : p.producer = .closing 0 checked) :
      Move search p (.step .producer) { p with producer := .stopped }
  | abandon {left : Nat} (state : p.producer = .closing (left + 1) false)
      (cancelled : p.queue.cancelled = true) :
      Move search p (.step .producer) { p with producer := .stopped }
  | lookToClose {left : Nat} (state : p.producer = .closing (left + 1) false)
      (active : p.queue.cancelled = false) :
      Move search p (.step .producer) { p with producer := .closing (left + 1) true }
  | sendShutdown {left : Nat} (state : p.producer = .closing (left + 1) true)
      (room : p.queue.isFull = false) :
      Move search p (.step .producer) (p.sends .shutdown (.closing left false))
  | quit {i : Nat} {c : Consumer} (here : p.consumers[i]? = some c) (state : c.phase = .ready)
      (cancelled : p.queue.cancelled = true) :
      Move search p (.step (.consumer i)) (p.setConsumer i { c with phase := .stopped })
  | look {i : Nat} {c : Consumer} (here : p.consumers[i]? = some c) (state : c.phase = .ready)
      (active : p.queue.cancelled = false) :
      Move search p (.step (.consumer i)) (p.setConsumer i { c with phase := .checked })
  | takeFile {i : Nat} {c : Consumer} {path : String} {rest : List Item}
      (here : p.consumers[i]? = some c) (state : c.phase = .checked)
      (first : p.queue.items = .file path :: rest) : Move search p (.step (.consumer i))
        (p.takes i (.file path) rest
          ⟨.scanning path, c.summary + { Summary.zero with scanned := 1 }⟩)
  | takeShutdown {i : Nat} {c : Consumer} {rest : List Item} (here : p.consumers[i]? = some c)
      (state : c.phase = .checked) (first : p.queue.items = .shutdown :: rest) :
      Move search p (.step (.consumer i)) (p.takes i .shutdown rest { c with phase := .stopped })
  | scan {i : Nat} {c : Consumer} {path : String} (here : p.consumers[i]? = some c)
      (state : c.phase = .scanning path) :
      Move search p (.step (.consumer i)) (p.scan search i c path)
  | retrySend {path : String} {rest : List WalkEntry} (state : p.producer = .sending path true rest) :
      Move search p (.timeOut .producer) { p with producer := .sending path false rest }
  | retryClose {left : Nat} (state : p.producer = .closing left true) :
      Move search p (.timeOut .producer) { p with producer := .closing left false }
  | retryTake {i : Nat} {c : Consumer} (here : p.consumers[i]? = some c) (state : c.phase = .checked) :
      Move search p (.timeOut (.consumer i)) (p.setConsumer i { c with phase := .ready })
  | cancel : Move search p .cancel { p with queue := p.queue.cancel }

variable {search : String → Except Error Bool} {p q : Pool}

theorem sends_of_send? {a : Item} {next : Producer} (h : p.send? a next = some q) :
    p.queue.isFull = false ∧ q = p.sends a next := by
  cases hf : p.queue.isFull with
  | true => simp [send?, Queue.send?, hf] at h
  | false =>
    simp only [send?, Queue.send?, hf] at h
    cases h
    exact ⟨rfl, rfl⟩

theorem move_of_produce? (h : p.produce? = some q) : Move search p (.step .producer) q := by
  unfold produce? at h
  split at h
  · rename_i hp
    cases h
    exact .close hp (Or.inl rfl)
  · rename_i e rest hp
    cases hc : p.queue.cancelled with
    | true =>
      simp only [hc] at h
      cases h
      exact .close hp (Or.inr hc)
    | false =>
      simp only [hc] at h
      cases h
      exact .walk hp hc
  · rename_i path rest hp
    cases hc : p.queue.cancelled with
    | true =>
      simp only [hc] at h
      cases h
      exact .giveUp hp hc
    | false =>
      simp only [hc] at h
      cases h
      exact .lookToSend hp hc
  · rename_i path rest hp
    obtain ⟨r, hr, rfl⟩ := Option.map_eq_some_iff.1 h
    obtain ⟨room, rfl⟩ := sends_of_send? hr
    exact .sendFile hp room
  · rename_i checked hp
    cases h
    exact .finish hp
  · rename_i left hp
    cases hc : p.queue.cancelled with
    | true =>
      simp only [hc] at h
      cases h
      exact .abandon hp hc
    | false =>
      simp only [hc] at h
      cases h
      exact .lookToClose hp hc
  · rename_i left hp
    obtain ⟨room, rfl⟩ := sends_of_send? h
    exact .sendShutdown hp room
  · cases h

theorem move_of_take? {i : Nat} {c : Consumer} (hi : p.consumers[i]? = some c)
    (hc : c.phase = .checked) (h : p.take? i c = some q) :
    Move search p (.step (.consumer i)) q := by
  unfold take? Queue.receive? at h
  cases hq : p.queue.items with
  | nil => simp [hq] at h
  | cons a rest =>
    cases a with
    | file path =>
      simp only [hq] at h
      cases h
      exact .takeFile hi hc hq
    | shutdown =>
      simp only [hq] at h
      cases h
      exact .takeShutdown hi hc hq

theorem move_of_consume? {i : Nat} (h : p.consume? search i = some q) :
    Move search p (.step (.consumer i)) q := by
  unfold consume? at h
  split at h
  · cases h
  · rename_i c hi
    split at h
    · rename_i hp
      cases hc : p.queue.cancelled with
      | true =>
        simp only [hc] at h
        cases h
        exact .quit hi hp hc
      | false =>
        simp only [hc] at h
        cases h
        exact .look hi hp hc
    · rename_i hp
      exact move_of_take? hi hp h
    · rename_i path hp
      cases h
      exact .scan hi hp
    · cases h

theorem move_of_timeOut? {t : Thread} (h : p.timeOut? t = some q) : Move search p (.timeOut t) q := by
  unfold timeOut? at h
  split at h
  · split at h
    · rename_i hp
      cases h
      exact .retrySend hp
    · rename_i hp
      cases h
      exact .retryClose hp
    · cases h
  · split at h
    · rename_i hi
      cases h
      exact .retryTake hi rfl
    · cases h

theorem move_of_step? {e : Event} (h : p.step? search e = some q) : Move search p e q := by
  cases e with
  | step t =>
    cases t with
    | producer => exact move_of_produce? h
    | consumer i => exact move_of_consume? h
  | timeOut t => exact move_of_timeOut? h
  | cancel =>
    cases h
    exact .cancel

end Winnow.Pool
