import Mathlib.Algebra.Ring.Nat
import Winnow.Proofs.Pool.Order

/-!
# Runs come to an end

Each step of a thread takes some of the work that is left, and a time-out puts back one
step, so a run has no more steps than the work at its start and its time-outs. And it
does not get stuck: while not all threads have stopped, one of them gets an item into the
queue or out of it by its own steps, or all have stopped then. The queue is neither full
with nobody to empty it, for as many shutdowns are missing as consumers go on, nor empty
with nobody to fill it.
-/

namespace Winnow

/-- The steps for an entry: three to queue a file and three of the consumer that has it. -/
def entryWork : WalkEntry → Nat
  | .ok _ => 6
  | .error _ => 1

def Producer.work (n : Nat) : Producer → Nat
  | .walking rest => (rest.map entryWork).sum + (2 * n + 3)
  | .sending _ false rest => (rest.map entryWork).sum + (2 * n + 8)
  | .sending _ true rest => (rest.map entryWork).sum + (2 * n + 7)
  | .closing left false => 2 * left + 2
  | .closing left true => 2 * left + 1
  | .stopped => 0

def Phase.work : Phase → Nat
  | .ready => 2
  | .checked => 1
  | .scanning _ => 3
  | .stopped => 0

namespace Pool

namespace Event

def isStep : Event → Bool
  | step _ => true
  | _ => false

def isTimeOut : Event → Bool
  | timeOut _ => true
  | _ => false

end Event

def work (p : Pool) : Nat :=
  p.producer.work p.consumers.length + 3 * (files p.queue.items).length +
    (p.consumers.map (·.phase.work)).sum

variable {search : String → Except Error Bool} {entries : List WalkEntry} {n : Nat}
  {p q r : Pool} {e : Event} {t : Thread}

theorem sum_map_set (f : Consumer → Nat) {cs : List Consumer} {i : Nat} {c : Consumer}
    (hc : cs[i]? = some c) (d : Consumer) :
    ((cs.set i d).map f).sum + f c = (cs.map f).sum + f d := by
  induction cs generalizing i with
  | nil => simp at hc
  | cons b cs ih =>
    cases i with
    | zero =>
      cases hc
      simp only [List.set_cons_zero, List.map_cons, List.sum_cons]
      omega
    | succ i =>
      have hi := ih hc
      simp only [List.set_cons_succ, List.map_cons, List.sum_cons]
      omega

@[simp] theorem files_file (path : String) : (files [.file path]).length = 1 := rfl

@[simp] theorem files_shutdown : (files [.shutdown]).length = 0 := rfl

section Work

variable {i : Nat} {c d : Consumer} {next : Producer} {a : Item} {rest : List Item}

theorem work_producer_lt (next : Producer)
    (h : next.work p.consumers.length < p.producer.work p.consumers.length) :
    work { p with producer := next } < p.work := by
  simp only [work]
  omega

theorem work_sends_lt (h : next.work p.consumers.length + 3 * (files [a]).length <
    p.producer.work p.consumers.length) : (p.sends a next).work < p.work := by
  have hf : (files (p.queue.items ++ [a])).length =
      (files p.queue.items).length + (files [a]).length := by
    rw [files, List.filterMap_append, List.length_append]
    rfl
  simp only [work, sends, hf]
  omega

theorem work_setConsumer (hc : p.consumers[i]? = some c) (d : Consumer) :
    (p.setConsumer i d).work + c.phase.work = p.work + d.phase.work := by
  have hsum := sum_map_set (·.phase.work) hc d
  simp only [work, setConsumer, List.length_set]
  omega

theorem work_setConsumer_lt (hc : p.consumers[i]? = some c) (h : d.phase.work < c.phase.work) :
    (p.setConsumer i d).work < p.work := by
  have hd := work_setConsumer hc d
  omega

theorem work_takes_lt (hc : p.consumers[i]? = some c) (first : p.queue.items = a :: rest)
    (h : d.phase.work < c.phase.work + 3 * (files [a]).length) :
    (p.takes i a rest d).work < p.work := by
  have hf : (files p.queue.items).length = (files [a]).length + (files rest).length := by
    rw [first, ← List.singleton_append, files, List.filterMap_append, List.length_append]
    rfl
  have hsum := sum_map_set (·.phase.work) hc d
  simp only [work, takes, List.length_set, hf]
  omega

theorem work_scan_lt {path : String} (hc : p.consumers[i]? = some c)
    (state : c.phase = .scanning path) : (p.scan search i c path).work < p.work := by
  have hready (d : Consumer) (hd : d.phase = .ready) : (p.setConsumer i d).work < p.work :=
    work_setConsumer_lt hc (by simp [state, hd, Phase.work])
  unfold scan
  split
  · exact hready _ rfl
  · exact hready _ rfl
  · exact hready _ rfl

end Work

/-- A step takes from the work that is left, and a time-out puts back one step. -/
theorem Move.work_le (m : Move search p e q) :
    q.work + (if e.isStep then 1 else 0) ≤ p.work + if e.isTimeOut then 1 else 0 := by
  cases m with
  | close state _ => exact work_producer_lt _ (by simp only [state, Producer.work]; omega)
  | @walk e rest state _ =>
    cases e with
    | ok path =>
      refine work_producer_lt (.sending path false rest) ?_
      simp only [state, Producer.work, List.map_cons, List.sum_cons, entryWork]
      omega
    | error e =>
      refine work_producer_lt (.walking rest) ?_
      simp only [state, Producer.work, List.map_cons, List.sum_cons, entryWork]
      omega
  | giveUp state _ => exact work_producer_lt _ (by simp only [state, Producer.work]; omega)
  | lookToSend state _ => exact work_producer_lt _ (by simp only [state, Producer.work]; omega)
  | @sendFile path rest state _ =>
    have h : (p.sends (.file path) (.walking rest)).work < p.work :=
      work_sends_lt (by simp only [state, Producer.work, files_file]; omega)
    exact h
  | @finish checked state =>
    refine work_producer_lt _ ?_
    cases checked <;> simp only [state, Producer.work] <;> omega
  | abandon state _ => exact work_producer_lt _ (by simp only [state, Producer.work]; omega)
  | lookToClose state _ => exact work_producer_lt _ (by simp only [state, Producer.work]; omega)
  | sendShutdown state _ =>
    exact work_sends_lt (by simp only [state, Producer.work, files_shutdown]; omega)
  | quit here state _ =>
    exact work_setConsumer_lt here (by simp only [state, Phase.work]; omega)
  | look here state _ =>
    exact work_setConsumer_lt here (by simp only [state, Phase.work]; omega)
  | takeFile here state first =>
    exact work_takes_lt here first (by simp only [state, Phase.work, files_file]; omega)
  | takeShutdown here state first =>
    exact work_takes_lt here first (by simp only [state, Phase.work, files_shutdown]; omega)
  | scan here state => exact work_scan_lt here state
  | retrySend state =>
    simp only [work, state, Producer.work, Event.isStep, Event.isTimeOut, Bool.false_eq_true,
      ↓reduceIte]
    omega
  | retryClose state =>
    simp only [work, state, Producer.work, Event.isStep, Event.isTimeOut, Bool.false_eq_true,
      ↓reduceIte]
    omega
  | @retryTake i c here state =>
    have h := work_setConsumer here { c with phase := .ready }
    simp only [state, Phase.work] at h
    exact Nat.le_of_eq (Nat.succ.inj h)
  | cancel => exact Nat.le_refl _

theorem work_exec_le {es : List Event} (h : p.exec? search es = some q) :
    q.work + es.countP Event.isStep ≤ p.work + es.countP Event.isTimeOut := by
  induction es generalizing p with
  | nil =>
    cases h
    exact Nat.le_refl _
  | cons e es ih =>
    obtain ⟨r, hr, h⟩ := Option.bind_eq_some_iff.1 h
    have hmove := (move_of_step? hr).work_le
    have hrest := ih h
    rw [List.countP_cons, List.countP_cons]
    omega

theorem work_start (walk : Except Error (List WalkEntry)) (n capacity : Nat) :
    (start walk n capacity).work ≤ 6 * (walk.toOption.getD []).length + (4 * n + 3) := by
  have hentries (es : List WalkEntry) : (es.map entryWork).sum ≤ 6 * es.length := by
    induction es with
    | nil => exact Nat.le_refl _
    | cons e es ih =>
      have he : entryWork e ≤ 6 := by
        cases e <;> simp [entryWork]
      simp only [List.map_cons, List.sum_cons, List.length_cons]
      omega
  have hwalk := hentries (walk.toOption.getD [])
  have hready : ((List.replicate n Consumer.start).map (·.phase.work)).sum = 2 * n := by
    rw [List.map_replicate, List.sum_replicate_nat]
    simp only [Consumer.start, Phase.work]
    omega
  simp only [work, start, Producer.work, List.length_replicate, hready]
  change _ + 3 * 0 + 2 * n ≤ _
  omega

/-- By its own steps a thread gets an item into the queue or out of it. -/
def GetsThrough (search : String → Except Error Bool) (p : Pool) (t : Thread) : Prop :=
  ∃ k r, p.exec? search (List.replicate k (.step t)) = some r ∧
    p.sent.length + p.taken.length < r.sent.length + r.taken.length

namespace GetsThrough

theorem of_step (h : p.step? search (.step t) = some q)
    (hlt : p.sent.length + p.taken.length < q.sent.length + q.taken.length) :
    p.GetsThrough search t :=
  ⟨1, q, by rw [List.replicate_one, exec?, h]; rfl, hlt⟩

theorem after_step (h : p.step? search (.step t) = some q) (sent_eq : q.sent = p.sent)
    (taken_eq : q.taken = p.taken) (hq : q.GetsThrough search t) : p.GetsThrough search t := by
  obtain ⟨k, r, hr, hlt⟩ := hq
  refine ⟨k + 1, r, ?_, ?_⟩
  · rw [List.replicate_succ, exec?, h]
    exact hr
  · rwa [sent_eq, taken_eq] at hlt

theorem enabled (h : p.GetsThrough search t) : (p.step? search (.step t)).isSome = true := by
  obtain ⟨k, r, hr, hlt⟩ := h
  cases k with
  | zero =>
    cases hr
    exact absurd hlt (Nat.lt_irrefl _)
  | succ k =>
    obtain ⟨q, hq, -⟩ := Option.bind_eq_some_iff.1 hr
    rw [hq]
    rfl

section Producer

variable {rest : List WalkEntry} {path : String} {left : Nat}

theorem sending_checked (room : p.queue.isFull = false)
    (state : p.producer = .sending path true rest) : p.GetsThrough search .producer := by
  refine of_step (q := { p.sends (.file path) (.walking rest) with
    walked := p.walked + { Summary.zero with queued := 1 } }) ?_ ?_
  · simp [step?, produce?, state, send?, Queue.send?, room, sends]
  · simp only [sends, List.length_append, List.length_singleton]
    omega

theorem sending (active : p.queue.cancelled = false) (room : p.queue.isFull = false)
    {checked : Bool} (state : p.producer = .sending path checked rest) :
    p.GetsThrough search .producer := by
  cases checked with
  | true => exact sending_checked room state
  | false =>
    have h : p.step? search (.step .producer) =
        some { p with producer := .sending path true rest } := by
      simp [step?, produce?, state, active]
    refine after_step h rfl rfl ?_
    exact sending_checked (p := { p with producer := .sending path true rest }) room rfl

theorem closing_checked (room : p.queue.isFull = false)
    (state : p.producer = .closing (left + 1) true) : p.GetsThrough search .producer := by
  refine of_step (q := p.sends .shutdown (.closing left false)) ?_ ?_
  · simp [step?, produce?, state, send?, Queue.send?, room, sends]
  · simp only [sends, List.length_append, List.length_singleton]
    omega

theorem closing (active : p.queue.cancelled = false) (room : p.queue.isFull = false)
    {checked : Bool} (state : p.producer = .closing (left + 1) checked) :
    p.GetsThrough search .producer := by
  cases checked with
  | true => exact closing_checked room state
  | false =>
    have h : p.step? search (.step .producer) =
        some { p with producer := .closing (left + 1) true } := by
      simp [step?, produce?, state, active]
    refine after_step h rfl rfl ?_
    exact closing_checked (p := { p with producer := .closing (left + 1) true }) room rfl

theorem walking (active : p.queue.cancelled = false) (room : p.queue.isFull = false)
    (hn : 0 < p.consumers.length) (state : p.producer = .walking rest) :
    p.GetsThrough search .producer := by
  induction rest generalizing p with
  | nil =>
    obtain ⟨m, hm⟩ := Nat.exists_eq_succ_of_ne_zero (Nat.ne_of_gt hn)
    have h : p.step? search (.step .producer) = some p.close := by
      simp [step?, produce?, state]
    have hclose : p.close.producer = .closing (m + 1) false := by simp [close, hm]
    refine after_step h rfl rfl ?_
    exact closing (p := p.close) active room hclose
  | cons e rest ih =>
    have h : p.step? search (.step .producer) = some (p.walk rest e) := by
      simp [step?, produce?, state, active]
    cases e with
    | ok path =>
      refine after_step h rfl rfl ?_
      exact sending (p := p.walk rest (.ok path)) active room rfl
    | error e =>
      refine after_step h rfl rfl ?_
      exact ih (p := p.walk rest (.error e)) active room hn rfl

end Producer

section Consumer

variable {i : Nat} {c : Consumer}

theorem checked (hc : p.consumers[i]? = some c) (state : c.phase = .checked)
    (hne : p.queue.items ≠ []) : p.GetsThrough search (.consumer i) := by
  obtain ⟨a, rest, first⟩ := List.exists_cons_of_ne_nil hne
  have hlt (d : Consumer) : p.sent.length + p.taken.length <
      (p.takes i a rest d).sent.length + (p.takes i a rest d).taken.length := by
    simp only [takes, List.length_append, List.length_singleton]
    omega
  cases a with
  | file path =>
    refine of_step (q := p.takes i (.file path) rest
      ⟨.scanning path, c.summary + { Summary.zero with scanned := 1 }⟩) ?_ (hlt _)
    simp [step?, consume?, hc, state, take?, Queue.receive?, first, takes, Pool.setConsumer]
  | shutdown =>
    refine of_step (q := p.takes i .shutdown rest { c with phase := .stopped }) ?_ (hlt _)
    simp [step?, consume?, hc, state, take?, Queue.receive?, first, takes, Pool.setConsumer]

theorem getElem?_setConsumer (hc : p.consumers[i]? = some c) (d : Consumer) :
    (p.setConsumer i d).consumers[i]? = some d :=
  List.getElem?_set_self (List.getElem?_eq_some_iff.1 hc).1

theorem ready (active : p.queue.cancelled = false) (hc : p.consumers[i]? = some c)
    (state : c.phase = .ready) (hne : p.queue.items ≠ []) :
    p.GetsThrough search (.consumer i) := by
  have h : p.step? search (.step (.consumer i)) =
      some (p.setConsumer i { c with phase := .checked }) := by
    simp [step?, consume?, hc, state, active]
  exact after_step h rfl rfl (checked (getElem?_setConsumer hc _) rfl hne)

theorem scanning {path : String} (active : p.queue.cancelled = false)
    (hc : p.consumers[i]? = some c) (state : c.phase = .scanning path)
    (hne : p.queue.items ≠ []) : p.GetsThrough search (.consumer i) := by
  have h : p.step? search (.step (.consumer i)) = some (p.scan search i c path) := by
    simp [step?, consume?, hc, state]
  cases hsearch : search path with
  | error e =>
    simp only [scan, hsearch] at h
    exact after_step h rfl rfl (ready active (getElem?_setConsumer hc _) rfl hne)
  | ok found =>
    cases found with
    | true =>
      simp only [scan, hsearch] at h
      exact after_step h rfl rfl (ready active (getElem?_setConsumer hc _) rfl hne)
    | false =>
      simp only [scan, hsearch] at h
      exact after_step h rfl rfl (ready active (getElem?_setConsumer hc _) rfl hne)

theorem consumer (active : p.queue.cancelled = false) (hc : p.consumers[i]? = some c)
    (running : c.phase ≠ .stopped) (hne : p.queue.items ≠ []) :
    p.GetsThrough search (.consumer i) := by
  cases state : c.phase with
  | ready => exact ready active hc state hne
  | checked => exact checked hc state hne
  | scanning path => exact scanning active hc state hne
  | stopped => exact absurd state running

end Consumer

end GetsThrough

end Pool

end Winnow
