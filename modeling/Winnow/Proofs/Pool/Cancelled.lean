import Winnow.Proofs.Pool.Outcome
import Winnow.Proofs.Pool.Scans

/-!
# A pool that is cancelled

The flag may be set at any time, also between a look at it and the attempt that follows.
What was queued is taken in order and scanned once all the same, though not all of it
need be. From then on no thread waits for another: it has three steps and time-outs of its
own at most, one of them can always be taken, and at most one of them gets an item into
the queue or out of it, since an attempt after that begins with a look at the flag.
-/

namespace Winnow

def Producer.stepsLeft : Producer → Nat
  | .walking _ | .sending _ false _ | .closing _ true => 2
  | .sending _ true _ => 3
  | .closing _ false => 1
  | .stopped => 0

def Producer.isTrying : Producer → Bool
  | .sending _ true _ | .closing _ true => true
  | .walking _ | .sending _ false _ | .closing _ false | .stopped => false

def Phase.stepsLeft : Phase → Nat
  | .ready => 1
  | .checked => 3
  | .scanning _ => 2
  | .stopped => 0

def Phase.isTrying : Phase → Bool
  | .checked => true
  | .ready | .scanning _ | .stopped => false

namespace Pool

variable {search : String → Except Error Bool} {entries : List WalkEntry} {n : Nat}
  {p q : Pool} {e : Event} {t : Thread} {es : List Event} {done : List (Nat × Item)}

def Event.isOf (t : Thread) : Event → Bool
  | step u | timeOut u => u == t
  | cancel => false

def HasStopped (p : Pool) : Thread → Prop
  | .producer => p.producer = .stopped
  | .consumer i => ∀ c, p.consumers[i]? = some c → c.phase = .stopped

def stepsLeft (p : Pool) : Thread → Nat
  | .producer => p.producer.stepsLeft
  | .consumer i => (p.consumers[i]?).elim 0 (·.phase.stepsLeft)

def isTrying (p : Pool) : Thread → Bool
  | .producer => p.producer.isTrying
  | .consumer i => (p.consumers[i]?).any (·.phase.isTrying)

/-- How many items a thread has got into the queue or out of it. -/
def deeds (p : Pool) : Thread → Nat
  | .producer => p.sent.length
  | .consumer i => p.taken.countP (·.1 == i)

theorem stepsLeft_le (p : Pool) (t : Thread) : p.stepsLeft t ≤ 3 := by
  cases t with
  | producer =>
    change p.producer.stepsLeft ≤ 3
    unfold Producer.stepsLeft
    split <;> omega
  | consumer i =>
    simp only [stepsLeft]
    cases p.consumers[i]? with
    | none => exact Nat.zero_le 3
    | some c =>
      change c.phase.stepsLeft ≤ 3
      unfold Phase.stepsLeft
      split <;> omega

/-- What an event does to the steps that a thread has left and to its deeds. -/
structure Winds (t : Thread) (own : Bool) (p q : Pool) : Prop where
  stepsLeft_le : q.stepsLeft t + own.toNat ≤ p.stepsLeft t
  deeds_le : q.deeds t + (q.isTrying t).toNat ≤ p.deeds t + (p.isTrying t).toNat

namespace Winds

theorem of_producer (consumers_eq : q.consumers = p.consumers) (taken_eq : q.taken = p.taken)
    (hs : q.producer.stepsLeft < p.producer.stepsLeft)
    (hd : q.sent.length + q.producer.isTrying.toNat ≤
      p.sent.length + p.producer.isTrying.toNat) : Winds t (.producer == t) p q := by
  cases t with
  | producer => exact ⟨hs, hd⟩
  | consumer i =>
    refine ⟨?_, ?_⟩
    · simp [stepsLeft, consumers_eq]
    · simp [deeds, isTrying, taken_eq, consumers_eq]

theorem of_consumer {i : Nat} {c d : Consumer} {new : List (Nat × Item)}
    (hc : p.consumers[i]? = some c) (producer_eq : q.producer = p.producer)
    (sent_eq : q.sent = p.sent) (consumers_eq : q.consumers = p.consumers.set i d)
    (taken_eq : q.taken = p.taken ++ new) (hnew : ∀ x ∈ new, x.1 = i)
    (hs : d.phase.stepsLeft < c.phase.stepsLeft)
    (hd : new.length + d.phase.isTrying.toNat ≤ c.phase.isTrying.toNat) :
    Winds t (.consumer i == t) p q := by
  cases t with
  | producer =>
    refine ⟨?_, ?_⟩
    · simp [stepsLeft, producer_eq]
    · simp [deeds, isTrying, sent_eq, producer_eq]
  | consumer j =>
    by_cases hij : i = j
    · subst hij
      have hq : q.consumers[i]? = some d := by
        rw [consumers_eq]
        exact List.getElem?_set_self (List.getElem?_eq_some_iff.1 hc).1
      have hcount : new.countP (·.1 == i) = new.length :=
        List.countP_eq_length.2 fun x hx => by simp [hnew x hx]
      refine ⟨?_, ?_⟩
      · simpa [stepsLeft, hc, hq] using Nat.succ_le_of_lt hs
      · simp only [deeds, isTrying, hc, hq, taken_eq, List.countP_append, hcount, Option.any_some]
        omega
    · have hq : q.consumers[j]? = p.consumers[j]? := by
        rw [consumers_eq, List.getElem?_set_ne hij]
      have hcount : new.countP (·.1 == j) = 0 :=
        List.countP_eq_zero.2 fun x hx => by simp [hnew x hx, hij]
      refine ⟨?_, ?_⟩
      · simp [stepsLeft, hq, hij]
      · simp [deeds, isTrying, hq, taken_eq, hcount]

end Winds

theorem Move.cancelled (m : Move search p e q) (hc : p.queue.cancelled = true) :
    q.queue.cancelled = true := by
  cases m with
  | @walk e _ _ _ => cases e <;> exact hc
  | scan _ _ =>
    unfold Pool.scan
    split <;> exact hc
  | cancel => rfl
  | _ => exact hc

theorem Move.winds (m : Move search p e q) (hc : p.queue.cancelled = true) (t : Thread) :
    Winds t (e.isOf t) p q := by
  cases m with
  | close state _ =>
    exact .of_producer rfl rfl (by simp [Pool.close, state, Producer.stepsLeft])
      (by simp [Pool.close, Producer.isTrying])
  | walk _ active => simp [hc] at active
  | giveUp state _ =>
    exact .of_producer rfl rfl (by simp [Pool.close, state, Producer.stepsLeft])
      (by simp [Pool.close, Producer.isTrying])
  | lookToSend _ active => simp [hc] at active
  | sendFile state _ =>
    exact .of_producer rfl rfl (by simp [sends, state, Producer.stepsLeft])
      (by simp [sends, state, Producer.isTrying])
  | @finish checked state =>
    refine .of_producer rfl rfl ?_ ?_
    · cases checked <;> simp [state, Producer.stepsLeft]
    · simp [Producer.isTrying]
  | abandon state _ =>
    exact .of_producer rfl rfl (by simp [state, Producer.stepsLeft]) (by simp [Producer.isTrying])
  | lookToClose _ active => simp [hc] at active
  | sendShutdown state _ =>
    exact .of_producer rfl rfl (by simp [sends, state, Producer.stepsLeft])
      (by simp [sends, state, Producer.isTrying])
  | quit here state _ =>
    exact .of_consumer here rfl rfl rfl (List.append_nil _).symm (by simp)
      (by simp [state, Phase.stepsLeft]) (by simp [Phase.isTrying])
  | look _ _ active => simp [hc] at active
  | takeFile here state _ =>
    exact .of_consumer here rfl rfl rfl rfl (by simp) (by simp [state, Phase.stepsLeft])
      (by simp [state, Phase.isTrying])
  | takeShutdown here state _ =>
    exact .of_consumer here rfl rfl rfl rfl (by simp) (by simp [state, Phase.stepsLeft])
      (by simp [state, Phase.isTrying])
  | scan here state =>
    unfold Pool.scan
    split <;> exact .of_consumer here rfl rfl rfl (List.append_nil _).symm (by simp)
      (by simp [state, Phase.stepsLeft]) (by simp [Phase.isTrying])
  | retrySend state =>
    exact .of_producer rfl rfl (by simp [state, Producer.stepsLeft]) (by simp [Producer.isTrying])
  | retryClose state =>
    exact .of_producer rfl rfl (by simp [state, Producer.stepsLeft]) (by simp [Producer.isTrying])
  | retryTake here state =>
    exact .of_consumer here rfl rfl rfl (List.append_nil _).symm (by simp)
      (by simp [state, Phase.stepsLeft]) (by simp [Phase.isTrying])
  | cancel => exact ⟨Nat.le_refl _, Nat.le_refl _⟩

theorem exec_winds (hc : p.queue.cancelled = true) (h : p.exec? search es = some q) (t : Thread) :
    q.stepsLeft t + es.countP (Event.isOf t) ≤ p.stepsLeft t ∧
      q.deeds t + (q.isTrying t).toNat ≤ p.deeds t + (p.isTrying t).toNat := by
  induction es generalizing p with
  | nil =>
    cases h
    exact ⟨Nat.le_refl _, Nat.le_refl _⟩
  | cons e es ih =>
    obtain ⟨r, hr, h⟩ := Option.bind_eq_some_iff.1 h
    have hmove := move_of_step? hr
    have hwinds := hmove.winds hc t
    obtain ⟨hs, hd⟩ := ih (hmove.cancelled hc) h
    refine ⟨?_, hd.trans hwinds.deeds_le⟩
    have hle := hwinds.stepsLeft_le
    rw [List.countP_cons]
    cases he : e.isOf t <;>
    simp only [he, Bool.toNat_true, Bool.toNat_false] at hle <;> simp <;> omega

theorem exists_own_event (search : String → Except Error Bool) (h : ¬p.HasStopped t) :
    ∃ e, Event.isOf t e = true ∧ (p.step? search e).isSome = true := by
  cases t with
  | producer =>
    have step (hp : p.produce?.isSome = true) : ∃ e, Event.isOf .producer e = true ∧
        (p.step? search e).isSome = true := ⟨.step .producer, rfl, hp⟩
    have timeOut (hp : (p.timeOut? .producer).isSome = true) : ∃ e,
        Event.isOf .producer e = true ∧ (p.step? search e).isSome = true :=
      ⟨.timeOut .producer, rfl, hp⟩
    cases state : p.producer with
    | walking rest => cases rest <;> exact step (by simp [produce?, state])
    | sending path checked rest =>
      cases checked with
      | false => exact step (by simp [produce?, state])
      | true => exact timeOut (by simp [timeOut?, state])
    | closing left checked =>
      cases checked with
      | false => cases left <;> exact step (by simp [produce?, state])
      | true => exact timeOut (by simp [timeOut?, state])
    | stopped => exact absurd state h
  | consumer i =>
    obtain ⟨c, hc⟩ := not_forall.1 h
    obtain ⟨here, hs⟩ := Classical.not_imp.1 hc
    cases state : c.phase with
    | ready =>
      exact ⟨.step (.consumer i), beq_self_eq_true _, by simp [step?, consume?, here, state]⟩
    | checked =>
      obtain ⟨phase, summary⟩ := c
      cases state
      exact ⟨.timeOut (.consumer i), beq_self_eq_true _, by simp [step?, timeOut?, here]⟩
    | scanning path =>
      exact ⟨.step (.consumer i), beq_self_eq_true _, by simp [step?, consume?, here, state]⟩
    | stopped => exact absurd state hs

theorem exists_stop (search : String → Except Error Bool) (hc : p.queue.cancelled = true)
    (t : Thread) : ∃ fs r, (∀ e ∈ fs, Event.isOf t e = true) ∧ p.exec? search fs = some r ∧
      r.HasStopped t := by
  induction hw : p.stepsLeft t using Nat.strong_induction_on generalizing p with
  | _ w ih =>
    by_cases hs : p.HasStopped t
    · exact ⟨[], p, by simp, rfl, hs⟩
    · obtain ⟨e, hown, he⟩ := exists_own_event search hs
      obtain ⟨r, hr⟩ := Option.isSome_iff_exists.1 he
      have hmove := move_of_step? hr
      have hlt := (hmove.winds hc t).stepsLeft_le
      rw [hown, hw] at hlt
      obtain ⟨fs, s, hfs, hexec, hstop⟩ := ih _ hlt (hmove.cancelled hc) rfl
      refine ⟨e :: fs, s, List.forall_mem_cons.2 ⟨hown, hfs⟩, ?_, hstop⟩
      rw [exec?, hr]
      exact hexec

theorem cancelled_of_mem (hc : .cancel ∈ es) (h : p.exec? search es = some q) :
    q.queue.cancelled = true := by
  have keeps {p q : Pool} {es : List Event} (hp : p.queue.cancelled = true)
      (h : p.exec? search es = some q) : q.queue.cancelled = true :=
    Reaches.invariant ⟨es, h⟩ hp fun _ _ _ hr hs => (move_of_step? hs).cancelled hr
  induction es generalizing p with
  | nil => simp at hc
  | cons e es ih =>
    obtain ⟨r, hr, h⟩ := Option.bind_eq_some_iff.1 h
    rcases List.mem_cons.1 hc with rfl | hc
    · cases hr
      exact keeps rfl h
    · exact ih hc h

namespace Recorded

theorem scanned_perm (h : q.Recorded search entries n done) (hf : q.isFinal = true) :
    (files (done.map Prod.snd)).Perm (files (q.taken.map Prod.snd)) := by
  have heq : (List.range n).flatMap (filesOf done) = (List.range n).flatMap (filesOf q.taken) := by
    refine List.flatMap_congr fun i hi => ?_
    have hlt : i < q.consumers.length := h.length_eq ▸ List.mem_range.1 hi
    have hk := (h.keeps i _ (List.getElem?_eq_getElem hlt)).scanned
    rw [(isFinal_iff.1 hf).2 _ (List.getElem_mem hlt)] at hk
    simpa [Phase.path?] using hk
  have hdone := flatMap_filesOf done h.done_lt
  rw [heq] at hdone
  exact hdone.symm.trans (flatMap_filesOf q.taken h.taken_lt)

theorem summary_eq (h : q.Recorded search entries n done) :
    q.report.summary =
      { Summary.ofScans search (files (q.taken.map Prod.snd)) (files (done.map Prod.snd)) with
        queued := (files q.sent).length
        walkErrors := q.walked.walkErrors
        cancelled := q.queue.cancelled } := by
  have hsum := Summary.foldl_ofScans (fun i c hc => (h.keeps i c hc).counted) .zero
  have htaken := flatMap_filesOf q.taken h.taken_lt
  have hdone := flatMap_filesOf done h.done_lt
  rw [Summary.zero_add, h.length_eq, Summary.ofScans_perm search htaken hdone] at hsum
  have hwalked := h.walked_eq
  rw [report, hsum, hwalked]
  simp [Summary.add_def, Summary.ofScans, Summary.zero]

theorem files_taken_prefix (h : q.Recorded search entries n done) :
    files (q.taken.map Prod.snd) <+: files q.sent := by
  rw [← h.flow, files_append]
  exact List.prefix_append _ _

end Recorded

/-- However a cancelled run goes on, what was queued is taken in its order, by one consumer
each, and scanned once at most; the sink has the matches of these scans and the summary
counts no more scans than files queued. And no thread waits for another any more. -/
theorem exec_cancelled {capacity : Nat} (hc : .cancel ∈ es)
    (h : (start (.ok entries) n capacity).exec? search es = some q) :
    ((q.taken.map Prod.snd ++ q.queue.items = q.sent ∧ files q.sent <+: filesAmong entries) ∧
      files (q.taken.map Prod.snd) <+: files q.sent ∧
      (∀ i c, q.consumers[i]? = some c →
        filesOf ((start (.ok entries) n capacity).scans search es) i ++ c.phase.path?.toList =
          filesOf q.taken i) ∧
      q.found = (files (((start (.ok entries) n capacity).scans search es).map Prod.snd)).filter
        (isFound search)) ∧
    (q.isFinal = true → ∃ r, q.result? = some (.ok r) ∧ r.found = q.found ∧
      (files (((start (.ok entries) n capacity).scans search es).map Prod.snd)).Perm
        (files (q.taken.map Prod.snd)) ∧
      r.summary.queued = (files q.sent).length ∧
      r.summary.scanned = (files (q.taken.map Prod.snd)).length ∧
      r.summary.matched = r.found.length ∧
      r.summary.matched + r.summary.fileErrors ≤ r.summary.scanned ∧
      r.summary.scanned ≤ r.summary.queued ∧ r.summary.cancelled = true) ∧
    ∀ t, (∃ fs r, (∀ e ∈ fs, Event.isOf t e = true) ∧ q.exec? search fs = some r ∧
        r.HasStopped t) ∧
      ∀ fs r, q.exec? search fs = some r →
        (r.HasStopped t ∨ ∃ e, Event.isOf t e = true ∧ (r.step? search e).isSome = true) ∧
        fs.countP (Event.isOf t) ≤ 3 ∧ r.deeds t ≤ q.deeds t + 1 := by
  have hcancelled := cancelled_of_mem hc h
  have hr := (recorded_start search entries n capacity).exec h
  rw [List.nil_append] at hr
  refine ⟨⟨⟨hr.flow, (List.prefix_append _ _).trans hr.ahead⟩, hr.files_taken_prefix,
    fun i c hi => (hr.keeps i c hi).scanned, hr.found_eq⟩, fun hf => ?_, fun t => ?_⟩
  · have hperm := hr.scanned_perm hf
    have hsummary := hr.summary_eq
    have hle := Summary.matched_add_fileErrors_le search (files (q.taken.map Prod.snd))
      (files (((start (.ok entries) n capacity).scans search es).map Prod.snd))
    refine ⟨q.report, ?_, rfl, hperm, ?_, ?_, ?_, ?_, ?_, hcancelled⟩
    · rw [result?, hf, rootFault_exec h]
      rfl
    · rw [hsummary]
    · rw [hsummary]
      rfl
    · rw [hsummary]
      change List.countP _ _ = q.found.length
      rw [hr.found_eq, List.countP_eq_length_filter]
    · rw [hsummary]
      exact hle.trans_eq hperm.length_eq
    · rw [hsummary]
      exact hr.files_taken_prefix.length_le
  · refine ⟨exists_stop search hcancelled t, fun fs r hfs => ⟨?_, ?_, ?_⟩⟩
    · by_cases hs : r.HasStopped t
      · exact .inl hs
      · exact .inr (exists_own_event search hs)
    · have hwinds := (exec_winds hcancelled hfs t).1
      have hle := q.stepsLeft_le t
      omega
    · have hwinds := (exec_winds hcancelled hfs t).2
      have hle := Bool.toNat_le (q.isTrying t)
      omega

/-- The walking thread looks, the queue is cancelled, and `b` is queued all the same. No
consumer takes it any more. -/
theorem exec_cancelled_of_late_push :
    ∃ (search : String → Except Error Bool) (entries : List WalkEntry) (es : List Event) (q : Pool)
      (r : Report), .cancel ∈ es ∧
      (start (.ok entries) 2 2).exec? search es = some q ∧ q.isFinal = true ∧
      q.sent = [.file "a", .file "b"] ∧ q.queue.items = [.file "b"] ∧
      q.result? = some (.ok r) ∧ r.found = ["a"] ∧ r.summary = ⟨2, 1, 1, 0, 0, true⟩ := by
  let search (_ : String) : Except Error Bool := .ok true
  let entries : List WalkEntry := [.ok "a", .ok "b", .ok "c"]
  let es : List Event := [.step .producer, .step .producer, .step .producer, .step .producer,
    .step (.consumer 0), .step (.consumer 1), .step .producer, .step (.consumer 0), .cancel,
    .step .producer, .step (.consumer 0), .timeOut (.consumer 1), .step .producer,
    .step (.consumer 1), .step (.consumer 0), .step .producer]
  have hc : .cancel ∈ es := by decide
  have hend : ((start (.ok entries) 2 2).exec? search es).any (fun q => q.isFinal &&
      (q.sent == [.file "a", .file "b"] && q.queue.items == [.file "b"]) &&
      (q.report.summary == ⟨2, 1, 1, 0, 0, true⟩ && q.found == ["a"])) = true := by
    decide +kernel
  obtain ⟨q, h, hq⟩ := (Option.any_eq_true _ _).1 hend
  simp only [Bool.and_eq_true, beq_iff_eq] at hq
  obtain ⟨⟨hf, hsent, hitems⟩, hsummary, hfound⟩ := hq
  obtain ⟨r, hr, hrfound, -⟩ := (exec_cancelled hc h).2.1 hf
  have hreport : q.report = r := by
    rw [result?, hf, rootFault_exec h] at hr
    exact Except.ok.inj (Option.some.inj hr)
  exact ⟨search, entries, es, q, r, hc, h, hf, hsent, hitems, hr, hrfound.trans hfound,
    hreport ▸ hsummary⟩

end Pool

end Winnow
