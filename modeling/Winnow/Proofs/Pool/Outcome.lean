import Winnow.Proofs.Pool.Account
import Winnow.Proofs.Pool.Shutdown
import Winnow.Proofs.Tree.PathOrder

/-!
# What a run of the pool reports

In whatever order its threads step, a run that nobody cancels comes to an end, and its
report is that of one pass over the entries but for the order of paths and faults. Where
the root could not be walked its error is the result, once every consumer has got its
shutdown.
-/

namespace Winnow

@[simp] theorem filesAmong_ok (path : String) (rest : List WalkEntry) :
    filesAmong (.ok path :: rest) = path :: filesAmong rest := rfl

@[simp] theorem filesAmong_error (e : Error) (rest : List WalkEntry) :
    filesAmong (.error e :: rest) = filesAmong rest := rfl

def fault? (search : String → Except Error Bool) : WalkEntry → Option Error
  | .error e => some e
  | .ok path =>
    match search path with
    | .error e => some e
    | .ok _ => none

namespace Report

def expected (search : String → Except Error Bool) (entries : List WalkEntry) : Report where
  summary := {
    queued := (filesAmong entries).length
    scanned := (filesAmong entries).length
    matched := (filesAmong entries).countP fun path => (search path).toOption = some true
    fileErrors := (filesAmong entries).countP fun path => !(search path).isOk
    walkErrors := entries.countP fun e => !e.isOk
    cancelled := false }
  found := (filesAmong entries).filter fun path => (search path).toOption = some true
  faults := entries.filterMap (fault? search)

theorem append_assoc (a b c : Report) : (a.append b).append c = a.append (b.append c) := by
  simp only [append, Summary.add_assoc, List.append_assoc]

theorem append_expected (search : String → Except Error Bool) (e : WalkEntry)
    (rest : List WalkEntry) :
    (ofEntry search e).append (expected search rest) = expected search (e :: rest) := by
  have hok (b : Bool) : (Except.ok b : Except Error Bool).toOption = some b := rfl
  have herror (e : Error) : (Except.error e : Except Error Bool).toOption = none := rfl
  cases e with
  | error e =>
    simp [ofEntry, append, expected, empty, Summary.add_def, Summary.zero, fault?, Except.isOk,
      Except.toBool, Nat.add_comm]
  | ok path =>
    rcases hr : search path with e | found
    · simp [ofEntry, ofScan, append, expected, empty, Summary.add_def, Summary.zero, fault?,
        herror, Except.isOk, Except.toBool, Nat.add_comm, hr]
    · cases found <;>
      simp [ofEntry, ofScan, append, expected, empty, Summary.add_def, Summary.zero, fault?,
        hok, Except.isOk, Except.toBool, Nat.add_comm, hr]

theorem append_empty (r : Report) : r.append empty = r := by
  simp [append, empty]

theorem ofEntries_eq (search : String → Except Error Bool) (entries : List WalkEntry) :
    ofEntries search entries = expected search entries := by
  have go (r : Report) : entries.foldl (fun r e => r.append (ofEntry search e)) r =
      r.append (expected search entries) := by
    induction entries generalizing r with
    | nil => exact (append_empty r).symm
    | cons e rest ih => rw [List.foldl_cons, ih, append_assoc, append_expected]
  rw [ofEntries, go]
  simp [append, empty]

/-- The same but for the order of paths and faults. -/
structure Agrees (a b : Report) : Prop where
  summary_eq : a.summary = b.summary
  found_perm : a.found.Perm b.found
  faults_perm : a.faults.Perm b.faults

theorem agrees_of_tally {a b : Report} (h : a.tally = b.tally) : a.Agrees b where
  summary_eq := congrArg Prod.fst h
  found_perm := Multiset.coe_eq_coe.1 (congrArg (fun t : Tally => t.2.1) h)
  faults_perm := Multiset.coe_eq_coe.1 (congrArg (fun t : Tally => t.2.2) h)

end Report

namespace Pool

variable {search : String → Except Error Bool} {entries : List WalkEntry} {n : Nat} {p q : Pool}
  {es : List Event}

theorem account_start (walk : Except Error (List WalkEntry)) (n capacity : Nat) :
    (start walk n capacity).account search =
      ((walk.toOption.getD []).map (.ofEntry search)).sum := by
  have hsum : ((List.replicate n Consumer.start).map (Consumer.account search)).sum = 0 := by
    rw [List.map_replicate, List.sum_replicate]
    exact nsmul_zero n
  rw [account]
  change 0 + _ + 0 + ((List.replicate n Consumer.start).map (Consumer.account search)).sum = _
  rw [hsum, zero_add, add_zero, add_zero]
  rfl

theorem sum_account_stopped {cs : List Consumer} (h : ∀ c ∈ cs, c.phase = .stopped) (s : Summary) :
    .of s [] [] + (cs.map (Consumer.account search)).sum =
      .of (cs.foldl (fun s c => s + c.summary) s) [] [] := by
  induction cs generalizing s with
  | nil => exact add_zero _
  | cons c cs ih =>
    obtain ⟨hc, hcs⟩ := List.forall_mem_cons.1 h
    have hacc : c.account search = .of c.summary [] [] := by
      rw [Consumer.account, hc, Phase.owed, add_zero]
    rw [List.map_cons, List.sum_cons, List.foldl_cons, ← ih hcs, Tally.of_add, hacc, add_assoc]

namespace Orderly

theorem account_exec (h : p.Orderly entries n) (hc : .cancel ∉ es)
    (he : p.exec? search es = some q) : q.account search = p.account search := by
  induction es generalizing p with
  | nil =>
    cases he
    rfl
  | cons e es ih =>
    obtain ⟨r, hr, he⟩ := Option.bind_eq_some_iff.1 he
    rw [List.mem_cons, not_or] at hc
    have hmove := move_of_step? hr
    rw [ih (h.move hmove (Ne.symm hc.1)) hc.2 he, hmove.account_eq h.active]

theorem account_of_isFinal (h : q.Orderly entries n) (hn : 0 < n) (hf : q.isFinal = true) :
    q.account search =
      .of (q.consumers.foldl (fun s c => s + c.summary) .zero + q.walked) q.found q.faults := by
  obtain ⟨hproducer, hconsumers⟩ := isFinal_iff.1 hf
  have hitems := (h.taken_of_isFinal hn hf).2
  have hcounted : (q.consumers.map (Consumer.account search)).sum =
      .of (q.consumers.foldl (fun s c => s + c.summary) .zero) [] [] :=
    (zero_add _).symm.trans (sum_account_stopped hconsumers .zero)
  rw [account, hproducer, hitems, hcounted, Producer.owed, List.map_nil, List.sum_nil, add_zero,
    add_zero, add_comm, ← Tally.of_append]
  rfl

theorem report_agrees (h : q.Orderly entries n) (hn : 0 < n) (hf : q.isFinal = true)
    (ha : q.account search = (entries.map (.ofEntry search)).sum) :
    q.report.Agrees (.ofEntries search entries) := by
  rw [← Report.tally_ofEntries, h.account_of_isFinal hn hf] at ha
  have hs := congrArg Prod.fst ha
  change q.consumers.foldl (fun s c => s + c.summary) .zero + q.walked =
    (Report.ofEntries search entries).summary at hs
  have hsummary : q.report.summary = (Report.ofEntries search entries).summary := by
    rw [report, h.active, hs, Report.ofEntries_eq]
    rfl
  apply Report.agrees_of_tally
  rw [← ha, Report.tally, hsummary, hs]
  rfl

theorem exists_final (search : String → Except Error Bool) (h : p.Orderly entries n) (hn : 0 < n) :
    ∃ es q, (∀ e ∈ es, Event.isStep e = true) ∧ p.exec? search es = some q ∧
      q.isFinal = true := by
  induction hw : p.work using Nat.strong_induction_on generalizing p with
  | _ w ih =>
    cases hf : p.isFinal with
    | true => exact ⟨[], p, fun _ he => absurd he List.not_mem_nil, rfl, hf⟩
    | false =>
      have hstep : ∃ t r, p.step? search (.step t) = some r := by
        rcases h.progress hn hf with ⟨t, ht⟩ | ⟨r, hr, -⟩
        · exact ⟨t, Option.isSome_iff_exists.1 ht.enabled⟩
        · exact ⟨.producer, r, hr⟩
      obtain ⟨t, r, hr⟩ := hstep
      have hmove := move_of_step? hr
      have hlt : r.work < w := hw ▸ hmove.work_le
      obtain ⟨es, q, hes, he, hq⟩ := ih r.work hlt (h.move hmove Event.noConfusion) rfl
      refine ⟨.step t :: es, q, List.forall_mem_cons.2 ⟨rfl, hes⟩, ?_, hq⟩
      rw [exec?, hr]
      exact he

end Orderly

theorem Move.rootFault_eq {e : Event} (m : Move search p e q) : q.rootFault = p.rootFault := by
  cases m with
  | @walk e _ _ _ => cases e <;> rfl
  | scan _ _ =>
    unfold Pool.scan
    split <;> rfl
  | _ => rfl

theorem rootFault_exec (h : p.exec? search es = some q) : q.rootFault = p.rootFault := by
  induction es generalizing p with
  | nil =>
    cases h
    rfl
  | cons e es ih =>
    obtain ⟨r, hr, h⟩ := Option.bind_eq_some_iff.1 h
    rw [ih h, (move_of_step? hr).rootFault_eq]

theorem consumerCount_pos (threads : Nat) : 0 < consumerCount threads := by
  unfold consumerCount
  omega

/-- Whatever the order of the steps, the threads can go on until all have stopped, they do
so within a number of steps, and the result is then that of one pass over the entries. The
paths that match come out in order, each as often as the walk has it, and mean the same one
by one however the threads stepped. -/
theorem exec_result {walk : Except Error (List WalkEntry)} {threads capacity : Nat}
    (hc : .cancel ∉ es)
    (h : (start walk (consumerCount threads) capacity).exec? search es = some q) :
    (∃ fs r, (∀ e ∈ fs, Event.isStep e = true) ∧ q.exec? search fs = some r ∧
      r.isFinal = true) ∧
    es.countP Event.isStep ≤ 6 * (walk.toOption.getD []).length +
      (4 * consumerCount threads + 3) + es.countP Event.isTimeOut ∧
    (q.isFinal = false → q.result? = none) ∧
    (q.isFinal = true →
      (∀ i < consumerCount threads, q.taken.count (i, .shutdown) = 1) ∧
      files (q.taken.map Prod.snd) = filesAmong (walk.toOption.getD []) ∧
      (∀ e, walk = .error e → q.result? = some (.error e)) ∧
      ∀ entries, walk = .ok entries → ∃ r, q.result? = some (.ok r) ∧
        r.Agrees (.ofEntries search entries) ∧ r.Agrees (.expected search entries) ∧
        (Path.sort r.found).Pairwise (fun a b => Path.le a b = true) ∧
        (Path.sort r.found).Perm (Report.expected search entries).found ∧
        (Path.sort r.found).map Path.meanings =
          (Path.sort (Report.expected search entries).found).map Path.meanings) := by
  have hn := consumerCount_pos threads
  have hstart := orderly_start walk (consumerCount threads) capacity
  have ho := hstart.exec hc h
  refine ⟨ho.exists_final search hn, ?_, fun hf => ?_, fun hf => ?_⟩
  · have hwork := work_exec_le h
    have hle := work_start walk (consumerCount threads) capacity
    omega
  · rw [result?, hf]
    exact if_neg Bool.false_ne_true
  · have hroot := rootFault_exec h
    refine ⟨fun i hi => ho.count_taken_of_isFinal hf hi, ?_, ?_, ?_⟩
    · rw [(ho.taken_of_isFinal hn hf).1, files_plan]
    · intro e he
      subst he
      rw [result?, hf, hroot]
      rfl
    · intro entries he
      subst he
      have hagrees : q.report.Agrees (.ofEntries search entries) := by
        apply ho.report_agrees hn hf
        rw [hstart.account_exec hc h, account_start]
      have hexpected : q.report.Agrees (.expected search entries) := by
        rwa [← Report.ofEntries_eq]
      exact ⟨q.report, by rw [result?, hf, hroot]; rfl, hagrees, hexpected,
        Path.pairwise_sort _, (Path.sort_perm _).trans hexpected.found_perm,
        Path.map_meanings_sort hexpected.found_perm⟩

theorem exec_result_of_failing_file :
    ∃ (search : String → Except Error Bool) (entries : List WalkEntry) (es : List Event) (q : Pool)
      (r : Report), .cancel ∉ es ∧
      (start (.ok entries) (consumerCount 3) 1).exec? search es = some q ∧ q.isFinal = true ∧
      q.result? = some (.ok r) ∧ r.Agrees (.expected search entries) ∧
      r.summary = ⟨3, 3, 2, 1, 1, false⟩ ∧ r.found.Perm ["c", "b"] ∧
      Path.sort r.found = ["b", "c"] := by
  let search (path : String) : Except Error Bool :=
    if path = "a" then .error (.file path .noDevice) else .ok true
  let entries : List WalkEntry := [.ok "b", .error (.walk "loop"), .ok "a", .ok "c"]
  let turns : List (Thread × Nat) := [(.producer, 3), (.consumer 0, 2), (.producer, 4),
    (.consumer 1, 3), (.consumer 0, 1), (.producer, 3), (.consumer 1, 2), (.producer, 3),
    (.consumer 0, 2), (.producer, 2), (.consumer 1, 3), (.producer, 1)]
  let es := turns.flatMap fun (t, k) => List.replicate k (Event.step t)
  have hc : .cancel ∉ es := by decide
  have hend : ((start (.ok entries) (consumerCount 3) 1).exec? search es).any isFinal = true := by
    decide +kernel
  obtain ⟨q, h, hf⟩ := (Option.any_eq_true _ _).1 hend
  obtain ⟨r, hr, -, hagrees, hsorted, hperm, -⟩ := ((exec_result hc h).2.2.2 hf).2.2.2 entries rfl
  have hsummary : (Report.expected search entries).summary = ⟨3, 3, 2, 1, 1, false⟩ := by
    decide +kernel
  have hfound : (Report.expected search entries).found.Perm ["c", "b"] := by
    decide +kernel
  have hpaths : (Path.sort r.found).Perm ["b", "c"] :=
    hperm.trans (hfound.trans (List.Perm.swap _ _ _))
  have hsort : Path.sort r.found = ["b", "c"] := by
    refine hpaths.eq_of_pairwise (fun a b ha hb => ?_) hsorted (by decide)
    have hantisymm : ∀ a ∈ ["b", "c"], ∀ b ∈ ["b", "c"], Path.le a b = true →
        Path.le b a = true → a = b := by
      decide
    exact hantisymm a (hpaths.mem_iff.1 ha) b hb
  exact ⟨search, entries, es, q, r, hc, h, hf, hr, hagrees, hagrees.summary_eq.trans hsummary,
    hagrees.found_perm.trans hfound, hsort⟩

end Pool

end Winnow
