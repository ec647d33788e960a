import Winnow.Proofs.Pool.Progress

/-!
# The pool shuts down

Nobody cancelling, every run of the pool comes to an end, whatever the order of its steps
and however few places the queue has. Each consumer gets its shutdown and each file goes
to one consumer, in the order of the walk.
-/

namespace Winnow.Pool

variable {search : String → Except Error Bool} {entries : List WalkEntry} {n : Nat} {p q : Pool}

namespace Orderly

theorem items_ne_nil_of_full (h : p.Orderly entries n) (full : p.queue.isFull = true) :
    p.queue.items ≠ [] := by
  have hpos := h.capacity_pos
  rw [Queue.isFull, decide_eq_true_eq] at full
  exact List.length_pos_iff.1 (Nat.lt_of_lt_of_le hpos full)

theorem walking_thread_cases (search : String → Except Error Bool) (h : p.Orderly entries n)
    (hn : 0 < n) :
    p.producer = .stopped ∨ (∃ checked, p.producer = .closing 0 checked) ∨
      0 < (p.producer.left n).count .shutdown ∧
        (p.queue.isFull = false → p.GetsThrough search .producer) := by
  have hlength : 0 < p.consumers.length := h.length_eq ▸ hn
  cases state : p.producer with
  | walking rest =>
    refine Or.inr (Or.inr ⟨?_, fun room => .walking h.active room hlength state⟩)
    rwa [Producer.left, count_shutdown_plan]
  | sending path checked rest =>
    refine Or.inr (Or.inr ⟨?_, fun room => .sending h.active room state⟩)
    rwa [Producer.left, List.count_cons_of_ne (by simp), count_shutdown_plan]
  | closing left checked =>
    cases left with
    | zero => exact Or.inr (Or.inl ⟨checked, rfl⟩)
    | succ left =>
      refine Or.inr (Or.inr ⟨?_, fun room => .closing h.active room state⟩)
      rw [Producer.left, List.count_replicate_self]
      exact Nat.succ_pos left
  | stopped => exact Or.inl rfl

theorem getsThrough_of_left (h : p.Orderly entries n)
    (room : p.queue.isFull = false → p.GetsThrough search .producer)
    (left : 0 < (p.producer.left n).count .shutdown) : ∃ t, p.GetsThrough search t := by
  cases hf : p.queue.isFull with
  | false => exact ⟨_, room hf⟩
  | true =>
    have hcount := h.count_shutdown
    obtain ⟨i, c, hc, hs⟩ := h.exists_running (by omega)
    exact ⟨_, .consumer h.active hc hs (h.items_ne_nil_of_full hf)⟩

theorem getsThrough_of_running (h : p.Orderly entries n) (left : p.producer.left n = [])
    (running : ¬∀ c ∈ p.consumers, c.phase = .stopped) : ∃ t, p.GetsThrough search t := by
  have hcount := h.count_shutdown
  rw [left, List.count_nil] at hcount
  obtain ⟨c, hc, hs⟩ := not_forall₂.1 running
  obtain ⟨i, hi⟩ := List.getElem?_of_mem hc
  have hlt := h.count_stopped_lt hi hs
  have hpos : 0 < p.queue.items.count .shutdown := by omega
  exact ⟨_, .consumer h.active hi hs (List.ne_nil_of_mem (List.count_pos_iff.1 hpos))⟩

/-- Some thread gets an item through, or the walking thread is the last to stop. -/
theorem progress (h : p.Orderly entries n) (hn : 0 < n) (hf : p.isFinal = false) :
    (∃ t, p.GetsThrough search t) ∨
      ∃ r, p.step? search (.step .producer) = some r ∧ r.isFinal = true := by
  rcases h.walking_thread_cases search hn with state | ⟨checked, state⟩ | ⟨left, room⟩
  · have running : ¬∀ c ∈ p.consumers, c.phase = .stopped := by
      intro hall
      rw [isFinal_iff.2 ⟨state, hall⟩] at hf
      cases hf
    exact Or.inl (h.getsThrough_of_running (by rw [state, Producer.left]) running)
  · by_cases hall : ∀ c ∈ p.consumers, c.phase = .stopped
    · refine Or.inr ⟨{ p with producer := .stopped }, ?_, isFinal_iff.2 ⟨rfl, hall⟩⟩
      simp only [step?, produce?, state]
    · exact Or.inl (h.getsThrough_of_running (by rw [state, Producer.left]; rfl) hall)
  · exact Or.inl (h.getsThrough_of_left room left)

end Orderly

/-- Whatever the order of the steps, the pool does not get stuck, it does not run on
forever, no file is queued behind a shutdown, and at the end each consumer has taken one
shutdown and each file was taken once, in the order of the walk. -/
theorem exec_shutdown {walk : Except Error (List WalkEntry)} {capacity : Nat} {es : List Event}
    (hn : 0 < n) (hc : .cancel ∉ es) (h : (start walk n capacity).exec? search es = some q) :
    (q.isFinal = false → ∃ t, (q.step? search (.step t)).isSome = true ∧
      (q.GetsThrough search t ∨ ∃ r, q.step? search (.step t) = some r ∧ r.isFinal = true)) ∧
    es.countP Event.isStep ≤
      6 * (walk.toOption.getD []).length + (4 * n + 3) + es.countP Event.isTimeOut ∧
    (q.queue.items.Pairwise fun a b => a = .shutdown → b = .shutdown) ∧
    (q.isFinal = true → q.queue.items = [] ∧
      (∀ i < n, q.taken.count (i, .shutdown) = 1) ∧
      ((List.range n).flatMap (filesOf q.taken)).Perm (filesAmong (walk.toOption.getD [])) ∧
      ∀ i, (filesOf q.taken i).Sublist (filesAmong (walk.toOption.getD []))) := by
  have ho := (orderly_start walk n capacity).exec hc h
  refine ⟨fun hf => ?_, ?_, ho.pairwise_items, fun hf => ?_⟩
  · rcases ho.progress hn hf with ⟨t, ht⟩ | ⟨r, hr, hfinal⟩
    · exact ⟨t, ht.enabled, Or.inl ht⟩
    · exact ⟨.producer, by rw [hr]; rfl, Or.inr ⟨r, hr, hfinal⟩⟩
  · have hwork := work_exec_le h
    have hstart := work_start walk n capacity
    omega
  · obtain ⟨htaken, hitems⟩ := ho.taken_of_isFinal hn hf
    have hfiles : files (q.taken.map Prod.snd) = filesAmong (walk.toOption.getD []) := by
      rw [htaken, files_plan]
    refine ⟨hitems, fun i hi => ho.count_taken_of_isFinal hf hi, ?_, fun i => ?_⟩
    · rw [← hfiles]
      exact flatMap_filesOf q.taken ho.taken_lt
    · rw [← hfiles]
      exact filesOf_sublist q.taken i

theorem exec_shutdown_of_one_place :
    ∃ es q, .cancel ∉ es ∧
      (start (.ok [.ok "a"]) 2 1).exec? (fun _ => .ok true) es = some q ∧ q.isFinal = true ∧
      q.queue.items = [] ∧ ∀ i < 2, q.taken.count (i, .shutdown) = 1 :=
  let es : List Event := List.replicate 5 (.step .producer) ++
    List.replicate 2 (.step (.consumer 0)) ++ [.step .producer] ++
    List.replicate 2 (.step (.consumer 1)) ++ List.replicate 3 (.step .producer) ++
    List.replicate 3 (.step (.consumer 0))
  have h : (start (.ok [.ok "a"]) 2 1).exec? (fun _ => .ok true) es = some _ := rfl
  have hq := (exec_shutdown (by decide) (by decide) h).2.2.2 rfl
  ⟨es, _, by decide, h, rfl, hq.1, hq.2.1⟩

end Winnow.Pool
