import Mathlib.Data.List.Basic
import Winnow.Proofs.Pool.Moves

/-!
# What goes through the queue, and in which order

The plan of a run is the files of the walk and then a shutdown for each consumer. As long
as nobody cancels, what was sent and what the walking thread has left make up the plan,
and what was taken and what is queued make up what was sent. A consumer has taken a
shutdown exactly if it has stopped, and then one. So no file is ever queued behind a
shutdown, and when all threads have stopped the whole plan was taken.
-/

namespace Winnow

def filesAmong (entries : List WalkEntry) : List String := entries.filterMap Except.toOption

def plan (entries : List WalkEntry) (n : Nat) : List Item :=
  (filesAmong entries).map .file ++ List.replicate n .shutdown

def Producer.left (n : Nat) : Producer → List Item
  | .walking rest => plan rest n
  | .sending path _ rest => .file path :: plan rest n
  | .closing left _ => List.replicate left .shutdown
  | .stopped => []

@[simp] theorem plan_nil (n : Nat) : plan [] n = List.replicate n .shutdown := rfl

@[simp] theorem plan_ok (path : String) (rest : List WalkEntry) (n : Nat) :
    plan (.ok path :: rest) n = .file path :: plan rest n := rfl

@[simp] theorem plan_error (e : Error) (rest : List WalkEntry) (n : Nat) :
    plan (.error e :: rest) n = plan rest n := rfl

theorem pairwise_plan (entries : List WalkEntry) (n : Nat) :
    (plan entries n).Pairwise fun a b => a = .shutdown → b = .shutdown := by
  refine List.pairwise_append.2 ⟨?_, ?_, ?_⟩
  · rw [List.pairwise_map]
    exact List.pairwise_of_forall fun _ _ h => Item.noConfusion h
  · exact List.pairwise_replicate.2 (Or.inr fun h => h)
  · intro a ha b hb _
    exact List.eq_of_mem_replicate hb

theorem count_shutdown_plan (entries : List WalkEntry) (n : Nat) :
    (plan entries n).count .shutdown = n := by
  rw [plan, List.count_append, List.count_replicate_self, List.count_eq_zero.2 (by simp),
    Nat.zero_add]

theorem files_plan (entries : List WalkEntry) (n : Nat) :
    Pool.files (plan entries n) = filesAmong entries := by
  have hs : Pool.files (List.replicate n .shutdown) = [] := by
    induction n with
    | zero => rfl
    | succ n ih => exact ih
  have hf (xs : List String) : Pool.files (xs.map .file) = xs := by
    induction xs with
    | nil => rfl
    | cons x xs ih => exact congrArg (x :: ·) ih
  have ha (xs ys : List Item) : Pool.files (xs ++ ys) = Pool.files xs ++ Pool.files ys :=
    List.filterMap_append
  rw [plan, ha, hf, hs, List.append_nil]

namespace Pool

variable {search : String → Except Error Bool} {entries : List WalkEntry} {n : Nat} {p q : Pool}
  {e : Event}

structure Orderly (entries : List WalkEntry) (n : Nat) (p : Pool) : Prop where
  active : p.queue.cancelled = false
  capacity_pos : 0 < p.queue.capacity
  length_eq : p.consumers.length = n
  flow : p.taken.map Prod.snd ++ p.queue.items = p.sent
  left : p.sent ++ p.producer.left n = plan entries n
  taken_lt : ∀ x ∈ p.taken, x.1 < n
  took : ∀ i c, p.consumers[i]? = some c →
    p.taken.count (i, .shutdown) = if c.phase = .stopped then 1 else 0
  took_all : (p.taken.map Prod.snd).count .shutdown = p.consumers.countP (·.phase == .stopped)

theorem orderly_start (walk : Except Error (List WalkEntry)) (n capacity : Nat) :
    (start walk n capacity).Orderly (walk.toOption.getD []) n where
  active := rfl
  capacity_pos := Queue.one_le_capacity_empty capacity
  length_eq := List.length_replicate
  flow := rfl
  left := rfl
  taken_lt := by simp [start]
  took i c hc := by
    have hm := List.mem_of_getElem? hc
    cases List.eq_of_mem_replicate hm
    rfl
  took_all := by simp [start, List.countP_replicate, Consumer.start]

namespace Orderly

theorem congr (h : p.Orderly entries n) (queue_eq : q.queue = p.queue) (sent_eq : q.sent = p.sent)
    (taken_eq : q.taken = p.taken) (left_eq : q.producer.left n = p.producer.left n)
    (consumers_eq : q.consumers = p.consumers) : q.Orderly entries n where
  active := queue_eq ▸ h.active
  capacity_pos := queue_eq ▸ h.capacity_pos
  length_eq := consumers_eq ▸ h.length_eq
  flow := by rw [queue_eq, sent_eq, taken_eq, h.flow]
  left := by rw [sent_eq, left_eq, h.left]
  taken_lt := taken_eq ▸ h.taken_lt
  took := by rw [taken_eq, consumers_eq]; exact h.took
  took_all := by rw [taken_eq, consumers_eq, h.took_all]

theorem lt_of_getElem? (h : p.Orderly entries n) {i : Nat} {c : Consumer}
    (hc : p.consumers[i]? = some c) : i < n :=
  h.length_eq ▸ (List.getElem?_eq_some_iff.1 hc).1

theorem countP_set {cs : List Consumer} {i : Nat} {c : Consumer} (hc : cs[i]? = some c)
    (hs : c.phase ≠ .stopped) (d : Consumer) :
    (cs.set i d).countP (·.phase == .stopped) =
      cs.countP (·.phase == .stopped) + if d.phase = .stopped then 1 else 0 := by
  obtain ⟨hi, rfl⟩ := List.getElem?_eq_some_iff.1 hc
  rw [List.countP_set hi]
  simp [hs]

theorem setConsumer (h : p.Orderly entries n) {i : Nat} {c d : Consumer}
    (hc : p.consumers[i]? = some c) (hs : c.phase ≠ .stopped) (hd : d.phase ≠ .stopped) :
    (p.setConsumer i d).Orderly entries n where
  active := h.active
  capacity_pos := h.capacity_pos
  length_eq := List.length_set.trans h.length_eq
  flow := h.flow
  left := h.left
  taken_lt := h.taken_lt
  took j c' hj := by
    change (p.consumers.set i d)[j]? = some c' at hj
    change p.taken.count (j, .shutdown) = _
    by_cases hij : i = j
    · subst hij
      rw [List.getElem?_set_self (List.getElem?_eq_some_iff.1 hc).1] at hj
      cases hj
      rw [h.took i c hc, if_neg hs, if_neg hd]
    · rw [List.getElem?_set_ne hij] at hj
      exact h.took j c' hj
  took_all := by
    change (p.taken.map Prod.snd).count .shutdown = (p.consumers.set i d).countP _
    rw [countP_set hc hs, if_neg hd, h.took_all]
    rfl

theorem takes (h : p.Orderly entries n) {i : Nat} {c d : Consumer} {a : Item} {rest : List Item}
    (hc : p.consumers[i]? = some c) (hs : c.phase ≠ .stopped) (first : p.queue.items = a :: rest)
    (hd : d.phase = .stopped ↔ a = .shutdown) : (p.takes i a rest d).Orderly entries n where
  active := h.active
  capacity_pos := h.capacity_pos
  length_eq := List.length_set.trans h.length_eq
  flow := by
    change (p.taken ++ [(i, a)]).map Prod.snd ++ rest = p.sent
    rw [← h.flow, first]
    simp
  left := h.left
  taken_lt x hx := by
    rcases List.mem_append.1 hx with hx | hx
    · exact h.taken_lt x hx
    · cases List.mem_singleton.1 hx
      exact h.lt_of_getElem? hc
  took j c' hj := by
    change (p.consumers.set i d)[j]? = some c' at hj
    change (p.taken ++ [(i, a)]).count (j, .shutdown) = _
    rw [List.count_append, List.count_singleton]
    by_cases hij : i = j
    · subst hij
      rw [List.getElem?_set_self (List.getElem?_eq_some_iff.1 hc).1] at hj
      cases hj
      rw [h.took i c hc, if_neg hs]
      simp [hd]
    · rw [List.getElem?_set_ne hij] at hj
      rw [h.took j c' hj]
      simp [hij]
  took_all := by
    change ((p.taken ++ [(i, a)]).map Prod.snd).count .shutdown = (p.consumers.set i d).countP _
    rw [countP_set hc hs, List.map_append, List.count_append, h.took_all]
    simp [List.count_singleton, hd]

theorem sends (h : p.Orderly entries n) {a : Item} {next : Producer}
    (hleft : p.producer.left n = a :: next.left n) : (p.sends a next).Orderly entries n where
  active := h.active
  capacity_pos := h.capacity_pos
  length_eq := h.length_eq
  flow := by
    change p.taken.map Prod.snd ++ (p.queue.items ++ [a]) = p.sent ++ [a]
    rw [← List.append_assoc, h.flow]
  left := by
    change (p.sent ++ [a]) ++ next.left n = plan entries n
    rw [← h.left, hleft]
    simp
  taken_lt := h.taken_lt
  took := h.took
  took_all := h.took_all

theorem move (h : p.Orderly entries n) (m : Move search p e q) (he : e ≠ .cancel) :
    q.Orderly entries n := by
  cases m with
  | close state ended =>
    have hrest := ended.resolve_right (by simp [h.active])
    refine h.congr rfl rfl rfl ?_ rfl
    simp [close, state, hrest, Producer.left, h.length_eq]
  | @walk e rest state _ =>
    cases e with
    | ok path => exact h.congr rfl rfl rfl (by simp [walk, state, Producer.left]) rfl
    | error e => exact h.congr rfl rfl rfl (by simp [walk, state, Producer.left]) rfl
  | giveUp _ cancelled => simp [h.active] at cancelled
  | lookToSend state _ => exact h.congr rfl rfl rfl (by simp [state, Producer.left]) rfl
  | @sendFile path rest state _ =>
    have hs : (p.sends (.file path) (.walking rest)).Orderly entries n :=
      h.sends (by simp [state, Producer.left])
    exact hs.congr rfl rfl rfl rfl rfl
  | finish state => exact h.congr rfl rfl rfl (by simp [state, Producer.left]) rfl
  | abandon _ cancelled => simp [h.active] at cancelled
  | lookToClose state _ => exact h.congr rfl rfl rfl (by simp [state, Producer.left]) rfl
  | sendShutdown state _ => exact h.sends (by simp [state, Producer.left, List.replicate_succ])
  | quit _ _ cancelled => simp [h.active] at cancelled
  | look here state _ => exact h.setConsumer here (by simp [state]) (by simp)
  | takeFile here state first => exact h.takes here (by simp [state]) first (by simp)
  | takeShutdown here state first => exact h.takes here (by simp [state]) first (by simp)
  | @scan i c path here state =>
    have hs : c.phase ≠ .stopped := by simp [state]
    unfold scan
    split
    · exact (h.setConsumer here hs (by simp)).congr rfl rfl rfl rfl rfl
    · exact h.setConsumer here hs (by simp)
    · exact (h.setConsumer here hs (by simp)).congr rfl rfl rfl rfl rfl
  | retrySend state => exact h.congr rfl rfl rfl (by simp [state, Producer.left]) rfl
  | retryClose state => exact h.congr rfl rfl rfl (by simp [state, Producer.left]) rfl
  | retryTake here state => exact h.setConsumer here (by simp [state]) (by simp)
  | cancel => exact absurd rfl he

theorem exec (h : p.Orderly entries n) {es : List Event} (hc : .cancel ∉ es)
    (he : p.exec? search es = some q) : q.Orderly entries n := by
  induction es generalizing p with
  | nil =>
    cases he
    exact h
  | cons e es ih =>
    obtain ⟨r, hr, he⟩ := Option.bind_eq_some_iff.1 he
    rw [List.mem_cons, not_or] at hc
    exact ih (h.move (move_of_step? hr) (Ne.symm hc.1)) hc.2 he

theorem plan_eq (h : p.Orderly entries n) :
    plan entries n = p.taken.map Prod.snd ++ p.queue.items ++ p.producer.left n := by
  rw [h.flow, h.left]

theorem pairwise_items (h : p.Orderly entries n) :
    p.queue.items.Pairwise fun a b => a = .shutdown → b = .shutdown := by
  have hp := pairwise_plan entries n
  rw [h.plan_eq] at hp
  exact (List.pairwise_append.1 (List.pairwise_append.1 hp).1).2.1

theorem count_shutdown (h : p.Orderly entries n) :
    p.consumers.countP (·.phase == .stopped) + p.queue.items.count .shutdown +
      (p.producer.left n).count .shutdown = n := by
  rw [← h.took_all, ← List.count_append, ← List.count_append, ← h.plan_eq, count_shutdown_plan]

theorem exists_running (h : p.Orderly entries n)
    (hlt : p.consumers.countP (·.phase == .stopped) < n) :
    ∃ (i : Nat) (c : Consumer), p.consumers[i]? = some c ∧ c.phase ≠ .stopped := by
  by_contra hall
  have hstopped : ∀ c ∈ p.consumers, (c.phase == .stopped) = true := by
    intro c hc
    obtain ⟨i, hi⟩ := List.getElem?_of_mem hc
    by_contra hs
    exact hall ⟨i, c, hi, by simpa using hs⟩
  rw [List.countP_eq_length.2 hstopped, h.length_eq] at hlt
  exact Nat.lt_irrefl n hlt

theorem count_stopped_lt (h : p.Orderly entries n) {i : Nat} {c : Consumer}
    (hc : p.consumers[i]? = some c) (hs : c.phase ≠ .stopped) :
    p.consumers.countP (·.phase == .stopped) < n := by
  rw [← h.length_eq]
  refine Nat.lt_of_le_of_ne List.countP_le_length fun he => ?_
  have hall := List.countP_eq_length.1 he c (List.mem_of_getElem? hc)
  exact hs (by simpa using hall)

end Orderly

theorem isFinal_iff : p.isFinal = true ↔
    p.producer = .stopped ∧ ∀ c ∈ p.consumers, c.phase = .stopped := by
  unfold isFinal
  cases p.producer <;> simp

namespace Orderly

theorem count_stopped_of_isFinal (h : p.Orderly entries n) (hf : p.isFinal = true) :
    p.consumers.countP (·.phase == .stopped) = n := by
  rw [← h.length_eq]
  refine List.countP_eq_length.2 fun c hc => ?_
  simpa using (isFinal_iff.1 hf).2 c hc

/-- When all threads have stopped, the whole plan was taken. -/
theorem taken_of_isFinal (h : p.Orderly entries n) (hn : 0 < n) (hf : p.isFinal = true) :
    p.taken.map Prod.snd = plan entries n ∧ p.queue.items = [] := by
  have hplan := h.plan_eq
  have hcount := h.count_shutdown
  rw [h.count_stopped_of_isFinal hf] at hcount
  rw [(isFinal_iff.1 hf).1, Producer.left, List.append_nil] at hplan
  have hitems : p.queue.items = [] := by
    -- the plan ends with a shutdown, and none is queued any more
    by_contra hne
    have hlast : p.queue.items.getLast hne = .shutdown := by
      have hg : (plan entries n).getLast? = some (p.queue.items.getLast hne) := by
        rw [hplan, List.getLast?_append, List.getLast?_eq_some_getLast hne]
        rfl
      rw [plan, List.getLast?_append, List.getLast?_replicate, if_neg (Nat.ne_of_gt hn)] at hg
      exact (Option.some.inj hg).symm
    have hpos : 0 < p.queue.items.count .shutdown :=
      List.count_pos_iff.2 (hlast ▸ List.getLast_mem hne)
    omega
  exact ⟨by rw [hplan, hitems, List.append_nil], hitems⟩

theorem count_taken_of_isFinal (h : p.Orderly entries n) (hf : p.isFinal = true) {i : Nat}
    (hi : i < n) : p.taken.count (i, .shutdown) = 1 := by
  have hlt : i < p.consumers.length := h.length_eq ▸ hi
  rw [h.took i _ (List.getElem?_eq_getElem hlt),
    if_pos ((isFinal_iff.1 hf).2 _ (List.getElem_mem hlt))]

end Orderly

section Files

theorem filesOf_cons_self (i : Nat) (path : String) (taken : List (Nat × Item)) :
    filesOf ((i, .file path) :: taken) i = path :: filesOf taken i := by
  simp [filesOf]

theorem filesOf_cons_of_ne {i j : Nat} (h : j ≠ i) (path : String) (taken : List (Nat × Item)) :
    filesOf ((j, .file path) :: taken) i = filesOf taken i := by
  simp [filesOf, h]

theorem filesOf_sublist (taken : List (Nat × Item)) (i : Nat) :
    (filesOf taken i).Sublist (files (taken.map Prod.snd)) := by
  induction taken with
  | nil => exact List.Sublist.refl _
  | cons x taken ih =>
    obtain ⟨j, a⟩ := x
    cases a with
    | shutdown => exact ih
    | file path =>
      by_cases hj : j = i
      · subst hj
        rw [filesOf_cons_self]
        exact ih.cons_cons path
      · rw [filesOf_cons_of_ne hj]
        exact ih.cons path

theorem flatMap_filesOf_cons (taken : List (Nat × Item)) (path : String) {j : Nat} {is : List Nat}
    (hd : is.Nodup) (hj : j ∈ is) :
    (is.flatMap (filesOf ((j, .file path) :: taken))).Perm (path :: is.flatMap (filesOf taken)) := by
  induction is with
  | nil => simp at hj
  | cons i is ih =>
    obtain ⟨hi, hd⟩ := List.nodup_cons.1 hd
    rw [List.flatMap_cons, List.flatMap_cons]
    by_cases hij : j = i
    · subst hij
      have hrest : is.flatMap (filesOf ((j, .file path) :: taken)) = is.flatMap (filesOf taken) := by
        refine List.flatMap_congr fun k hk => ?_
        exact filesOf_cons_of_ne (fun e : j = k => hi (e ▸ hk)) path taken
      rw [filesOf_cons_self, hrest, List.cons_append]
    · rw [filesOf_cons_of_ne hij]
      have hm : j ∈ is := (List.mem_cons.1 hj).resolve_left hij
      exact ((ih hd hm).append_left _).trans List.perm_middle

theorem flatMap_filesOf (taken : List (Nat × Item)) {n : Nat} (h : ∀ x ∈ taken, x.1 < n) :
    ((List.range n).flatMap (filesOf taken)).Perm (files (taken.map Prod.snd)) := by
  induction taken with
  | nil =>
    have he : (List.range n).flatMap (filesOf []) = [] := by simp [filesOf]
    rw [he]
    exact .refl _
  | cons x taken ih =>
    obtain ⟨hx, htaken⟩ := List.forall_mem_cons.1 h
    obtain ⟨j, a⟩ := x
    cases a with
    | shutdown => exact ih htaken
    | file path =>
      have hc := flatMap_filesOf_cons taken path List.nodup_range (List.mem_range.2 hx)
      exact hc.trans ((ih htaken).cons path)

end Files

end Pool

end Winnow
