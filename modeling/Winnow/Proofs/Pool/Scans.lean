import Winnow.Proofs.Pool.Progress

/-!
# What is scanned in a run

A run makes its scans one after the other, each by a consumer on the file that it took.
Cancelled or not, a consumer has scanned the files that it took, in that order, but for
the one that it is scanning; nothing is found but by a scan; and what was taken is the
first part of what was queued. So each queued file is scanned once at most, and the
counts of all threads are those of the files taken and of the scans made.
-/

namespace Winnow

def Phase.path? : Phase → Option String
  | .scanning path => some path
  | .ready | .checked | .stopped => none

def Producer.ahead : Producer → List String
  | .walking rest => filesAmong rest
  | .sending path _ rest => path :: filesAmong rest
  | .closing _ _ | .stopped => []

def isFound (search : String → Except Error Bool) (path : String) : Bool :=
  (search path).toOption = some true

def isFault (search : String → Except Error Bool) (path : String) : Bool := !(search path).isOk

namespace Summary

def ofScans (search : String → Except Error Bool) (taken scanned : List String) : Summary where
  queued := 0
  scanned := taken.length
  matched := scanned.countP (isFound search)
  fileErrors := scanned.countP (isFault search)
  walkErrors := 0
  cancelled := false

theorem ofScans_append (search : String → Except Error Bool) (xs xs' ys ys' : List String) :
    ofScans search (xs ++ xs') (ys ++ ys') = ofScans search xs ys + ofScans search xs' ys' := by
  simp [ofScans, add_def]

theorem ofScans_perm (search : String → Except Error Bool) {xs xs' ys ys' : List String}
    (hx : xs.Perm xs') (hy : ys.Perm ys') : ofScans search xs ys = ofScans search xs' ys' := by
  simp only [ofScans, hx.length_eq, hy.countP_eq]

theorem ofScans_ok {search : String → Except Error Bool} {path : String} {b : Bool}
    (h : search path = .ok b) :
    ofScans search [] [path] = { zero with matched := if b then 1 else 0 } := by
  cases b <;> simp [ofScans, zero, isFound, isFault, h, Except.toOption, Except.isOk, Except.toBool]

theorem ofScans_error {search : String → Except Error Bool} {path : String} {e : Error}
    (h : search path = .error e) : ofScans search [] [path] = { zero with fileErrors := 1 } := by
  simp [ofScans, zero, isFound, isFault, h, Except.toOption, Except.isOk, Except.toBool]

theorem matched_add_fileErrors_le (search : String → Except Error Bool) (xs ys : List String) :
    (ofScans search xs ys).matched + (ofScans search xs ys).fileErrors ≤ ys.length := by
  have hle : ys.countP (isFault search) ≤ ys.countP fun path => !isFound search path := by
    refine List.countP_mono_left fun path _ h => ?_
    cases hs : search path <;>
    simp_all [isFault, isFound, Except.isOk, Except.toBool, Except.toOption]
  have hlength := List.length_eq_countP_add_countP (isFound search) (l := ys)
  simp only [ofScans]
  simp only [Bool.not_eq_true, Bool.decide_eq_false] at hlength
  omega

theorem foldl_ofScans {search : String → Except Error Bool} {cs : List Consumer}
    {taken scanned : Nat → List String}
    (h : ∀ i c, cs[i]? = some c → c.summary = ofScans search (taken i) (scanned i)) (s : Summary) :
    cs.foldl (fun s c => s + c.summary) s = s + ofScans search
      ((List.range cs.length).flatMap taken) ((List.range cs.length).flatMap scanned) := by
  induction cs generalizing s taken scanned with
  | nil => exact (add_zero s).symm
  | cons c cs ih =>
    rw [List.foldl_cons, ih (fun i d hd => h (i + 1) d hd), h 0 c rfl, List.length_cons,
      List.range_succ_eq_map, List.flatMap_cons, List.flatMap_cons, List.flatMap_map,
      List.flatMap_map, ofScans_append, add_assoc]

end Summary

variable {search : String → Except Error Bool}

/-- A consumer has scanned the files that it took, but for the one that it is scanning, and
has counted both. -/
structure Consumer.Keeps (search : String → Except Error Bool) (taken done : List String)
    (c : Consumer) : Prop where
  scanned : done ++ c.phase.path?.toList = taken
  counted : c.summary = .ofScans search taken done

namespace Consumer.Keeps

variable {c d : Consumer} {taken done : List String} {path : String}

theorem start : Consumer.start.Keeps search [] [] := ⟨rfl, rfl⟩

theorem congr (h : c.Keeps search taken done) (path_eq : d.phase.path? = c.phase.path?)
    (summary_eq : d.summary = c.summary) : d.Keeps search taken done :=
  ⟨path_eq ▸ h.scanned, summary_eq.trans h.counted⟩

theorem take (h : c.Keeps search taken done) (idle : c.phase.path? = none) (path : String) :
    Keeps search (taken ++ [path]) done
      ⟨.scanning path, c.summary + { Summary.zero with scanned := 1 }⟩ := by
  have hdone : done = taken := by simpa [idle] using h.scanned
  refine ⟨congrArg (· ++ [path]) hdone, ?_⟩
  rw [h.counted, ← List.append_nil done, Summary.ofScans_append, List.append_nil]
  rfl

theorem scan (h : c.Keeps search taken done) (state : c.phase = .scanning path) {s : Summary}
    (hs : s = .ofScans search [] [path]) :
    Keeps search taken (done ++ [path]) ⟨.ready, c.summary + s⟩ := by
  have hdone : done ++ [path] = taken := by simpa [state, Phase.path?] using h.scanned
  refine ⟨(List.append_nil _).trans hdone, ?_⟩
  rw [h.counted, hs, ← Summary.ofScans_append, List.append_nil]

theorem set {cs : List Consumer} {i : Nat} {taken taken' done done' : Nat → List String}
    (h : ∀ (j : Nat) (b : Consumer), cs[j]? = some b → b.Keeps search (taken j) (done j))
    (hd : d.Keeps search (taken' i) (done' i))
    (others : ∀ j, i ≠ j → taken' j = taken j ∧ done' j = done j) (j : Nat) (b : Consumer)
    (hb : (cs.set i d)[j]? = some b) : b.Keeps search (taken' j) (done' j) := by
  by_cases hij : i = j
  · subst hij
    rw [List.getElem?_set_self'] at hb
    obtain ⟨-, -, rfl⟩ := Option.map_eq_some_iff.1 hb
    exact hd
  · rw [List.getElem?_set_ne hij] at hb
    rw [(others j hij).1, (others j hij).2]
    exact h j b hb

end Consumer.Keeps

namespace Pool

variable {entries : List WalkEntry} {n : Nat} {p q : Pool} {e : Event} {done : List (Nat × Item)}
  {i : Nat} {c d : Consumer} {a : Item} {path : String} {rest : List Item}

def scanOf (p : Pool) : Event → List (Nat × Item)
  | .step (.consumer i) =>
    (((p.consumers[i]?).bind (·.phase.path?)).toList).map fun path => (i, .file path)
  | .step .producer | .timeOut _ | .cancel => []

def scans (search : String → Except Error Bool) (p : Pool) : List Event → List (Nat × Item)
  | [] => []
  | e :: es => p.scanOf e ++ ((p.step? search e).map fun q => scans search q es).getD []

theorem files_append (xs ys : List Item) : files (xs ++ ys) = files xs ++ files ys :=
  List.filterMap_append

theorem filesOf_concat (taken : List (Nat × Item)) (i j : Nat) (a : Item) :
    filesOf (taken ++ [(i, a)]) j = filesOf taken j ++ if i = j then files [a] else [] := by
  rw [filesOf, List.filterMap_append]
  cases a with
  | file path => by_cases h : i = j <;> simp [filesOf, files, h]
  | shutdown => simp [filesOf, files]

theorem filesOf_concat_self (taken : List (Nat × Item)) (i : Nat) (a : Item) :
    filesOf (taken ++ [(i, a)]) i = filesOf taken i ++ files [a] := by
  rw [filesOf_concat, if_pos rfl]

theorem filesOf_concat_of_ne (taken : List (Nat × Item)) {i j : Nat} (h : i ≠ j) (a : Item) :
    filesOf (taken ++ [(i, a)]) j = filesOf taken j := by
  rw [filesOf_concat, if_neg h, List.append_nil]

theorem scanOf_of_idle (hc : p.consumers[i]? = some c) (idle : c.phase.path? = none) :
    p.scanOf (.step (.consumer i)) = [] := by
  simp [scanOf, hc, idle]

theorem scanOf_of_scanning (hc : p.consumers[i]? = some c) (state : c.phase = .scanning path) :
    p.scanOf (.step (.consumer i)) = [(i, .file path)] := by
  simp [scanOf, hc, state, Phase.path?]

/-- What a run has done when it has made some scans. -/
structure Recorded (search : String → Except Error Bool) (entries : List WalkEntry) (n : Nat)
    (done : List (Nat × Item)) (p : Pool) : Prop where
  length_eq : p.consumers.length = n
  flow : p.taken.map Prod.snd ++ p.queue.items = p.sent
  ahead : files p.sent ++ p.producer.ahead <+: filesAmong entries
  walked_eq : p.walked = { Summary.zero with
    queued := (files p.sent).length
    walkErrors := p.walked.walkErrors }
  taken_lt : ∀ x ∈ p.taken, x.1 < n
  done_lt : ∀ x ∈ done, x.1 < n
  keeps : ∀ (i : Nat) (c : Consumer), p.consumers[i]? = some c →
    c.Keeps search (filesOf p.taken i) (filesOf done i)
  found_eq : p.found = (files (done.map Prod.snd)).filter (isFound search)

theorem recorded_start (search : String → Except Error Bool) (entries : List WalkEntry)
    (n capacity : Nat) : (start (.ok entries) n capacity).Recorded search entries n [] where
  length_eq := List.length_replicate
  flow := rfl
  ahead := List.prefix_rfl
  walked_eq := rfl
  taken_lt := by simp [start]
  done_lt := by simp
  keeps i c hc := List.eq_of_mem_replicate (List.mem_of_getElem? hc) ▸ .start
  found_eq := rfl

namespace Recorded

theorem lt_of_getElem? (h : p.Recorded search entries n done) (hc : p.consumers[i]? = some c) :
    i < n :=
  h.length_eq ▸ (List.getElem?_eq_some_iff.1 hc).1

theorem congr (h : p.Recorded search entries n done) (items_eq : q.queue.items = p.queue.items)
    (sent_eq : q.sent = p.sent) (taken_eq : q.taken = p.taken) (found_eq : q.found = p.found)
    (consumers_eq : q.consumers = p.consumers) (ahead : q.producer.ahead <+: p.producer.ahead)
    (walked_eq : q.walked = { p.walked with walkErrors := q.walked.walkErrors }) :
    q.Recorded search entries n done where
  length_eq := consumers_eq ▸ h.length_eq
  flow := by rw [items_eq, sent_eq, taken_eq, h.flow]
  ahead := by
    rw [sent_eq]
    exact ((List.prefix_append_right_inj _).2 ahead).trans h.ahead
  walked_eq := by
    have hp := h.walked_eq
    rw [walked_eq, hp, sent_eq]
  taken_lt := taken_eq ▸ h.taken_lt
  done_lt := h.done_lt
  keeps := by rw [consumers_eq, taken_eq]; exact h.keeps
  found_eq := found_eq.trans h.found_eq

theorem sends (h : p.Recorded search entries n done) {next : Producer} {s : Summary}
    (ahead : p.producer.ahead = files [a] ++ next.ahead)
    (walked : s = { p.walked with queued := p.walked.queued + (files [a]).length }) :
    Recorded search entries n done { p.sends a next with walked := s } where
  length_eq := h.length_eq
  flow := by
    change p.taken.map Prod.snd ++ (p.queue.items ++ [a]) = p.sent ++ [a]
    rw [← List.append_assoc, h.flow]
  ahead := by
    change files (p.sent ++ [a]) ++ next.ahead <+: _
    rw [files_append, List.append_assoc, ← ahead]
    exact h.ahead
  walked_eq := by
    change s = { Summary.zero with
      queued := (files (p.sent ++ [a])).length
      walkErrors := s.walkErrors }
    have hp := h.walked_eq
    rw [walked, files_append, List.length_append, hp]
  taken_lt := h.taken_lt
  done_lt := h.done_lt
  keeps := h.keeps
  found_eq := h.found_eq

theorem setConsumer (h : p.Recorded search entries n done) (hc : p.consumers[i]? = some c)
    (path_eq : d.phase.path? = c.phase.path?) (summary_eq : d.summary = c.summary) :
    (p.setConsumer i d).Recorded search entries n done where
  length_eq := List.length_set.trans h.length_eq
  flow := h.flow
  ahead := h.ahead
  walked_eq := h.walked_eq
  taken_lt := h.taken_lt
  done_lt := h.done_lt
  keeps := .set h.keeps ((h.keeps i c hc).congr path_eq summary_eq) fun _ _ => ⟨rfl, rfl⟩
  found_eq := h.found_eq

theorem takes (h : p.Recorded search entries n done) (hc : p.consumers[i]? = some c)
    (first : p.queue.items = a :: rest)
    (hd : d.Keeps search (filesOf p.taken i ++ files [a]) (filesOf done i)) :
    (p.takes i a rest d).Recorded search entries n done where
  length_eq := List.length_set.trans h.length_eq
  flow := by
    change (p.taken ++ [(i, a)]).map Prod.snd ++ rest = p.sent
    rw [← h.flow, first]
    simp
  ahead := h.ahead
  walked_eq := h.walked_eq
  taken_lt x hx := by
    rcases List.mem_append.1 hx with hx | hx
    · exact h.taken_lt x hx
    · cases List.mem_singleton.1 hx
      exact h.lt_of_getElem? hc
  done_lt := h.done_lt
  keeps := by
    rw [← filesOf_concat_self] at hd
    exact .set h.keeps hd fun j hj => ⟨filesOf_concat_of_ne _ hj a, rfl⟩
  found_eq := h.found_eq

theorem ends (h : p.Recorded search entries n done) (hc : p.consumers[i]? = some c)
    (state : c.phase = .scanning path) (s : Summary) (found : List String) (faults : List Error)
    (hs : s = .ofScans search [] [path]) (hfound : found = [path].filter (isFound search)) :
    Recorded search entries n (done ++ [(i, .file path)])
      ({ p with found := p.found ++ found, faults := faults }.setConsumer i
        ⟨.ready, c.summary + s⟩) where
  length_eq := List.length_set.trans h.length_eq
  flow := h.flow
  ahead := h.ahead
  walked_eq := h.walked_eq
  taken_lt := h.taken_lt
  done_lt x hx := by
    rcases List.mem_append.1 hx with hx | hx
    · exact h.done_lt x hx
    · cases List.mem_singleton.1 hx
      exact h.lt_of_getElem? hc
  keeps := by
    have hd := (h.keeps i c hc).scan state hs
    refine .set h.keeps ?_ fun j hj => ⟨rfl, filesOf_concat_of_ne _ hj _⟩
    rw [filesOf_concat_self]
    exact hd
  found_eq := by
    change p.found ++ found = _
    rw [List.map_append, files_append, List.filter_append, h.found_eq, hfound]
    rfl

theorem scan (h : p.Recorded search entries n done) (hc : p.consumers[i]? = some c)
    (state : c.phase = .scanning path) :
    (p.scan search i c path).Recorded search entries n (done ++ [(i, .file path)]) := by
  have ends := h.ends hc state
  rcases hs : search path with e | b
  · have hsummary := Summary.ofScans_error hs
    have he := ends { Summary.zero with fileErrors := 1 } [] (p.faults ++ [e]) hsummary.symm
      (by simp [isFound, hs, Except.toOption])
    rw [List.append_nil] at he
    simpa only [Pool.scan, hs] using he
  · have hsummary := Summary.ofScans_ok hs
    have hfound : isFound search path = b := by simp [isFound, hs, Except.toOption]
    cases b with
    | true =>
      have he := ends { Summary.zero with matched := 1 } [path] p.faults hsummary.symm
        (by simp [hfound])
      simpa only [Pool.scan, hs] using he
    | false =>
      have he := ends .zero [] p.faults hsummary.symm (by simp [hfound])
      rw [List.append_nil, Summary.add_zero] at he
      simpa only [Pool.scan, hs] using he

theorem move (h : p.Recorded search entries n done) (m : Move search p e q) :
    q.Recorded search entries n (done ++ p.scanOf e) := by
  have h0 : p.Recorded search entries n (done ++ []) := by rwa [List.append_nil]
  cases m with
  | close _ _ => exact h0.congr rfl rfl rfl rfl rfl List.nil_prefix rfl
  | @walk e rest state _ =>
    cases e with
    | ok path => exact h0.congr rfl rfl rfl rfl rfl (by rw [state]; exact List.prefix_rfl) rfl
    | error e =>
      exact h0.congr rfl rfl rfl rfl rfl (by rw [state]; exact List.prefix_rfl)
        (by simp [walk, Summary.add_def, Summary.zero])
  | giveUp _ _ => exact h0.congr rfl rfl rfl rfl rfl List.nil_prefix rfl
  | lookToSend state _ =>
    exact h0.congr rfl rfl rfl rfl rfl (by rw [state]; exact List.prefix_rfl) rfl
  | sendFile state _ =>
    exact h0.sends (by rw [state]; rfl) (by rw [files_file]; simp [Summary.add_def, Summary.zero])
  | finish _ => exact h0.congr rfl rfl rfl rfl rfl List.nil_prefix rfl
  | abandon _ _ => exact h0.congr rfl rfl rfl rfl rfl List.nil_prefix rfl
  | lookToClose _ _ => exact h0.congr rfl rfl rfl rfl rfl List.nil_prefix rfl
  | sendShutdown state _ => exact h0.sends (s := p.walked) (by rw [state]; rfl) rfl
  | quit here state _ =>
    rw [scanOf_of_idle here (by rw [state]; rfl)]
    exact h0.setConsumer here (by rw [state]; rfl) rfl
  | look here state _ =>
    rw [scanOf_of_idle here (by rw [state]; rfl)]
    exact h0.setConsumer here (by rw [state]; rfl) rfl
  | takeFile here state first =>
    rw [scanOf_of_idle here (by rw [state]; rfl)]
    exact h0.takes here first ((h0.keeps _ _ here).take (by rw [state]; rfl) _)
  | @takeShutdown i c rest here state first =>
    rw [scanOf_of_idle here (by rw [state]; rfl)]
    refine h0.takes here first ?_
    change Consumer.Keeps search (filesOf p.taken i ++ []) _ _
    rw [List.append_nil]
    exact (h0.keeps i c here).congr (by rw [state]; rfl) rfl
  | scan here state =>
    rw [scanOf_of_scanning here state]
    exact h.scan here state
  | retrySend state =>
    exact h0.congr rfl rfl rfl rfl rfl (by rw [state]; exact List.prefix_rfl) rfl
  | retryClose _ => exact h0.congr rfl rfl rfl rfl rfl List.nil_prefix rfl
  | retryTake here state => exact h0.setConsumer here (by rw [state]; rfl) rfl
  | cancel => exact h0.congr rfl rfl rfl rfl rfl List.prefix_rfl rfl

theorem exec (h : p.Recorded search entries n done) {es : List Event}
    (he : p.exec? search es = some q) :
    q.Recorded search entries n (done ++ p.scans search es) := by
  induction es generalizing p done with
  | nil =>
    cases he
    rw [scans, List.append_nil]
    exact h
  | cons e es ih =>
    obtain ⟨r, hr, he⟩ := Option.bind_eq_some_iff.1 he
    have hrest := ih (h.move (move_of_step? hr)) he
    rw [List.append_assoc] at hrest
    rwa [scans, hr]

end Recorded

end Pool

end Winnow
