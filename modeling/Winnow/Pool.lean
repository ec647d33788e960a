import Winnow.Queue
import Winnow.Run

/-!
# The pool of threads

One thread walks and queues the files, all others take them from the queue and scan
them. After the files the walking thread queues one shutdown for each consumer, and a
consumer stops at the first one that it takes; the shutdowns are queued also when the
root could not be walked.

A step of the pool is one step of one of its threads. A look at the cancel flag and the
attempt at the queue that follows it are two steps, so that anything may happen in
between. An attempt succeeds or times out, after which the thread looks at the flag
again. What went through the queue is kept in the order in which it did.
-/

namespace Winnow

inductive Item where
  | file (path : String)
  | shutdown
  deriving DecidableEq, Repr

abbrev WalkEntry := Except Error String

/-- Where the walking thread is. `checked` means that it found the queue not cancelled
and is about to try. -/
inductive Producer where
  | walking (rest : List WalkEntry)
  | sending (path : String) (checked : Bool) (rest : List WalkEntry)
  | closing (left : Nat) (checked : Bool)
  | stopped

inductive Phase where
  | ready
  | checked
  | scanning (path : String)
  | stopped
  deriving DecidableEq, Repr

structure Consumer where
  phase : Phase
  summary : Summary
  deriving DecidableEq

namespace Consumer

def start : Consumer := ⟨.ready, .zero⟩

instance : Inhabited Consumer := ⟨start⟩

end Consumer

structure Pool where
  queue : Queue Item
  producer : Producer
  consumers : List Consumer
  walked : Summary
  rootFault : Option Error
  found : List String
  faults : List Error
  sent : List Item
  taken : List (Nat × Item)

namespace Pool

inductive Thread where
  | producer
  | consumer (i : Nat)
  deriving DecidableEq, Repr

inductive Event where
  | step (t : Thread)
  | timeOut (t : Thread)
  | cancel
  deriving DecidableEq, Repr

def start (walk : Except Error (List WalkEntry)) (consumers capacity : Nat) : Pool where
  queue := .empty capacity
  producer := .walking (walk.toOption.getD [])
  consumers := List.replicate consumers .start
  walked := .zero
  rootFault := match walk with
    | .ok _ => none
    | .error e => some e
  found := []
  faults := []
  sent := []
  taken := []

def filesOf (taken : List (Nat × Item)) (i : Nat) : List String :=
  taken.filterMap fun
    | (j, .file path) => if j = i then some path else none
    | (_, .shutdown) => none

def files (items : List Item) : List String :=
  items.filterMap fun
    | .file path => some path
    | .shutdown => none

def send? (p : Pool) (a : Item) (next : Producer) : Option Pool :=
  (p.queue.send? a).map fun q => { p with queue := q, producer := next, sent := p.sent ++ [a] }

def close (p : Pool) : Pool := { p with producer := .closing p.consumers.length false }

def walk (p : Pool) (rest : List WalkEntry) : WalkEntry → Pool
  | .ok path => { p with producer := .sending path false rest }
  | .error e => { p with
      producer := .walking rest
      walked := p.walked + { Summary.zero with walkErrors := 1 }
      faults := p.faults ++ [e] }

def produce? (p : Pool) : Option Pool :=
  match p.producer with
  | .walking [] => some p.close
  | .walking (e :: rest) => some (if p.queue.cancelled then p.close else p.walk rest e)
  | .sending path false rest =>
    some (if p.queue.cancelled then p.close else { p with producer := .sending path true rest })
  | .sending path true rest =>
    (p.send? (.file path) (.walking rest)).map fun p =>
      { p with walked := p.walked + { Summary.zero with queued := 1 } }
  | .closing 0 _ => some { p with producer := .stopped }
  | .closing (left + 1) false =>
    some { p with producer := if p.queue.cancelled then .stopped else .closing (left + 1) true }
  | .closing (left + 1) true => p.send? .shutdown (.closing left false)
  | .stopped => none

def setConsumer (p : Pool) (i : Nat) (c : Consumer) : Pool :=
  { p with consumers := p.consumers.set i c }

def take? (p : Pool) (i : Nat) (c : Consumer) : Option Pool :=
  match p.queue.receive? with
  | none => none
  | some (a, q) =>
    let p := { p with queue := q, taken := p.taken ++ [(i, a)] }
    some <| match a with
      | .shutdown => p.setConsumer i { c with phase := .stopped }
      | .file path => p.setConsumer i
          ⟨.scanning path, c.summary + { Summary.zero with scanned := 1 }⟩

def scan (search : String → Except Error Bool) (p : Pool) (i : Nat) (c : Consumer)
    (path : String) : Pool :=
  match search path with
  | .ok true => { p with found := p.found ++ [path] }.setConsumer i
      ⟨.ready, c.summary + { Summary.zero with matched := 1 }⟩
  | .ok false => p.setConsumer i { c with phase := .ready }
  | .error e => { p with faults := p.faults ++ [e] }.setConsumer i
      ⟨.ready, c.summary + { Summary.zero with fileErrors := 1 }⟩

def consume? (search : String → Except Error Bool) (p : Pool) (i : Nat) : Option Pool :=
  match p.consumers[i]? with
  | none => none
  | some c =>
    match c.phase with
    | .ready =>
      some (p.setConsumer i { c with phase := if p.queue.cancelled then .stopped else .checked })
    | .checked => p.take? i c
    | .scanning path => some (p.scan search i c path)
    | .stopped => none

def timeOut? (p : Pool) : Thread → Option Pool
  | .producer =>
    match p.producer with
    | .sending path true rest => some { p with producer := .sending path false rest }
    | .closing left true => some { p with producer := .closing left false }
    | _ => none
  | .consumer i =>
    match p.consumers[i]? with
    | some ⟨.checked, summary⟩ => some (p.setConsumer i ⟨.ready, summary⟩)
    | _ => none

def step? (search : String → Except Error Bool) (p : Pool) : Event → Option Pool
  | .step .producer => p.produce?
  | .step (.consumer i) => p.consume? search i
  | .timeOut t => p.timeOut? t
  | .cancel => some { p with queue := p.queue.cancel }

def isFinal (p : Pool) : Bool :=
  (match p.producer with
    | .stopped => true
    | _ => false) && p.consumers.all fun c => c.phase == .stopped

def report (p : Pool) : Report where
  summary := { p.consumers.foldl (fun s c => s + c.summary) .zero + p.walked with
    cancelled := p.queue.cancelled }
  found := p.found
  faults := p.faults

def result? (p : Pool) : Option (Except Error Report) :=
  if p.isFinal then
    some (match p.rootFault with
      | some e => .error e
      | none => .ok p.report)
  else none

end Pool

def threadCount (processors oversize : Nat) : Nat := max 2 (processors * oversize)

def consumerCount (threads : Nat) : Nat := max 2 threads - 1

def Session.pool (s : Session) (t : Tree) (cwd : Place) (threads : Nat) : Except Error Pool := do
  let filter ← PathFilter.ofTexts s.settings.filters
  let texts (entries : List (Except Error Place)) := entries.map (·.map Place.text)
  let walk := (Walk.files t filter.allows cwd s.settings.root).map texts
  let consumers := consumerCount threads
  return .start walk consumers (consumers * s.settings.queueDepth)

end Winnow
