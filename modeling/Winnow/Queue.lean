import Winnow.Error

/-!
# Bounded queues that can be cancelled

Items leave in the order in which they came, and there is room for one at least.
When the queue is cancelled, nothing goes in or out any more. A push that finds no
room and a pop that finds no item wait.
-/

namespace Winnow

structure Queue (α : Type) where
  capacity : Nat
  items : List α
  cancelled : Bool
  deriving DecidableEq

namespace Queue

variable {α : Type}

def empty (capacity : Nat) : Queue α := ⟨max 1 capacity, [], false⟩

instance : Inhabited (Queue α) := ⟨empty 1⟩

def length (q : Queue α) : Nat := q.items.length

def isEmpty (q : Queue α) : Bool := q.items.isEmpty

def isFull (q : Queue α) : Bool := q.capacity ≤ q.items.length

def cancel (q : Queue α) : Queue α := { q with cancelled := true }

/-- Puts an item in if there is room, whether the queue is cancelled or not. -/
def send? (q : Queue α) (a : α) : Option (Queue α) :=
  if q.isFull then none else some { q with items := q.items ++ [a] }

def receive? (q : Queue α) : Option (α × Queue α) :=
  match q.items with
  | [] => none
  | a :: rest => some (a, { q with items := rest })

inductive Outcome (β : Type) where
  | waits
  | cancelled
  | done (b : β)
  deriving DecidableEq

def push (q : Queue α) (a : α) : Outcome (Queue α) :=
  if q.cancelled then .cancelled
  else match q.send? a with
    | none => .waits
    | some q => .done q

def pop (q : Queue α) : Outcome (α × Queue α) :=
  if q.cancelled then .cancelled
  else match q.receive? with
    | none => .waits
    | some r => .done r

theorem one_le_capacity_empty (capacity : Nat) : 1 ≤ (empty capacity : Queue α).capacity :=
  Nat.le_max_left _ _

end Queue

end Winnow
