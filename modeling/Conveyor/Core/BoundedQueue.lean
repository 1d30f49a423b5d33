import Mathlib.Data.List.Basic
import Mathlib.Tactic.Common

/-!
# Bounded first-in first-out queues

A queue carries the proof that it holds no more than its capacity.  Sending to
a full queue leaves it as it was and reports the refusal; receiving takes the
oldest item.
-/

namespace Conveyor.Core

/-- A first-in first-out queue of at most `capacity` items, oldest first. -/
@[ext]
structure BoundedQueue (Item : Type*) (capacity : ℕ) where
  items : List Item
  length_le : items.length ≤ capacity
  deriving DecidableEq

namespace BoundedQueue

variable {Item : Type*} {capacity : ℕ}

def empty : BoundedQueue Item capacity := ⟨[], Nat.zero_le _⟩

@[simp]
theorem items_empty : (empty : BoundedQueue Item capacity).items = [] := rfl

/-- Send an item; the second component tells whether it was accepted. -/
def send (queue : BoundedQueue Item capacity) (item : Item) :
    BoundedQueue Item capacity × Bool :=
  if hroom : queue.items.length < capacity then
    (⟨queue.items ++ [item], by simpa using Nat.succ_le_of_lt hroom⟩, true)
  else (queue, false)

/-- Receive the oldest item. -/
def receive : BoundedQueue Item capacity →
    Option (Item × BoundedQueue Item capacity)
  | ⟨[], _⟩ => none
  | ⟨item :: rest, hle⟩ =>
      some (item, ⟨rest, Nat.le_of_succ_le (by simpa using hle)⟩)

theorem send_accepted_iff (queue : BoundedQueue Item capacity) (item : Item) :
    (queue.send item).2 = decide (queue.items.length < capacity) := by
  by_cases hroom : queue.items.length < capacity <;> simp [send, hroom]

theorem items_send (queue : BoundedQueue Item capacity) (item : Item) :
    (queue.send item).1.items =
      if queue.items.length < capacity then queue.items ++ [item]
      else queue.items := by
  by_cases hroom : queue.items.length < capacity <;> simp [send, hroom]

theorem receive_eq_none_iff (queue : BoundedQueue Item capacity) :
    queue.receive = none ↔ queue.items = [] := by
  rcases queue with ⟨items, hle⟩
  cases items <;> simp [receive]

theorem receive_eq_some_iff (queue rest : BoundedQueue Item capacity)
    (item : Item) :
    queue.receive = some (item, rest) ↔ queue.items = item :: rest.items := by
  rcases queue with ⟨items, hle⟩
  cases items with
  | nil => simp [receive]
  | cons head tail => simp [receive, BoundedQueue.ext_iff]

end BoundedQueue

end Conveyor.Core
