import Conveyor.Core.BoundedQueue

/-!
# FreeRTOS queues and the ways a task can stop

Every queue of the firmware is created with length 10.  A handle is `none`
until `xQueueCreate` has succeeded; using a NULL handle trips the assertion of
the queue functions, which is one of the faults a task can end in.
-/

namespace Conveyor.Rtos

open Conveyor.Core

/-- What ends the defined behaviour of the firmware. -/
inductive Fault
  /-- `xQueueSend` or `xQueueReceive` on a NULL handle. -/
  | nullQueue
  /-- An access to `io_data` or `port_adress`, or a shift, out of range. -/
  | outOfBounds
  /-- The terminator written outside `rx_msg.data`. -/
  | rxOverflow
  /-- A parsed message read or deleted after its deletion. -/
  | useAfterFree
  deriving DecidableEq, Repr

/-- The length given to every `xQueueCreate` of the firmware. -/
abbrev queueLength : ℕ := 10

abbrev QueueHandle (Item : Type*) := Option (BoundedQueue Item queueLength)

variable {Item : Type*}

def xQueueCreate (created : Bool) : QueueHandle Item :=
  if created then some .empty else none

/-- `xQueueSend` with no ticks to wait: the flag is `pdTRUE`. -/
def xQueueSend (handle : QueueHandle Item) (item : Item) :
    Except Fault (QueueHandle Item × Bool) :=
  match handle with
  | none => .error .nullQueue
  | some queue => .ok (some (queue.send item).1, (queue.send item).2)

/-- `xQueueReceive` with no ticks to wait: no item when the queue is empty. -/
def xQueueReceive (handle : QueueHandle Item) :
    Except Fault (Option Item × QueueHandle Item) :=
  match handle with
  | none => .error .nullQueue
  | some queue =>
      match queue.receive with
      | none => .ok (none, some queue)
      | some (item, rest) => .ok (some item, some rest)

/-- What the queue holds, oldest first; nothing when there is no queue. -/
def contents : QueueHandle Item → List Item
  | none => []
  | some queue => queue.items

@[simp]
theorem contents_none : contents (none : QueueHandle Item) = [] := rfl

@[simp]
theorem contents_some (queue : BoundedQueue Item queueLength) :
    contents (some queue) = queue.items := rfl

@[simp]
theorem contents_xQueueCreate (created : Bool) :
    contents (xQueueCreate created : QueueHandle Item) = [] := by
  cases created <;> rfl

theorem length_contents_le (handle : QueueHandle Item) :
    (contents handle).length ≤ queueLength := by
  cases handle with
  | none => simp
  | some queue => exact queue.length_le

/-- A send that does not fault used an existing queue, which accepted the item
exactly when it had room. -/
theorem xQueueSend_ok {handle next : QueueHandle Item} {item : Item}
    {accepted : Bool} (hsend : xQueueSend handle item = .ok (next, accepted)) :
    handle.isSome ∧ next.isSome ∧
      accepted = decide ((contents handle).length < queueLength) ∧
      contents next =
        if accepted then contents handle ++ [item] else contents handle := by
  cases handle with
  | none => simp [xQueueSend] at hsend
  | some queue =>
      simp only [xQueueSend, Except.ok.injEq, Prod.mk.injEq] at hsend
      obtain ⟨rfl, rfl⟩ := hsend
      refine ⟨rfl, rfl, queue.send_accepted_iff item, ?_⟩
      rw [contents_some, queue.items_send, queue.send_accepted_iff]
      by_cases hroom : queue.items.length < queueLength <;> simp [hroom]

/-- A send faults on a missing queue or answers. -/
theorem xQueueSend_cases (handle : QueueHandle Item) (item : Item) :
    handle = none ∧ xQueueSend handle item = .error .nullQueue ∨
      ∃ next accepted, xQueueSend handle item = .ok (next, accepted) := by
  cases handle with
  | none => exact .inl ⟨rfl, rfl⟩
  | some queue => exact .inr ⟨_, _, rfl⟩

/-- A receive faults on a missing queue, finds nothing or takes an item. -/
theorem xQueueReceive_cases (handle : QueueHandle Item) :
    handle = none ∧ xQueueReceive handle = .error .nullQueue ∨
      (∃ next, xQueueReceive handle = .ok (none, next)) ∨
      ∃ item next, xQueueReceive handle = .ok (some item, next) := by
  cases handle with
  | none => exact .inl ⟨rfl, rfl⟩
  | some queue =>
      cases htaken : queue.receive with
      | none => exact .inr (.inl ⟨some queue, by simp [xQueueReceive, htaken]⟩)
      | some pair =>
          exact .inr (.inr ⟨pair.1, some pair.2,
            by simp [xQueueReceive, htaken]⟩)

theorem xQueueSend_of_room {handle : QueueHandle Item} (item : Item)
    (hsome : handle.isSome) (hroom : (contents handle).length < queueLength) :
    ∃ next, xQueueSend handle item = .ok (next, true) ∧ next.isSome ∧
      contents next = contents handle ++ [item] := by
  obtain ⟨queue, rfl⟩ := Option.isSome_iff_exists.mp hsome
  rw [contents_some] at hroom
  have haccepted : (queue.send item).2 = true := by
    simpa [BoundedQueue.send_accepted_iff] using hroom
  have hitems : (queue.send item).1.items = queue.items ++ [item] := by
    rw [queue.items_send, if_pos hroom]
  exact ⟨some (queue.send item).1, by simp [xQueueSend, haccepted], rfl, hitems⟩

/-- A receive that takes an item takes the oldest one of an existing queue. -/
theorem xQueueReceive_some {handle next : QueueHandle Item} {item : Item}
    (hreceive : xQueueReceive handle = .ok (some item, next)) :
    handle.isSome ∧ next.isSome ∧ contents handle = item :: contents next := by
  cases handle with
  | none => simp [xQueueReceive] at hreceive
  | some queue =>
      cases htaken : queue.receive with
      | none => simp [xQueueReceive, htaken] at hreceive
      | some pair =>
          obtain ⟨oldest, rest⟩ := pair
          simp only [xQueueReceive, htaken, Except.ok.injEq, Prod.mk.injEq,
            Option.some.injEq] at hreceive
          obtain ⟨rfl, rfl⟩ := hreceive
          exact ⟨rfl, rfl, (queue.receive_eq_some_iff rest oldest).mp htaken⟩

/-- What holds of everything queued and of the item sent holds of everything
queued after the send. -/
theorem forall_contents_of_send {property : Item → Prop}
    {handle next : QueueHandle Item} {item : Item} {accepted : Bool}
    (hsend : xQueueSend handle item = .ok (next, accepted))
    (hqueued : ∀ queued ∈ contents handle, property queued)
    (hitem : property item) : ∀ queued ∈ contents next, property queued := by
  obtain ⟨-, -, -, hcontents⟩ := xQueueSend_ok hsend
  intro queued hmem
  rw [hcontents] at hmem
  cases accepted with
  | false => exact hqueued queued (by simpa using hmem)
  | true =>
      simp only [if_true, List.mem_append, List.mem_singleton] at hmem
      rcases hmem with hold | rfl
      · exact hqueued queued hold
      · exact hitem

/-- What holds of everything queued holds of the item received and of
everything left in the queue. -/
theorem forall_contents_of_receive {property : Item → Prop}
    {handle next : QueueHandle Item} {item : Item}
    (hreceive : xQueueReceive handle = .ok (some item, next))
    (hqueued : ∀ queued ∈ contents handle, property queued) :
    property item ∧ ∀ queued ∈ contents next, property queued := by
  obtain ⟨-, -, hcontents⟩ := xQueueReceive_some hreceive
  rw [hcontents] at hqueued
  exact List.forall_mem_cons.mp hqueued

theorem xQueueReceive_none {handle next : QueueHandle Item}
    (hreceive : xQueueReceive handle = .ok (none, next)) :
    contents handle = [] ∧ next = handle := by
  cases handle with
  | none => simp [xQueueReceive] at hreceive
  | some queue =>
      cases htaken : queue.receive with
      | none =>
          simp only [xQueueReceive, htaken, Except.ok.injEq, Prod.mk.injEq,
            true_and] at hreceive
          exact ⟨queue.receive_eq_none_iff.mp htaken, hreceive.symm⟩
      | some pair => simp [xQueueReceive, htaken] at hreceive

theorem xQueueReceive_cons {handle : QueueHandle Item} {item : Item}
    {rest : List Item} (hcontents : contents handle = item :: rest) :
    ∃ next, xQueueReceive handle = .ok (some item, next) ∧ next.isSome ∧
      contents next = rest := by
  cases handle with
  | none => simp at hcontents
  | some queue =>
      obtain ⟨items, hle⟩ := queue
      simp only [contents_some] at hcontents
      subst hcontents
      exact ⟨_, rfl, rfl, rfl⟩

theorem xQueueReceive_nil {handle : QueueHandle Item} (hsome : handle.isSome)
    (hcontents : contents handle = []) :
    xQueueReceive handle = .ok (none, handle) := by
  obtain ⟨queue, rfl⟩ := Option.isSome_iff_exists.mp hsome
  have hnone := queue.receive_eq_none_iff.mpr hcontents
  simp [xQueueReceive, hnone]

end Conveyor.Rtos
