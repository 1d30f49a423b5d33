import Conveyor.Separation.Programs

/-!
# Doubly linked lists

`seg` owns a stretch of a doubly linked list: every item points to the one
after it and back to the one before it.  The pointers at both ends lead out of
the stretch.
-/

namespace Conveyor.Separation

variable {Cell Item : Type*}

/-- The first item of a stretch, or where the stretch before it leads. -/
def firstPtr (addr : Item → Addr) (items : List Item) (next : Ptr) : Ptr :=
  match items with
  | [] => next
  | item :: _ => some (addr item)

/-- The last item of a stretch, or where the stretch after it leads back. -/
def lastPtr (addr : Item → Addr) (prev : Ptr) : List Item → Ptr
  | [] => prev
  | item :: rest => lastPtr addr (some (addr item)) rest

/-- The items own their nodes, given the pointers on both sides. -/
def seg (addr : Item → Addr) (node : Item → Ptr → Ptr → Assertion Cell) :
    List Item → Ptr → Ptr → Assertion Cell
  | [], _, _ => 1
  | item :: rest, prev, next =>
      node item prev (firstPtr addr rest next) *
        seg addr node rest (some (addr item)) next

variable {addr : Item → Addr} {node : Item → Ptr → Ptr → Assertion Cell}
variable {left right items : List Item} {item : Item} {prev next : Ptr}

@[simp]
theorem firstPtr_nil : firstPtr addr [] next = next := rfl

@[simp]
theorem firstPtr_cons :
    firstPtr addr (item :: items) next = some (addr item) := rfl

@[simp]
theorem lastPtr_nil : lastPtr addr prev [] = prev := rfl

@[simp]
theorem lastPtr_cons : lastPtr addr prev (item :: items) =
    lastPtr addr (some (addr item)) items := rfl

theorem firstPtr_append : firstPtr addr (left ++ right) next =
    firstPtr addr left (firstPtr addr right next) := by
  cases left <;> rfl

theorem firstPtr_some_ne_none {target : Addr} :
    firstPtr addr items (some target) ≠ none := by
  cases items <;> simp

theorem lastPtr_append : lastPtr addr prev (left ++ right) =
    lastPtr addr (lastPtr addr prev left) right := by
  induction left generalizing prev with
  | nil => rfl
  | cons item left ih => exact ih

theorem lastPtr_concat :
    lastPtr addr prev (items ++ [item]) = some (addr item) := by
  rw [lastPtr_append]
  rfl

theorem seg_append : seg addr node (left ++ right) prev next =
    seg addr node left prev (firstPtr addr right next) *
      seg addr node right (lastPtr addr prev left) next := by
  induction left generalizing prev with
  | nil => rw [List.nil_append, seg, one_mul, lastPtr_nil]
  | cons item left ih =>
      rw [List.cons_append, seg, seg, ih, firstPtr_append, mul_assoc,
        lastPtr_cons]

/-- One item singled out of a stretch. -/
theorem seg_focus : seg addr node (left ++ item :: right) prev next =
    node item (lastPtr addr prev left) (firstPtr addr right next) *
      (seg addr node left prev (some (addr item)) *
        seg addr node right (some (addr item)) next) := by
  rw [seg_append, seg, firstPtr_cons]
  ac_rfl

theorem seg_concat : seg addr node (items ++ [item]) prev next =
    node item (lastPtr addr prev items) next *
      seg addr node items prev (some (addr item)) := by
  rw [seg_focus, seg, mul_one, firstPtr_nil]

end Conveyor.Separation
