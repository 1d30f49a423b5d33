import Conveyor.JsonHeap.Items

/-!
# Deleting items

`cJSON_Delete` frees an item, its strings, everything below it and every item
after it.  Each round of its loop frees one item, so there are no more of them
than live blocks, and one that goes wrong.  It frees exactly the blocks that the
trees of a list own.
-/

namespace Conveyor.JsonHeap

open Conveyor.Separation Assertion

/-- Releases what a pointer leads to, unless it is NULL or not the item's. -/
def whenOwned (isOwned : Bool) (ptr : Ptr) (release : Ptr → Prog Block Unit) :
    Prog Block Unit :=
  if isOwned ∧ ptr ≠ none then release ptr else pure ()

/-- The loop of `cJSON_Delete`, with this many items at most. -/
def deleteItems : ℕ → Ptr → Prog Block Unit
  | _, none => pure ()
  | 0, some _ => Prog.fail .endless
  | fuel + 1, some addr => do
      let item ← loadItem (some addr)
      whenOwned (!item.isReference) item.child (deleteItems fuel)
      whenOwned (!item.isReference) item.valuestring Prog.free
      whenOwned (!item.stringIsConst) item.string Prog.free
      Prog.free (some addr)
      deleteItems fuel item.next

def cJSONDelete (item : Ptr) : Prog Block Unit := do
  deleteItems ((← Prog.liveBlocks) + 1) item

/-! ## How many items there are -/

mutual

def Tree.size : Tree → ℕ
  | .node _ _ _ children => 1 + sizeList children

def sizeList : List Tree → ℕ
  | [] => 0
  | tree :: rest => tree.size + sizeList rest

end

mutual

theorem own_le_atLeast (tree : Tree) (prev next : Ptr) :
    own tree prev next ≤ atLeast tree.size := by
  obtain ⟨addr, name, data, children⟩ := tree
  rw [own_node, ownBelow, Tree.size]
  have hchildren : ownChildren children ≤ atLeast (sizeList children) :=
    iSup₂_le fun back _ => seg_le_atLeast children back none
  have hbelow : ownText data.valuestring * ownText name * ownChildren children ≤
      atLeast (0 + sizeList children) :=
    mul_le_atLeast le_atLeast_zero hchildren
  rw [Nat.zero_add] at hbelow
  exact mul_le_atLeast cell_le_atLeast hbelow

theorem seg_le_atLeast (trees : List Tree) (prev next : Ptr) :
    seg Tree.addr own trees prev next ≤ atLeast (sizeList trees) := by
  cases trees with
  | nil => exact le_atLeast_zero
  | cons tree rest =>
      exact mul_le_atLeast (own_le_atLeast tree _ _)
        (seg_le_atLeast rest _ _)

end

/-! ## What is freed -/

variable {allocator : Allocator Block}

@[simp]
theorem whenOwned_none {isOwned : Bool} {release : Ptr → Prog Block Unit} :
    whenOwned isOwned none release = pure () := by
  simp [whenOwned]

@[simp]
theorem whenOwned_some {addr : Addr} {release : Ptr → Prog Block Unit} :
    whenOwned true (some addr) release = release (some addr) := by
  simp [whenOwned]

theorem whenOwned_true {ptr : Ptr} {release : Ptr → Prog Block Unit}
    (hnull : release none = pure ()) :
    whenOwned true ptr release = release ptr := by
  cases ptr with
  | none => rw [whenOwned_none, hnull]
  | some addr => rw [whenOwned_some]

theorem deleteItems_none (fuel : ℕ) : deleteItems fuel none = pure () := by
  cases fuel <;> rfl

theorem triple_freeText (text : Option Stored) :
    Triple allocator (ownText text) (Prog.free (text.map Stored.addr))
      (fun _ => 1) := by
  cases text with
  | none => exact .of_pure le_rfl
  | some text => exact .of_free

theorem triple_deleteItems {fuel : ℕ} {trees : List Tree} {prev : Ptr}
    (hfuel : sizeList trees ≤ fuel) :
    Triple allocator (seg Tree.addr own trees prev none)
      (deleteItems fuel (firstPtr Tree.addr trees none)) (fun _ => 1) := by
  induction fuel generalizing trees prev with
  | zero =>
      cases trees with
      | nil => exact .of_pure le_rfl
      | cons tree rest =>
          cases tree
          rw [sizeList, Tree.size] at hfuel
          omega
  | succ fuel ih =>
      cases trees with
      | nil => exact .of_pure le_rfl
      | cons tree rest =>
          obtain ⟨addr, name, data, children⟩ := tree
          rw [sizeList, Tree.size] at hfuel
          have hbelow : Triple allocator (ownChildren children)
              (deleteItems fuel (firstPtr Tree.addr children none))
              (fun _ => 1) := by
            refine .of_iSup fun back => .of_iSup fun _ => ih ?_
            omega
          rw [seg, own_node, firstPtr_cons, Tree.addr_node, deleteItems,
            mul_assoc]
          refine triple_loadItem _ rfl ?_
          simp only [itemOf, Bool.not_false,
            whenOwned_true (deleteItems_none fuel),
            whenOwned_true (show Prog.free none = pure () from rfl)]
          refine hbelow.call (cell addr _ * ownText data.valuestring *
            ownText name * seg Tree.addr own rest (some addr) none)
            (by rw [ownBelow]; ac_rfl) fun _ => ?_
          refine (triple_freeText data.valuestring).call (cell addr _ *
            ownText name * seg Tree.addr own rest (some addr) none)
            (by rw [one_mul]; ac_rfl) fun _ => ?_
          refine (triple_freeText name).call (cell addr _ *
            seg Tree.addr own rest (some addr) none)
            (by rw [one_mul]; ac_rfl) fun _ => ?_
          refine .free _ (one_mul _) ?_
          exact ih (by omega)

/-- `cJSON_Delete` frees every block of a list of siblings and no other. -/
theorem triple_cJSONDelete (trees : List Tree) (prev : Ptr) :
    Triple allocator (seg Tree.addr own trees prev none)
      (cJSONDelete (firstPtr Tree.addr trees none)) (fun _ => 1) :=
  .liveBlocks (seg_le_atLeast trees prev none) fun _ hbound =>
    triple_deleteItems (hbound.trans (Nat.le_succ _))

theorem triple_cJSONDelete_tree (tree : Tree) (prev : Ptr) :
    Triple allocator (own tree prev none) (cJSONDelete (some tree.addr))
      (fun _ => 1) := by
  have hdelete : Triple allocator _ _ _ := triple_cJSONDelete [tree] prev
  rwa [seg, seg, mul_one] at hdelete

/-- Deleting the first of several siblings takes all of them off the heap, with
everything below them, and nothing else. -/
theorem cJSONDelete_frees (allocator : Allocator Block) {trees : List Tree}
    {prev : Ptr} {others : Heap Block} (memory : Memory Block)
    (hheap : (seg Tree.addr own trees prev none * exactly others) memory.heap) :
    ∃ final, cJSONDelete (firstPtr Tree.addr trees none) allocator memory =
      .ok ((), final) ∧ final.heap = others := by
  obtain ⟨_, final, hrun, hfinal⟩ :=
    triple_cJSONDelete trees prev (exactly others) memory hheap
  exact ⟨final, hrun, one_mul_exactly_apply.mp hfinal⟩

/-- An item with a name and a string, and an array with one element. -/
def siblings : List Tree :=
  [.node 1 (some ⟨2, 3, text "id"⟩)
      { Data.blank .string with valuestring := some ⟨3, 4, text "abc"⟩ } [],
    .node 4 none (.blank .array) [.node 5 none (.blank .null) []]]

/-- They lie next to a block of somebody else. -/
def siblingsHeap : Heap Block :=
  List.toFinmap
    [⟨1, .item { Item.zero with
        next := some 4, type := .string, valuestring := some 3, string := some 2 }⟩,
      ⟨2, .bytes 3 (text "id")⟩, ⟨3, .bytes 4 (text "abc")⟩,
      ⟨4, .item { Item.zero with
        prev := some 1, child := some 5, type := .array }⟩,
      ⟨5, .item { Item.zero with prev := some 5, type := .null }⟩,
      ⟨6, .bytes 1 []⟩]

theorem own_siblings :
    (seg Tree.addr own siblings none none *
      exactly (Finmap.singleton 6 (.bytes 1 [])) : Assertion Block)
      siblingsHeap := by
  have hchild : seg Tree.addr own [.node 5 none (.blank .null) []] (some 5) none ≤
      ownChildren [.node 5 none (.blank .null) []] :=
    le_iSup₂_of_le (some 5) (.inr rfl) le_rfl
  simp only [siblings, seg, own_node, ownBelow, ownChildren_nil, mul_one]
  refine mul_le_mul' (mul_le_mul' le_rfl (mul_le_mul' le_rfl
    (mul_le_mul' le_rfl hchild))) le_rfl siblingsHeap ?_
  simp only [seg, own_node, ownBelow, ownChildren_nil, ownText, Data.blank,
    mul_assoc, one_mul, mul_one]
  refine cell_mul_apply.mpr ⟨rfl, ?_⟩
  refine cell_mul_apply.mpr ⟨rfl, ?_⟩
  refine cell_mul_apply.mpr ⟨rfl, ?_⟩
  refine cell_mul_apply.mpr ⟨rfl, ?_⟩
  refine cell_mul_apply.mpr ⟨rfl, ?_⟩
  rfl

theorem cJSONDelete_frees_siblings :
    ∃ final, cJSONDelete (some 1) (Allocator.behind Block) ⟨siblingsHeap, 6⟩ =
      .ok ((), final) ∧ final.heap = Finmap.singleton 6 (.bytes 1 []) :=
  cJSONDelete_frees (Allocator.behind Block) ⟨siblingsHeap, 6⟩ own_siblings

/-- An item that is gone cannot be deleted. -/
theorem cJSONDelete_dangling {memory : Memory Block} {addr : Addr}
    (hgone : addr ∉ memory.heap) :
    cJSONDelete (some addr) allocator memory = .error .dangling := by
  change deleteItems (memory.heap.keys.card + 1) (some addr) allocator memory = _
  rw [deleteItems, loadItem, bind_assoc]
  exact load_bind_dangling hgone _

end Conveyor.JsonHeap
