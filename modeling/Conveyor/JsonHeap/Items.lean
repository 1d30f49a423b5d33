import Conveyor.Json.Parse
import Conveyor.Separation.LinkedLists

/-!
# cJSON items in memory

A `cJSON` item is a block with pointers to its siblings, to its first child and
to its strings.  A `Tree` says which items and strings hang together; it owns
its blocks, and every list of siblings is linked both ways.  Only the head of a
list has no use for its `prev`: it leads to the last item or is NULL.
-/

namespace Conveyor.JsonHeap

open Conveyor.Separation Conveyor.Json Assertion

/-- The low byte of `type`. -/
inductive Kind
  | invalid
  | false
  | true
  | null
  | number
  | string
  | array
  | object
  | raw
  deriving DecidableEq, Repr

/-- `cJSON`; the flags are the two high bits of its `type`. -/
structure Item where
  next : Ptr
  prev : Ptr
  child : Ptr
  type : Kind
  isReference : Bool
  stringIsConst : Bool
  valuestring : Ptr
  valueint : ℤ
  valuedouble : Decimal
  string : Ptr
  deriving DecidableEq, Repr

/-- An item whose bytes are all zero. -/
def Item.zero : Item where
  next := none
  prev := none
  child := none
  type := .invalid
  isReference := .false
  stringIsConst := .false
  valuestring := none
  valueint := 0
  valuedouble := ⟨.false, 0, 0⟩
  string := none

/-- What a block holds: an item, this many bytes with a string in front of a
terminating NUL, or this many bytes of which only some at the start are written. -/
inductive Block
  | item (content : Item)
  | bytes (size : ℕ) (content : Text)
  | unfinished (size : ℕ) (content : Text)
  deriving DecidableEq, Repr

/-! ## Reading and writing items -/

def loadItem (ptr : Ptr) : Prog Block Item := do
  match ← Prog.load ptr with
  | .item content => pure content
  | _ => Prog.fail .dangling

/-- A string is read up to its terminating NUL. -/
def loadBytes (ptr : Ptr) : Prog Block Text := do
  match ← Prog.load ptr with
  | .bytes _ content => pure content
  | _ => Prog.fail .dangling

/-- Bytes are written behind those written before. -/
def appendBytes (ptr : Ptr) (more : Text) : Prog Block Unit := do
  match ← Prog.load ptr with
  | .unfinished size content =>
      if content.length + more.length ≤ size then
        Prog.store ptr (.unfinished size (content ++ more))
      else Prog.fail .overflow
  | _ => Prog.fail .dangling

/-- The terminating NUL is written behind the bytes written before. -/
def terminate (ptr : Ptr) : Prog Block Unit := do
  match ← Prog.load ptr with
  | .unfinished size content =>
      if content.length < size then Prog.store ptr (.bytes size content)
      else Prog.fail .overflow
  | _ => Prog.fail .dangling

/-- Assignments to fields of an item. -/
def update (ptr : Ptr) (change : Item → Item) : Prog Block Unit := do
  let content ← loadItem ptr
  Prog.store ptr (.item (change content))

def cJSONNewItem : Prog Block Ptr := Prog.malloc (.item .zero)

section Rules

variable {allocator : Allocator Block} {pre : Assertion Block} {Result : Type}
variable {last : Result → Assertion Block} {addr : Addr}

theorem triple_loadItem {content : Item} (rest : Assertion Block)
    {next : Item → Prog Block Result}
    (hpre : pre = cell addr (.item content) * rest)
    (hnext : Triple allocator pre (next content) last) :
    Triple allocator pre (loadItem (some addr) >>= next) last := by
  rw [loadItem, bind_assoc]
  exact .load rest hpre hnext

theorem triple_loadBytes {size : ℕ} {content : Text} (rest : Assertion Block)
    {next : Text → Prog Block Result}
    (hpre : pre = cell addr (.bytes size content) * rest)
    (hnext : Triple allocator pre (next content) last) :
    Triple allocator pre (loadBytes (some addr) >>= next) last := by
  rw [loadBytes, bind_assoc]
  exact .load rest hpre hnext

theorem triple_appendBytes {size : ℕ} {content more : Text}
    (rest : Assertion Block) {next : Unit → Prog Block Result}
    (hpre : pre = cell addr (.unfinished size content) * rest)
    (hfits : content.length + more.length ≤ size)
    (hnext : Triple allocator
      (cell addr (.unfinished size (content ++ more)) * rest) (next ()) last) :
    Triple allocator pre (appendBytes (some addr) more >>= next) last := by
  rw [appendBytes, bind_assoc]
  apply Triple.load rest hpre
  simp only [if_pos hfits]
  exact .store rest hpre hnext

theorem triple_terminate {size : ℕ} {content : Text} (rest : Assertion Block)
    {next : Unit → Prog Block Result}
    (hpre : pre = cell addr (.unfinished size content) * rest)
    (hfits : content.length < size)
    (hnext : Triple allocator (cell addr (.bytes size content) * rest)
      (next ()) last) :
    Triple allocator pre (terminate (some addr) >>= next) last := by
  rw [terminate, bind_assoc]
  apply Triple.load rest hpre
  simp only [if_pos hfits]
  exact .store rest hpre hnext

theorem triple_update {content : Item} {change : Item → Item}
    (rest : Assertion Block) {next : Unit → Prog Block Result}
    (hpre : pre = cell addr (.item content) * rest)
    (hnext : Triple allocator (cell addr (.item (change content)) * rest)
      (next ()) last) :
    Triple allocator pre (update (some addr) change >>= next) last := by
  rw [update, bind_assoc]
  exact triple_loadItem rest hpre (.store rest hpre hnext)

end Rules

/-! ## Trees of items -/

/-- A string and the block it is in. -/
structure Stored where
  addr : Addr
  size : ℕ
  content : Text

/-- What an item holds apart from its links. -/
structure Data where
  type : Kind
  valuestring : Option Stored
  valueint : ℤ
  valuedouble : Decimal

/-- Nothing but a type. -/
def Data.blank (type : Kind) : Data where
  type := type
  valuestring := none
  valueint := 0
  valuedouble := ⟨.false, 0, 0⟩

/-- An item, its strings and the items below it. -/
inductive Tree
  | node (addr : Addr) (name : Option Stored) (data : Data)
      (children : List Tree)

namespace Tree

def addr : Tree → Addr
  | node addr _ _ _ => addr

def name : Tree → Option Stored
  | node _ name _ _ => name

def data : Tree → Data
  | node _ _ data _ => data

def children : Tree → List Tree
  | node _ _ _ children => children

section

variable {addr : Addr} {name : Option Stored} {data : Data}
variable {children : List Tree}

@[simp]
theorem addr_node : (node addr name data children).addr = addr := rfl

@[simp]
theorem name_node : (node addr name data children).name = name := rfl

@[simp]
theorem data_node : (node addr name data children).data = data := rfl

@[simp]
theorem children_node : (node addr name data children).children = children :=
  rfl

end

end Tree

/-- The item of a tree between two siblings. -/
def itemOf (name : Option Stored) (data : Data) (children : List Tree)
    (prev next : Ptr) : Item where
  next := next
  prev := prev
  child := firstPtr Tree.addr children none
  type := data.type
  isReference := .false
  stringIsConst := .false
  valuestring := data.valuestring.map Stored.addr
  valueint := data.valueint
  valuedouble := data.valuedouble
  string := name.map Stored.addr

def ownText : Option Stored → Assertion Block
  | none => 1
  | some text => cell text.addr (.bytes text.size text.content)

/-- The head of a list leads back to its last item or nowhere. -/
def LeadsBack (children : List Tree) (back : Ptr) : Prop :=
  back = none ∨ back = lastPtr Tree.addr none children

mutual

/-- The blocks of a tree between two siblings. -/
def own : Tree → Ptr → Ptr → Assertion Block
  | .node addr name data children, prev, next =>
      cell addr (.item (itemOf name data children prev next)) *
        (ownText data.valuestring * ownText name *
          ⨆ (back : Ptr) (_ : LeadsBack children back),
            ownList children back none)

/-- The blocks of trees side by side. -/
def ownList : List Tree → Ptr → Ptr → Assertion Block
  | [], _, _ => 1
  | tree :: rest, prev, next =>
      own tree prev (firstPtr Tree.addr rest next) *
        ownList rest (some tree.addr) next

end

theorem ownList_eq_seg (trees : List Tree) (prev next : Ptr) :
    ownList trees prev next = seg Tree.addr own trees prev next := by
  induction trees generalizing prev with
  | nil => rw [ownList, seg]
  | cons tree rest ih => rw [ownList, seg, ih]

/-- All blocks below an item. -/
def ownChildren (children : List Tree) : Assertion Block :=
  ⨆ (back : Ptr) (_ : LeadsBack children back),
    seg Tree.addr own children back none

/-- The blocks that hang on an item. -/
def ownBelow (name : Option Stored) (data : Data)
    (children : List Tree) : Assertion Block :=
  ownText data.valuestring * ownText name * ownChildren children

theorem own_node (addr : Addr) (name : Option Stored) (data : Data)
    (children : List Tree) (prev next : Ptr) :
    own (.node addr name data children) prev next =
      cell addr (.item (itemOf name data children prev next)) *
        ownBelow name data children := by
  simp only [own, ownBelow, ownChildren, ownList_eq_seg]

/-- The blocks of a tree other than those of its children. -/
def ownSelf (tree : Tree) (prev next : Ptr) : Assertion Block :=
  cell tree.addr (.item (itemOf tree.name tree.data tree.children prev next)) *
    (ownText tree.data.valuestring * ownText tree.name)

theorem own_eq_iSup (tree : Tree) (prev next : Ptr) :
    own tree prev next =
      ⨆ (back : Ptr) (_ : LeadsBack tree.children back),
        ownSelf tree prev next * seg Tree.addr own tree.children back none := by
  obtain ⟨addr, name, data, children⟩ := tree
  simp only [own_node, ownBelow, ownChildren, ownSelf, mul_iSup, mul_assoc]
  rfl

theorem seg_mul_ownSelf_le {tree : Tree} {prev next back : Ptr}
    (hback : LeadsBack tree.children back) :
    seg Tree.addr own tree.children back none * ownSelf tree prev next ≤
      own tree prev next := by
  rw [own_eq_iSup, mul_comm]
  exact le_iSup₂_of_le back hback le_rfl

theorem mem_of_own {tree : Tree} {prev next : Ptr} {heap : Heap Block}
    (hown : own tree prev next heap) : tree.addr ∈ heap := by
  obtain ⟨addr, name, data, children⟩ := tree
  rw [own_node] at hown
  exact Finmap.mem_of_lookup_eq_some (cell_mul_apply.mp hown).1

theorem mem_of_own_child {tree child : Tree} {prev next : Ptr}
    {heap : Heap Block} (hown : own tree prev next heap)
    (hchild : child ∈ tree.children) : child.addr ∈ heap := by
  obtain ⟨front, later, hsplit⟩ := List.append_of_mem hchild
  rw [own_eq_iSup, Assertion.iSup_apply] at hown
  obtain ⟨back, hown⟩ := hown
  obtain ⟨hback, hown⟩ := Assertion.iSup_apply.mp hown
  rw [hsplit, seg_focus, mul_left_comm] at hown
  obtain ⟨first, second, hfirst, -, -, rfl⟩ := hown
  exact Finmap.mem_union.mpr (.inl (mem_of_own hfirst))

@[simp]
theorem ownChildren_nil : ownChildren [] = 1 := by
  refine le_antisymm (iSup₂_le fun back hback => le_rfl) ?_
  exact le_iSup₂_of_le none (.inl rfl) le_rfl

section Rules

variable {allocator : Allocator Block} {pre : Assertion Block} {Result : Type}
variable {last : Result → Assertion Block} {addr : Addr}
variable {name name' : Option Stored} {data data' : Data}
variable {children children' : List Tree} {prev prev' next next' : Ptr}

theorem own_new : own (.node addr none (.blank .invalid) []) none none =
    cell addr (.item .zero) := by
  rw [own_node, ownBelow, ownChildren_nil]
  exact (congrArg _ (by simp [ownText, Data.blank])).trans (mul_one _)

theorem triple_loadTree {tree : Tree} (rest : Assertion Block)
    {following : Item → Prog Block Result}
    (hpre : pre = own tree prev next * rest)
    (hnext : Triple allocator pre
      (following (itemOf tree.name tree.data tree.children prev next)) last) :
    Triple allocator pre (loadItem (some tree.addr) >>= following) last := by
  obtain ⟨addr, name, data, children⟩ := tree
  refine triple_loadItem (ownBelow name data children * rest) ?_ hnext
  rw [hpre, own_node, mul_assoc]
  rfl

/-- Any item of a list may be read. -/
theorem triple_loadMember {trees : List Tree} {member : Tree}
    (hmember : member ∈ trees) (rest : Assertion Block)
    {following : Item → Prog Block Result}
    (hpre : pre = seg Tree.addr own trees prev next * rest)
    (hnext : ∀ prev next, Triple allocator pre
      (following (itemOf member.name member.data member.children prev next))
      last) :
    Triple allocator pre (loadItem (some member.addr) >>= following) last := by
  obtain ⟨front, later, rfl⟩ := List.append_of_mem hmember
  rw [seg_focus, mul_assoc] at hpre
  exact triple_loadTree _ hpre (hnext _ _)

/-- Assignments to the fields of an item may take in blocks to hang on it. -/
theorem triple_updateTree {change : Item → Item} {extra rest : Assertion Block}
    (name' : Option Stored) (data' : Data) (children' : List Tree)
    {following : Unit → Prog Block Result}
    (hchange : change (itemOf name data children prev next) =
      itemOf name' data' children' prev' next')
    (hbelow : ownBelow name data children * extra =
      ownBelow name' data' children')
    (hnext : Triple allocator
      (own (.node addr name' data' children') prev' next' * rest)
      (following ()) last) :
    Triple allocator
      (own (.node addr name data children) prev next * (extra * rest))
      (update (some addr) change >>= following) last := by
  have hsplit : own (.node addr name data children) prev next *
      (extra * rest) = cell addr (.item (itemOf name data children prev next)) *
      (ownBelow name data children * extra * rest) := by
    rw [own_node]
    ac_rfl
  refine triple_update _ hsplit ?_
  rw [own_node, mul_assoc] at hnext
  rwa [hbelow, hchange]

/-- Assignments to fields that leave what hangs on an item as it is. -/
theorem triple_setData {change : Item → Item} (data' : Data)
    {following : Unit → Prog Block Result}
    (hchange : change (itemOf name data children prev next) =
      itemOf name data' children prev next)
    (hbelow : data.valuestring = data'.valuestring)
    (hnext : Triple allocator (own (.node addr name data' children) prev next)
      (following ()) last) :
    Triple allocator (own (.node addr name data children) prev next)
      (update (some addr) change >>= following) last := by
  have hextend (tree : Tree) : own tree prev next =
      own tree prev next * (1 * 1) := by
    rw [mul_one, mul_one]
  rw [hextend]
  refine triple_updateTree name data' children hchange ?_ ?_
  · rw [mul_one, ownBelow, ownBelow, hbelow]
  · rwa [mul_one]

/-- Assignments to the links of an item. -/
theorem triple_relink {change : Item → Item} (tree : Tree) (prev' next' : Ptr)
    (rest : Assertion Block) {following : Unit → Prog Block Result}
    (hpre : pre = own tree prev next * rest)
    (hchange : ∀ name data children,
      change (itemOf name data children prev next) =
        itemOf name data children prev' next')
    (hnext : Triple allocator (own tree prev' next' * rest)
      (following ()) last) :
    Triple allocator pre (update (some tree.addr) change >>= following)
      last := by
  obtain ⟨addr, name, data, children⟩ := tree
  rw [hpre, ← one_mul rest]
  exact triple_updateTree name data children (hchange _ _ _) (mul_one _) hnext

end Rules

end Conveyor.JsonHeap
