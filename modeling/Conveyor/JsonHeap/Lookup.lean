import Conveyor.JsonHeap.Delete
import Conveyor.JsonHeap.Denotation

/-!
# Looking items up

The loops of `cJSON.c` through the children of an item.  They find the item the
lists of children say, and change nothing.  On the tree of a JSON value they find
what the search in the value finds.
-/

namespace Conveyor.JsonHeap

open Conveyor.Separation Conveyor.Json Assertion

/-! ## The searches -/

/-- A walk along `next`, up to an item whose name stops it. -/
def findItem (stops : Ptr → Prog Block Bool) : ℕ → Ptr → Prog Block Ptr
  | _, none => pure none
  | 0, some _ => Prog.fail .endless
  | fuel + 1, some addr => do
      let item ← loadItem (some addr)
      let stop ← stops item.string
      if stop then pure (some addr) else findItem stops fuel item.next

/-- `strcmp(name, string) == 0` -/
def equalNames (name string : Text) : Bool := cString name = cString string

/-- The search stops at a name that is equal; without one it stops only if it is
case sensitive. -/
def stopsAt (name : Text) (caseSensitive : Bool) (string : Ptr) :
    Prog Block Bool :=
  if string = none then pure caseSensitive
  else do
    let content ← loadBytes string
    pure (if caseSensitive then equalNames name content
      else sameName name content)

def getObjectItem (object : Ptr) (name : Text) (caseSensitive : Bool) :
    Prog Block Ptr := do
  if object = none then pure none
  else
    let item ← loadItem object
    let current ← findItem (stopsAt name caseSensitive) (← Prog.liveBlocks)
      item.child
    if current = none then pure none
    else
      let found ← loadItem current
      if found.string = none then pure none else pure current

def cJSONGetObjectItem (object : Ptr) (name : Text) : Prog Block Ptr :=
  getObjectItem object name false

/-- The walk of `get_array_item`. -/
def skipItems : ℕ → Ptr → Prog Block Ptr
  | 0, current => pure current
  | _ + 1, none => pure none
  | index + 1, some addr => do
      let item ← loadItem (some addr)
      skipItems index item.next

def getArrayItem (array : Ptr) (index : ℕ) : Prog Block Ptr := do
  if array = none then pure none
  else
    let item ← loadItem array
    skipItems index item.child

/-- The walk of `cJSON_GetArraySize`. -/
def countItems : ℕ → Ptr → Prog Block ℕ
  | _, none => pure 0
  | 0, some _ => Prog.fail .endless
  | fuel + 1, some addr => do
      let item ← loadItem (some addr)
      let size ← countItems fuel item.next
      pure (size + 1)

/-- `cJSON_GetArraySize`, which casts the `size_t` to an `int`. -/
def cJSONGetArraySize (array : Ptr) : Prog Block ℤ := do
  if array = none then pure 0
  else
    let item ← loadItem array
    let size ← countItems (← Prog.liveBlocks) item.child
    pure (Int.bmod size (2 ^ 32))

/-! ## What they find -/

/-- The search stops at a child with this name. -/
def stopsAtName (name : Text) (caseSensitive : Bool) :
    Option Stored → Bool
  | none => caseSensitive
  | some stored =>
      if caseSensitive then equalNames name stored.content
      else sameName name stored.content

/-- The child `get_object_item` finds. -/
def Tree.getObjectItem (tree : Tree) (name : Text) (caseSensitive : Bool) :
    Option Tree :=
  (tree.children.find? fun child => stopsAtName name caseSensitive child.name)
    |>.filter fun child => child.name.isSome

/-- The child has the name. -/
def HasName (name : Text) (caseSensitive : Bool) (child : Tree) : Prop :=
  ∃ stored, child.name = some stored ∧
    if caseSensitive then equalNames name stored.content
      else sameName name stored.content

theorem HasName.stops {name : Text} {caseSensitive : Bool} {child : Tree}
    (hname : HasName name caseSensitive child) :
    stopsAtName name caseSensitive child.name := by
  obtain ⟨stored, hstored, hequal⟩ := hname
  rw [hstored, stopsAtName]
  cases caseSensitive <;> exact hequal

/-- What is found is the first child with the name. -/
theorem getObjectItem_first {tree child : Tree} {name : Text}
    {caseSensitive : Bool}
    (hfound : tree.getObjectItem name caseSensitive = some child) :
    ∃ front later, tree.children = front ++ child :: later ∧
      HasName name caseSensitive child ∧
      ∀ other ∈ front, ¬ HasName name caseSensitive other := by
  obtain ⟨hfind, hsome⟩ := Option.filter_eq_some_iff.mp hfound
  obtain ⟨hstops, front, later, hsplit, hfront⟩ :=
    List.find?_eq_some_iff_append.mp hfind
  obtain ⟨stored, hstored⟩ := Option.isSome_iff_exists.mp hsome
  refine ⟨front, later, hsplit, ⟨stored, hstored, ?_⟩, fun other hother hname => ?_⟩
  · rw [hstored, stopsAtName] at hstops
    cases caseSensitive <;> exact hstops
  · have hpassed := hfront other hother
    rw [hname.stops] at hpassed
    cases hpassed

theorem getObjectItem_mem {tree child : Tree} {name : Text}
    {caseSensitive : Bool}
    (hfound : tree.getObjectItem name caseSensitive = some child) :
    child ∈ tree.children :=
  List.mem_of_find?_eq_some (Option.filter_eq_some_iff.mp hfound).1

variable {allocator : Allocator Block}

theorem triple_stopsAt (name : Text) (caseSensitive : Bool)
    (text : Option Stored) :
    Triple allocator (ownText text)
      (stopsAt name caseSensitive (text.map Stored.addr))
      fun stop => ⨆ _ : stop = stopsAtName name caseSensitive text,
        ownText text := by
  cases text with
  | none => exact .of_pure (le_iSup_of_le rfl le_rfl)
  | some stored =>
      simp only [stopsAt, Option.map_some, reduceCtorEq, if_false]
      refine triple_loadBytes 1 (mul_one _).symm ?_
      exact .of_pure (le_iSup_of_le rfl le_rfl)

theorem triple_stopsAt_tree (name : Text) (caseSensitive : Bool) (tree : Tree)
    (prev next : Ptr) :
    Triple allocator (own tree prev next)
      (stopsAt name caseSensitive (tree.name.map Stored.addr))
      fun stop => ⨆ _ : stop = stopsAtName name caseSensitive tree.name,
        own tree prev next := by
  obtain ⟨addr, text, data, children⟩ := tree
  refine (triple_stopsAt name caseSensitive text).within
    (cell addr (.item (itemOf text data children prev next)) *
      (ownText data.valuestring * ownChildren children)) ?_ fun stop => ?_
  · rw [own_node, ownBelow]
    ac_rfl
  · rw [iSup_mul, own_node, ownBelow]
    refine iSup_mono fun _ => le_of_eq ?_
    ac_rfl

theorem length_le_sizeList (trees : List Tree) :
    trees.length ≤ sizeList trees := by
  induction trees with
  | nil => exact le_rfl
  | cons tree rest ih =>
      obtain ⟨addr, name, data, children⟩ := tree
      rw [List.length_cons, sizeList, Tree.size]
      omega

theorem triple_findItem {name : Text} {caseSensitive : Bool} {fuel : ℕ}
    {trees : List Tree} {prev : Ptr} (hfuel : trees.length ≤ fuel) :
    Triple allocator (seg Tree.addr own trees prev none)
      (findItem (stopsAt name caseSensitive) fuel
        (firstPtr Tree.addr trees none))
      fun found => ⨆ _ : found = (trees.find? fun child =>
          stopsAtName name caseSensitive child.name).map Tree.addr,
        seg Tree.addr own trees prev none := by
  induction trees generalizing fuel prev with
  | nil => cases fuel <;> exact .of_pure (le_iSup_of_le rfl le_rfl)
  | cons tree rest ih =>
      cases fuel with
      | zero => simp at hfuel
      | succ fuel =>
          rw [List.length_cons, Nat.succ_le_succ_iff] at hfuel
          rw [seg, firstPtr_cons, findItem]
          refine triple_loadTree _ rfl ?_
          refine (triple_stopsAt_tree name caseSensitive tree _ _).call _ rfl
            fun stop => .of_iSup_mul fun hstop => ?_
          cases stop with
          | true =>
              refine .of_pure (le_iSup_of_le ?_ le_rfl)
              simp [← hstop]
          | false =>
              refine (ih hfuel).within _ (mul_comm _ _) fun found => ?_
              rw [iSup_mul, mul_comm]
              refine iSup_mono' fun hfound => ⟨?_, le_rfl⟩
              simp [← hstop, hfound]

/-- A walk through the children of a tree, with as many steps as there may be. -/
theorem triple_children {Result : Type} {tree : Tree} {prev next : Ptr}
    {walk : ℕ → Item → Prog Block Result} {post : Result → Assertion Block}
    (hwalk : ∀ bound back, LeadsBack tree.children back →
      tree.children.length ≤ bound →
      Triple allocator (ownSelf tree prev next *
          seg Tree.addr own tree.children back none)
        (walk bound (itemOf tree.name tree.data tree.children prev next))
        post) :
    Triple allocator (own tree prev next)
      (do
        let item ← loadItem (some tree.addr)
        walk (← Prog.liveBlocks) item) post := by
  refine triple_loadTree 1 (mul_one _).symm ?_
  rw [own_eq_iSup]
  refine .of_iSup fun back => .of_iSup fun hback => ?_
  have hcount : ownSelf tree prev next *
      seg Tree.addr own tree.children back none ≤
        atLeast (0 + sizeList tree.children) :=
    mul_le_atLeast le_atLeast_zero (seg_le_atLeast _ _ _)
  refine .liveBlocks hcount fun bound hbound => hwalk bound back hback ?_
  have hlength := length_le_sizeList tree.children
  omega

/-- `get_object_item` finds the child of that name and changes nothing. -/
theorem triple_getObjectItem (tree : Tree) (prev next : Ptr) (name : Text)
    (caseSensitive : Bool) :
    Triple allocator (own tree prev next)
      (getObjectItem (some tree.addr) name caseSensitive)
      fun found => ⨆ _ : found =
          (tree.getObjectItem name caseSensitive).map Tree.addr,
        own tree prev next := by
  unfold getObjectItem
  simp only [reduceCtorEq, if_false]
  refine triple_children fun bound back hback hbound => ?_
  refine (triple_findItem hbound).call _ (mul_comm _ _) fun found =>
    .of_iSup_mul fun hfound => ?_
  rw [Tree.getObjectItem]
  cases hchild : tree.children.find? fun child =>
      stopsAtName name caseSensitive child.name with
  | none =>
      rw [hchild] at hfound
      subst hfound
      simp only [Option.map_none, if_true]
      exact .of_pure (le_iSup_of_le rfl (seg_mul_ownSelf_le hback))
  | some child =>
      rw [hchild] at hfound
      subst hfound
      simp only [Option.map_some, reduceCtorEq, if_false]
      refine triple_loadMember (List.mem_of_find?_eq_some hchild)
        (ownSelf tree prev next) rfl fun before after => ?_
      cases hname : child.name with
      | none =>
          simp only [itemOf, Option.map_none, if_true]
          exact .of_pure (le_iSup_of_le (by simp [hname])
            (seg_mul_ownSelf_le hback))
      | some stored =>
          simp only [itemOf, Option.map_some, reduceCtorEq, if_false]
          exact .of_pure (le_iSup_of_le (by simp [hname])
            (seg_mul_ownSelf_le hback))

theorem triple_skipItems (index : ℕ) (trees : List Tree) (prev : Ptr) :
    Triple allocator (seg Tree.addr own trees prev none)
      (skipItems index (firstPtr Tree.addr trees none))
      fun found => ⨆ _ : found = trees[index]?.map Tree.addr,
        seg Tree.addr own trees prev none := by
  induction index generalizing trees prev with
  | zero => cases trees <;> exact .of_pure (le_iSup_of_le rfl le_rfl)
  | succ index ih =>
      cases trees with
      | nil => exact .of_pure (le_iSup_of_le rfl le_rfl)
      | cons tree rest =>
          rw [seg, firstPtr_cons, skipItems]
          refine triple_loadTree _ rfl ?_
          refine (ih rest _).within _ (mul_comm _ _) fun found => ?_
          rw [iSup_mul, mul_comm]
          exact le_rfl

/-- `get_array_item` finds the child with that number and changes nothing. -/
theorem triple_getArrayItem (tree : Tree) (prev next : Ptr) (index : ℕ) :
    Triple allocator (own tree prev next) (getArrayItem (some tree.addr) index)
      fun found => ⨆ _ : found = tree.children[index]?.map Tree.addr,
        own tree prev next := by
  unfold getArrayItem
  simp only [reduceCtorEq, if_false]
  refine triple_loadTree 1 (mul_one _).symm ?_
  rw [own_eq_iSup]
  refine .of_iSup fun back => .of_iSup fun hback => ?_
  refine (triple_skipItems index tree.children back).within _ (mul_comm _ _)
    fun found => ?_
  rw [iSup_mul, ← own_eq_iSup]
  exact iSup_mono fun _ => seg_mul_ownSelf_le hback

theorem triple_countItems {fuel : ℕ} {trees : List Tree} {prev : Ptr}
    (hfuel : trees.length ≤ fuel) :
    Triple allocator (seg Tree.addr own trees prev none)
      (countItems fuel (firstPtr Tree.addr trees none))
      fun size => ⨆ _ : size = trees.length,
        seg Tree.addr own trees prev none := by
  induction trees generalizing fuel prev with
  | nil => cases fuel <;> exact .of_pure (le_iSup_of_le rfl le_rfl)
  | cons tree rest ih =>
      cases fuel with
      | zero => simp at hfuel
      | succ fuel =>
          rw [List.length_cons, Nat.succ_le_succ_iff] at hfuel
          rw [seg, firstPtr_cons, countItems]
          refine triple_loadTree _ rfl ?_
          refine (ih hfuel).call _ (mul_comm _ _) fun size =>
            .of_iSup_mul fun hsize => .of_pure (le_iSup_of_le ?_ ?_)
          · rw [hsize, List.length_cons]
          · rw [mul_comm]

/-- `cJSON_GetArraySize` counts the children, as an `int`. -/
theorem triple_cJSONGetArraySize (tree : Tree) (prev next : Ptr) :
    Triple allocator (own tree prev next) (cJSONGetArraySize (some tree.addr))
      fun size => ⨆ _ : size = Int.bmod tree.children.length (2 ^ 32),
        own tree prev next := by
  unfold cJSONGetArraySize
  simp only [reduceCtorEq, if_false]
  refine triple_children fun bound back hback hbound => ?_
  refine (triple_countItems hbound).call _ (mul_comm _ _) fun size =>
    .of_iSup_mul fun hsize => .of_pure ?_
  exact le_iSup_of_le (by rw [hsize]) (seg_mul_ownSelf_le hback)

/-- The children of a tree may be read. -/
theorem triple_loadChild {Result : Type} {tree child : Tree} {prev next : Ptr}
    (hchild : child ∈ tree.children) {following : Item → Prog Block Result}
    {last : Result → Assertion Block}
    (hnext : ∀ before after, Triple allocator (own tree prev next)
      (following (itemOf child.name child.data child.children before after))
      last) :
    Triple allocator (own tree prev next)
      (loadItem (some child.addr) >>= following) last := by
  rw [own_eq_iSup]
  refine .of_iSup fun back => .of_iSup fun hback => ?_
  refine triple_loadMember hchild (ownSelf tree prev next) (mul_comm _ _)
    fun before after => ?_
  refine (hnext before after).consequence ?_ fun _ => le_rfl
  rw [mul_comm]
  exact seg_mul_ownSelf_le hback

/-! ## Trees of JSON values -/

theorem find_member {children : List Tree} {members : List (Text × CJson)}
    (hmembers : List.Forall₂ HoldsMember children members) (name : Text)
    (caseSensitive : Bool) :
    Option.Rel HoldsMember
      (children.find? fun child => stopsAtName name caseSensitive child.name)
      (members.find? fun member => if caseSensitive then
        equalNames name member.1 else sameName name member.1) := by
  induction hmembers with
  | nil => exact .none
  | @cons child member children members hmember hrest ih =>
      obtain ⟨stored, hstored, hcontent⟩ := Option.map_eq_some_iff.mp hmember.1
      have hstops : stopsAtName name caseSensitive child.name =
          if caseSensitive then equalNames name member.1
            else sameName name member.1 := by
        rw [hstored, ← hcontent]
        rfl
      rw [List.find?_cons, List.find?_cons, hstops]
      split
      · exact .some hmember
      · exact ih

/-- The member `get_object_item` finds; only objects have named children. -/
def memberNamed (value : CJson) (name : Text) (caseSensitive : Bool) :
    Option CJson :=
  match value with
  | .object members =>
      (members.find? fun member => if caseSensitive then
        equalNames name member.1 else sameName name member.1).map Prod.snd
  | _ => none

theorem memberNamed_false (value : CJson) (name : Text) :
    memberNamed value name false = Json.cJSONGetObjectItem value name := by
  cases value <;> rfl

/-- The search in a tree is the search in the value. -/
theorem denotes_memberNamed {tree : Tree} {value : CJson}
    (hdenotes : Denotes tree value) (name : Text) (caseSensitive : Bool) :
    Option.Rel Denotes (tree.getObjectItem name caseSensitive)
      (memberNamed value name caseSensitive) := by
  unfold Tree.getObjectItem
  cases value with
  | object members =>
      have hfind := find_member hdenotes.holdsMembers name caseSensitive
      rw [memberNamed]
      generalize tree.children.find? _ = found at hfind ⊢
      generalize members.find? _ = expected at hfind ⊢
      cases hfind with
      | none => exact .none
      | some hmember =>
          obtain ⟨stored, hstored, -⟩ := Option.map_eq_some_iff.mp hmember.1
          rw [Option.filter_some_pos (by rw [hstored]; rfl)]
          exact .some hmember.2
  | array elements =>
      cases hdenotes with
      | @array _ _ _ children _ hnames _ =>
          -- a case sensitive search stops at the first element, which has no name
          have hnone : ((children.find? fun child =>
              stopsAtName name caseSensitive child.name).filter
                fun child => child.name.isSome) = none := by
            refine Option.filter_eq_none_iff.mpr fun child hfound => ?_
            rw [hnames child (List.mem_of_find?_eq_some hfound)]
            exact Bool.false_ne_true
          rw [Tree.children_node, hnone]
          exact .none
  | _ =>
      cases hdenotes
      exact .none

theorem denotes_getObjectItem {tree : Tree} {value : CJson}
    (hdenotes : Denotes tree value) (name : Text) :
    Option.Rel Denotes (tree.getObjectItem name false)
      (Json.cJSONGetObjectItem value name) := by
  rw [← memberNamed_false]
  exact denotes_memberNamed hdenotes name false

/-! ## Nothing changes -/

theorem readOnly_loadItem (ptr : Ptr) : (loadItem ptr).ReadOnly :=
  (Prog.ReadOnly.load ptr).bind fun block => by
    cases block with
    | item content => exact .pure content
    | _ => exact .fail .dangling

theorem readOnly_loadBytes (ptr : Ptr) : (loadBytes ptr).ReadOnly :=
  (Prog.ReadOnly.load ptr).bind fun block => by
    cases block with
    | bytes size content => exact .pure content
    | _ => exact .fail .dangling

theorem readOnly_stopsAt (name : Text) (caseSensitive : Bool) (string : Ptr) :
    (stopsAt name caseSensitive string).ReadOnly := by
  unfold stopsAt
  split
  · exact .pure _
  · exact (readOnly_loadBytes string).bind fun content => .pure _

theorem readOnly_findItem {stops : Ptr → Prog Block Bool}
    (hstops : ∀ string, (stops string).ReadOnly) (fuel : ℕ) (current : Ptr) :
    (findItem stops fuel current).ReadOnly := by
  induction fuel generalizing current with
  | zero =>
      cases current with
      | none => exact .pure none
      | some addr => exact .fail .endless
  | succ fuel ih =>
      cases current with
      | none => exact .pure none
      | some addr =>
          refine (readOnly_loadItem (some addr)).bind fun item =>
            (hstops item.string).bind fun stop => ?_
          cases stop with
          | true => exact .pure (some addr)
          | false => exact ih item.next

theorem readOnly_getObjectItem (object : Ptr) (name : Text)
    (caseSensitive : Bool) :
    (getObjectItem object name caseSensitive).ReadOnly := by
  unfold getObjectItem
  split
  · exact .pure none
  refine (readOnly_loadItem object).bind fun item =>
    Prog.ReadOnly.liveBlocks.bind fun bound =>
      (readOnly_findItem (readOnly_stopsAt name caseSensitive) bound
        item.child).bind fun current => ?_
  split
  · exact .pure none
  refine (readOnly_loadItem current).bind fun found => ?_
  split
  · exact .pure none
  · exact .pure current

/-- On the tree of a value `get_object_item` finds the first child with the name,
which stands for the first member of that name, or NULL if there is none; it
changes nothing. -/
theorem getObjectItem_finds (allocator : Allocator Block) {tree : Tree}
    {value : CJson} {others : Heap Block} (memory : Memory Block)
    (hdenotes : Denotes tree value)
    (hheap : (own tree none none * exactly others) memory.heap)
    (name : Text) (caseSensitive : Bool) :
    ∃ item, getObjectItem (some tree.addr) name caseSensitive allocator memory =
        .ok (item, memory) ∧
      match memberNamed value name caseSensitive with
      | none => item = none
      | some found => ∃ front child later,
          tree.children = front ++ child :: later ∧ item = some child.addr ∧
          HasName name caseSensitive child ∧
          (∀ other ∈ front, ¬ HasName name caseSensitive other) ∧
          Denotes child found := by
  obtain ⟨item, final, hrun, hfinal⟩ :=
    triple_getObjectItem tree none none name caseSensitive (exactly others)
      memory hheap
  obtain rfl := readOnly_getObjectItem _ _ _ _ _ _ _ hrun
  obtain ⟨rfl, -⟩ := iSup_mul_apply.mp hfinal
  refine ⟨_, hrun, ?_⟩
  have hrel := denotes_memberNamed hdenotes name caseSensitive
  cases hfound : tree.getObjectItem name caseSensitive with
  | none =>
      rw [hfound] at hrel
      generalize memberNamed value name caseSensitive = expected at hrel ⊢
      cases hrel
      rfl
  | some child =>
      rw [hfound] at hrel
      generalize memberNamed value name caseSensitive = expected at hrel ⊢
      cases hrel with
      | some hchild =>
          obtain ⟨front, later, hsplit, hname, hfront⟩ :=
            getObjectItem_first hfound
          exact ⟨front, child, later, hsplit, rfl, hname, hfront, hchild⟩

/-! ## An object with two members of one name -/

/-- A member whose value is `true` or `false`. -/
def flagMember (addr : Addr) (name : String) (type : Kind) (valueint : ℤ) : Tree :=
  .node addr (some ⟨addr + 1, 2, text name⟩)
    { Data.blank type with valueint := valueint } []

/-- `{"a": true, "b": false, "B": false}` -/
def flags : Tree :=
  .node 1 none (.blank .object) [flagMember 2 "a" .true 1,
    flagMember 4 "b" .false 0, flagMember 6 "B" .false 0]

/-- The blocks of a member. -/
def flagBlocks (member : Tree) (prev next : Ptr) :
    List (Sigma fun _ : Addr => Block) :=
  [⟨member.addr, .item (itemOf member.name member.data [] prev next)⟩,
    ⟨member.addr + 1, .bytes 2 ((member.name.map Stored.content).getD [])⟩]

def otherText : Heap Block := Finmap.singleton 8 (.bytes 1 [])

def flagsHeap : Heap Block :=
  List.toFinmap (⟨1, .item (itemOf none (.blank .object) flags.children none none)⟩
    :: (flagBlocks (flagMember 2 "a" .true 1) (some 6) (some 4) ++
      (flagBlocks (flagMember 4 "b" .false 0) (some 2) (some 6) ++
        (flagBlocks (flagMember 6 "B" .false 0) (some 4) none ++
          [⟨8, .bytes 1 []⟩]))))

theorem own_flagMember (addr : Addr) (name : String) (type : Kind)
    (valueint : ℤ) (prev next : Ptr) :
    own (flagMember addr name type valueint) prev next =
      cell addr (.item (itemOf (some ⟨addr + 1, 2, text name⟩)
        { Data.blank type with valueint := valueint } [] prev next)) *
        cell (addr + 1) (.bytes 2 (text name)) := by
  rw [flagMember, own_node, ownBelow, ownChildren_nil]
  simp [ownText, Data.blank]

theorem own_flagsHeap :
    (own flags none none * exactly otherText : Assertion Block) flagsHeap := by
  rw [own_eq_iSup, iSup_mul_apply]
  refine ⟨some 6, iSup_mul_apply.mpr ⟨.inr rfl, ?_⟩⟩
  simp only [ownSelf, flags, Tree.name_node, Tree.data_node, Tree.children_node,
    Tree.addr_node, seg, own_flagMember, ownText, Data.blank, mul_assoc, one_mul]
  iterate 7 refine cell_mul_apply.mpr ⟨rfl, ?_⟩
  rfl

theorem denotes_flags : Denotes flags (.object
    [(text "a", .true), (text "b", .false), (text "B", .false)]) :=
  .object rfl (.cons .true (.cons .false (.cons .false .nil)))

theorem getObjectItem_finds_flags :
    getObjectItem (some 1) (text "b") false (Allocator.behind Block)
      ⟨flagsHeap, 8⟩ = .ok (some 4, ⟨flagsHeap, 8⟩) := by
  obtain ⟨item, hrun, front, child, later, hsplit, rfl, hname, hfront, -⟩ :=
    getObjectItem_finds (Allocator.behind Block) ⟨flagsHeap, 8⟩ denotes_flags
      own_flagsHeap (text "b") false
  refine hrun.trans ?_
  have hsecond : HasName (text "b") false (flagMember 4 "b" .false 0) :=
    ⟨_, rfl, by decide⟩
  -- the first child has another name, and the third is not the first of its name
  cases front with
  | nil =>
      obtain rfl := (List.cons.inj hsplit).1
      obtain ⟨stored, hstored, hequal⟩ := hname
      obtain rfl := Option.some.inj hstored
      exact absurd hequal (by decide)
  | cons first front =>
      have hrest := (List.cons.inj hsplit).2
      cases front with
      | nil =>
          obtain rfl := (List.cons.inj hrest).1
          rfl
      | cons second front =>
          obtain rfl := (List.cons.inj hrest).1
          exact absurd hsecond (hfront _ (by simp))

end Conveyor.JsonHeap
