import Conveyor.JsonHeap.Lookup
import Conveyor.JsonHeap.Parsing
import Conveyor.ProcessData.Ownership

/-!
# Handling one message in memory

`app_process_data_loop` with the pointers it passes around.  Here the tree of a
message is a set of blocks, which the handlers of `array_handler` free under the
feet of their caller if a member is missing.  A complete command leaves the heap
as it was; any other command ends in the use of a freed block.
-/

namespace Conveyor.ProcessData.InMemory

open Conveyor.Separation Conveyor.JsonHeap Conveyor.Json Conveyor.Gate Assertion

/-- A member is read, or the tree deleted if it is missing. -/
def memberOrDelete (jsRoot : Ptr) (name : String)
    (next : ℤ → Prog Block (Option GateCommand)) :
    Prog Block (Option GateCommand) := do
  let item ← cJSONGetObjectItem jsRoot (text name)
  if item = none then do
    cJSONDelete jsRoot
    pure none
  else
    let content ← loadItem item
    next content.valueint

/-- `app_control_gate`, which returns the command it sends. -/
def appControlGate (jsRoot : Ptr) : Prog Block (Option GateCommand) :=
  memberOrDelete jsRoot "command" fun command =>
    memberOrDelete jsRoot "gateNo" fun gateNo =>
      memberOrDelete jsRoot "gatePo" fun position =>
        pure (some
          { gateNo := .ofInt gateNo
            commandName := .ofInt command
            position := .ofInt position })

/-- The loop over the table, which returns the commands it sends. -/
def dispatch (jsRoot jsCmd : Ptr) : List UInt32 → Prog Block (List GateCommand)
  | [] => pure []
  | number :: table => do
      let content ← loadItem jsCmd
      if number = .ofInt content.valueint then do
        let sent ← appControlGate jsRoot
        let later ← dispatch jsRoot jsCmd table
        pure (sent.toList ++ later)
      else dispatch jsRoot jsCmd table

/-- One message of `app_process_data_loop`. -/
def processMessage (data : Text) : Prog Block (List GateCommand) := do
  let jsRoot ← JsonHeap.cJSONParse data
  if jsRoot = none then pure []
  else
    let jsCmd ← cJSONGetObjectItem jsRoot (text "command")
    if jsCmd = none then do
      cJSONDelete jsRoot
      pure []
    else
      let sent ← dispatch jsRoot jsCmd arrayHandler
      cJSONDelete jsRoot
      pure sent

/-! ## Messages that are handled -/

variable {allocator : Allocator Block} {tree : Tree} {root : CJson}

/-- A member of the value is a child of the tree. -/
theorem getObjectItem_of_memberValueint {name : String} {value : ℤ}
    (hdenotes : Denotes tree root)
    (hvalue : memberValueint root name = some value) :
    ∃ child ∈ tree.children,
      tree.getObjectItem (text name) false = some child ∧
        child.data.valueint = value := by
  have hrel := denotes_getObjectItem hdenotes (text name)
  obtain ⟨item, hitem, rfl⟩ := Option.map_eq_some_iff.mp hvalue
  rw [hitem] at hrel
  cases hfound : tree.getObjectItem (text name) false with
  | none => rw [hfound] at hrel; cases hrel
  | some child =>
      rw [hfound] at hrel
      cases hrel with
      | some hchild =>
          exact ⟨child, getObjectItem_mem hfound, rfl, hchild.valueint_eq⟩

theorem getObjectItem_of_missing {name : String} (hdenotes : Denotes tree root)
    (hmissing : memberValueint root name = none) :
    tree.getObjectItem (text name) false = none := by
  have hrel := denotes_getObjectItem hdenotes (text name)
  rw [memberValueint, Option.map_eq_none_iff] at hmissing
  rw [hmissing] at hrel
  cases hfound : tree.getObjectItem (text name) false with
  | none => rfl
  | some child => rw [hfound] at hrel; cases hrel

/-- The search for a member of a tree that stands for a value. -/
theorem triple_member {Result : Type} {name : String}
    {next : Ptr → Prog Block Result} {post : Result → Assertion Block}
    (hdenotes : Denotes tree root)
    (hnone : memberValueint root name = none →
      Triple allocator (own tree none none) (next none) post)
    (hsome : ∀ child ∈ tree.children,
      memberValueint root name = some child.data.valueint →
      Triple allocator (own tree none none) (next (some child.addr)) post) :
    Triple allocator (own tree none none)
      (cJSONGetObjectItem (some tree.addr) (text name) >>= next) post := by
  refine (triple_getObjectItem tree none none (text name) false).bind
    fun item => .of_iSup fun hitem => ?_
  subst hitem
  cases hvalue : memberValueint root name with
  | none =>
      rw [getObjectItem_of_missing hdenotes hvalue]
      exact hnone hvalue
  | some value =>
      obtain ⟨child, hchild, hfound, rfl⟩ :=
        getObjectItem_of_memberValueint hdenotes hvalue
      rw [hfound]
      exact hsome child hchild hvalue

theorem triple_memberOrDelete {name : String}
    {next : ℤ → Prog Block (Option GateCommand)}
    {post : Option GateCommand → Assertion Block} (hdenotes : Denotes tree root)
    (hnone : memberValueint root name = none → 1 ≤ post none)
    (hsome : ∀ value, memberValueint root name = some value →
      Triple allocator (own tree none none) (next value) post) :
    Triple allocator (own tree none none)
      (memberOrDelete (some tree.addr) name next) post := by
  refine triple_member hdenotes (fun hmissing => ?_) fun child hchild hvalue => ?_
  · simp only [if_true]
    exact (triple_cJSONDelete_tree tree none).bind fun _ =>
      .of_pure (hnone hmissing)
  · simp only [reduceCtorEq, if_false]
    exact triple_loadChild hchild fun _ _ => hsome _ hvalue

/-- `app_control_gate` sends the command and keeps the tree, or deletes it. -/
theorem triple_appControlGate (hdenotes : Denotes tree root) :
    Triple allocator (own tree none none) (appControlGate (some tree.addr))
      fun sent => ⨆ _ : sent = ProcessData.appControlGate root,
        if sent.isSome then own tree none none else 1 := by
  refine triple_memberOrDelete hdenotes (fun hcommand => ?_)
    fun command hcommand => triple_memberOrDelete hdenotes (fun hgateNo => ?_)
    fun gateNo hgateNo => triple_memberOrDelete hdenotes (fun hposition => ?_)
    fun position hposition => .of_pure ?_
  · exact le_iSup_of_le (by simp [ProcessData.appControlGate, hcommand]) le_rfl
  · exact le_iSup_of_le
      (by simp [ProcessData.appControlGate, hcommand, hgateNo]) le_rfl
  · exact le_iSup_of_le (by
      simp [ProcessData.appControlGate, hcommand, hgateNo, hposition]) le_rfl
  · exact le_iSup_of_le (by
      simp [ProcessData.appControlGate, hcommand, hgateNo, hposition]) le_rfl

/-- The loop over the table keeps the tree of a complete command. -/
theorem triple_dispatch {child : Tree} (command : GateCommand)
    (hdenotes : Denotes tree root) (hchild : child ∈ tree.children)
    (table : List UInt32)
    (hcommand : .ofInt child.data.valueint ∈ table →
      ProcessData.appControlGate root = some command) :
    Triple allocator (own tree none none)
      (dispatch (some tree.addr) (some child.addr) table)
      fun sent => ⨆ _ : sent =
          (table.filter (· = .ofInt child.data.valueint)).map fun _ => command,
        own tree none none := by
  induction table with
  | nil => exact .of_pure (le_iSup_of_le rfl le_rfl)
  | cons number table ih =>
      have hlater := ih fun hmem => hcommand (List.mem_cons_of_mem _ hmem)
      rw [dispatch]
      refine triple_loadChild hchild fun _ _ => ?_
      by_cases hmatch : number = .ofInt child.data.valueint
      · have hsent := hcommand (by rw [hmatch]; exact List.mem_cons_self)
        simp only [itemOf, hmatch, if_true]
        refine (triple_appControlGate hdenotes).bind fun sent =>
          .of_iSup fun heq => ?_
        rw [hsent] at heq
        subst heq
        refine hlater.bind fun later => .of_iSup fun heq => .of_pure ?_
        exact le_iSup_of_le (by simp [heq]) le_rfl
      · simp only [itemOf, hmatch, if_false]
        refine hlater.weaken fun sent => ?_
        simp [hmatch]

/-- A tree that is deleted at the end of a message. -/
theorem triple_deleteAtEnd {expected : List GateCommand → Prop}
    {sent : List GateCommand} (hsent : expected sent) :
    Triple allocator (own tree none none)
      (cJSONDelete (some tree.addr) >>= fun _ => pure sent)
      fun sent => ⨆ _ : expected sent, 1 :=
  (triple_cJSONDelete_tree tree none).bind fun _ =>
    .of_pure (le_iSup_of_le hsent le_rfl)

/-- Handling a complete message sends what it asks for, unless an allocation
fails, and leaves the heap as it was. -/
theorem triple_processMessage {data : Text} (hcomplete : CommandComplete data) :
    Triple allocator 1 (processMessage data) fun sent =>
      ⨆ _ : sent = handledCommands data ∨ sent = [] ∧ allocator.Fails, 1 := by
  rw [handledCommands_eq]
  refine (triple_cJSONParse data).bind fun jsRoot => ?_
  cases jsRoot with
  | none =>
      refine .of_iSup fun hrejected => .of_pure (le_iSup_of_le ?_ le_rfl)
      exact hrejected.imp (fun hnone => by simp [messageCommand, hnone])
        fun hfails => ⟨rfl, hfails⟩
  | some jsRoot =>
      refine .of_iSup fun tree => .of_iSup fun htree => ?_
      obtain ⟨rfl, root, hparse, hdenotes⟩ := htree
      simp only [reduceCtorEq, if_false]
      refine triple_member hdenotes (fun hnone => ?_) fun child hchild hvalue => ?_
      · exact triple_deleteAtEnd (.inl (by simp [messageCommand, hparse, hnone]))
      simp only [reduceCtorEq, if_false]
      have hrange := memberValueint_range hvalue
      by_cases hmem : .ofInt child.data.valueint ∈ arrayHandler
      · obtain ⟨hlow, hhigh⟩ := (mem_arrayHandler_iff hrange.1 hrange.2).mp hmem
        obtain ⟨command, hcommand⟩ := Option.isSome_iff_exists.mp
          ((appControlGate_isSome_iff hvalue).mpr
            (hcomplete root _ hparse hvalue hlow hhigh))
        refine (triple_dispatch command hdenotes hchild arrayHandler
          fun _ => hcommand).bind fun sent => .of_iSup fun hsent =>
            triple_deleteAtEnd (.inl ?_)
        rw [hsent, filter_arrayHandler, if_pos hmem]
        simp [messageCommand, hparse, hvalue, hmem, hcommand]
      · refine (triple_dispatch ⟨0, 0, 0⟩ hdenotes hchild arrayHandler
          fun hother => absurd hother hmem).bind fun sent =>
            .of_iSup fun hsent => triple_deleteAtEnd (.inl ?_)
        rw [hsent, filter_arrayHandler, if_neg hmem]
        simp [messageCommand, hparse, hvalue, hmem]

/-! ## Messages that are not -/

/-- A tree next to this heap. -/
def Beside (tree : Tree) (others : Heap Block) (memory : Memory Block) : Prop :=
  (own tree none none * exactly others) memory.heap

theorem Beside.not_mem {others : Heap Block} {memory : Memory Block}
    (hbeside : Beside tree others memory) :
    tree.addr ∉ others ∧ ∀ child ∈ tree.children, child.addr ∉ others := by
  obtain ⟨first, second, hfirst, rfl, hdisjoint, -⟩ := hbeside
  exact ⟨hdisjoint _ (mem_of_own hfirst), fun child hchild =>
    hdisjoint _ (mem_of_own_child hfirst hchild)⟩

/-- An item that is gone cannot be read. -/
theorem dispatch_dangling {memory : Memory Block} {jsRoot : Ptr} {jsCmd : Addr}
    {number : UInt32} {table : List UInt32} (hgone : jsCmd ∉ memory.heap) :
    dispatch jsRoot (some jsCmd) (number :: table) allocator memory =
      .error .dangling := by
  rw [dispatch, loadItem, bind_assoc]
  exact load_bind_dangling hgone _

/-- A handler that misses a member deletes the tree.  The loop either goes on to
read it or ends without it. -/
theorem dispatch_incomplete {child : Tree} {others : Heap Block}
    {memory : Memory Block} (hdenotes : Denotes tree root)
    (hchild : child ∈ tree.children)
    (hincomplete : ProcessData.appControlGate root = none)
    {table : List UInt32} (hmem : .ofInt child.data.valueint ∈ table)
    (hbeside : Beside tree others memory) :
    dispatch (some tree.addr) (some child.addr) table allocator memory =
        .error .dangling ∨
      ∃ sent final, dispatch (some tree.addr) (some child.addr) table allocator
          memory = .ok (sent, final) ∧ final.heap = others := by
  induction table generalizing memory with
  | nil => simp at hmem
  | cons number table ih =>
      have hload : Triple allocator (own tree none none)
          (loadItem (some child.addr))
          fun content => ⨆ _ : content.valueint = child.data.valueint,
            own tree none none := by
        rw [← bind_pure (loadItem _)]
        exact triple_loadChild hchild fun _ _ => .of_pure (le_iSup_of_le rfl le_rfl)
      obtain ⟨content, middle, hrun, hmiddle⟩ := hload _ memory hbeside
      obtain ⟨hvalue, hmiddle⟩ := iSup_mul_apply.mp hmiddle
      rw [dispatch, Prog.bind_ok hrun, hvalue]
      by_cases hmatch : number = .ofInt child.data.valueint
      · rw [if_pos hmatch]
        obtain ⟨sent, last, hsent, hlast⟩ :=
          triple_appControlGate hdenotes _ middle hmiddle
        obtain ⟨rfl, hlast⟩ := iSup_mul_apply.mp hlast
        rw [hincomplete] at hsent hlast
        have hothers := one_mul_exactly_apply.mp hlast
        rw [Prog.bind_ok hsent]
        cases table with
        | nil => exact .inr ⟨_, _, rfl, hothers⟩
        | cons number table =>
            refine .inl (Prog.bind_error (dispatch_dangling ?_) _)
            rw [hothers]
            exact hbeside.not_mem.2 child hchild
      · rw [if_neg hmatch]
        exact ih ((List.mem_cons.mp hmem).resolve_left (Ne.symm hmatch)) hmiddle

/-- A message with an incomplete command ends in the use of a freed block. -/
theorem processMessage_dangling {data : Text}
    (hallocates : ¬ allocator.Fails) (hincomplete : ¬ CommandComplete data)
    (memory : Memory Block) :
    processMessage data allocator memory = .error .dangling := by
  unfold CommandComplete at hincomplete
  push Not at hincomplete
  obtain ⟨root, command, hparse, hcommand, hlow, hhigh, hmissing⟩ := hincomplete
  have hnone : ProcessData.appControlGate root = none := by
    rw [← Option.not_isSome_iff_eq_none, appControlGate_isSome_iff hcommand]
    exact fun hboth => hmissing hboth.1 hboth.2
  obtain ⟨jsRoot, parsed, hrun, hparsed⟩ :=
    triple_cJSONParse data (.exactly memory.heap) memory
      (one_mul_exactly_apply.mpr rfl)
  rw [processMessage, Prog.bind_ok hrun]
  cases jsRoot with
  | none =>
      obtain ⟨hrejected, -⟩ := iSup_mul_apply.mp hparsed
      simp [hparse, hallocates] at hrejected
  | some jsRoot =>
      obtain ⟨tree, htree⟩ := iSup_mul_apply.mp hparsed
      obtain ⟨⟨rfl, value, hvalue, hdenotes⟩, hbeside⟩ := iSup_mul_apply.mp htree
      obtain rfl : root = value := Option.some.inj (hparse.symm.trans hvalue)
      obtain ⟨child, hchild, hfound, hnumber⟩ :=
        getObjectItem_of_memberValueint hdenotes hcommand
      obtain ⟨jsCmd, found, hsearch, hsearched⟩ :=
        triple_getObjectItem tree none none (text "command") false
          (.exactly memory.heap) parsed hbeside
      obtain ⟨rfl, hkept⟩ := iSup_mul_apply.mp hsearched
      have hmem : .ofInt child.data.valueint ∈ arrayHandler := by
        have hrange := memberValueint_range hcommand
        rw [hnumber]
        exact (mem_arrayHandler_iff hrange.1 hrange.2).mpr ⟨hlow, hhigh⟩
      simp only [reduceCtorEq, if_false]
      rw [JsonHeap.cJSONGetObjectItem, Prog.bind_ok hsearch, hfound]
      simp only [Option.map_some, reduceCtorEq, if_false]
      obtain hmisuse | ⟨sent, final, hdispatch, hfinal⟩ :=
        dispatch_incomplete hdenotes hchild hnone hmem hkept
      · exact Prog.bind_error hmisuse _
      · rw [Prog.bind_ok hdispatch]
        refine Prog.bind_error (cJSONDelete_dangling ?_) _
        rw [hfinal]
        exact (Beside.not_mem hkept).1

/-- Messages one after the other. -/
def processMessages : List Text → Prog Block (List (List GateCommand))
  | [] => pure []
  | data :: messages => do
      let sent ← processMessage data
      let later ← processMessages messages
      pure (sent :: later)

/-- A message was handled, or an allocation failed and nothing was sent. -/
def Handled (allocator : Allocator Block) (data : Text)
    (sent : List GateCommand) : Prop :=
  sent = handledCommands data ∨ sent = [] ∧ allocator.Fails

/-- However many complete messages arrive, the heap stays as it was. -/
theorem triple_processMessages {messages : List Text}
    (hcomplete : ∀ data ∈ messages, CommandComplete data) :
    Triple allocator 1 (processMessages messages) fun sent =>
      ⨆ _ : List.Forall₂ (Handled allocator) messages sent, 1 := by
  induction messages with
  | nil => exact .of_pure (le_iSup_of_le .nil le_rfl)
  | cons data messages ih =>
      obtain ⟨hdata, hmessages⟩ := List.forall_mem_cons.mp hcomplete
      refine (triple_processMessage hdata).bind fun sent => .of_iSup fun hsent => ?_
      refine (ih hmessages).bind fun later => .of_iSup fun hlater => ?_
      exact .of_pure (le_iSup_of_le (.cons hsent hlater) le_rfl)

theorem processMessages_dangling {messages : List Text}
    (hallocates : ¬ allocator.Fails)
    (hincomplete : ¬ ∀ data ∈ messages, CommandComplete data)
    (memory : Memory Block) :
    processMessages messages allocator memory = .error .dangling := by
  induction messages generalizing memory with
  | nil => simp at hincomplete
  | cons data messages ih =>
      rw [processMessages]
      by_cases hdata : CommandComplete data
      · obtain ⟨sent, middle, hrun, -, -⟩ :=
          (triple_processMessage hdata).run_closed memory
        rw [Prog.bind_ok hrun]
        refine Prog.bind_error (ih ?_ middle) _
        simpa [hdata] using hincomplete
      · exact Prog.bind_error
          (processMessage_dangling hallocates hdata memory) _

/-- Messages are handled without misuse of memory exactly if every command of
the table comes with both of the other members.  Then nothing is left on the
heap, however many there are; otherwise a block is used after it was freed. -/
theorem processMessages_ok_iff (hallocates : ¬ allocator.Fails)
    (messages : List Text) (memory : Memory Block) :
    ((∃ final, processMessages messages allocator memory =
        .ok (messages.map handledCommands, final) ∧
        final.heap = memory.heap) ↔
      ∀ data ∈ messages, CommandComplete data) ∧
    ((¬ ∀ data ∈ messages, CommandComplete data) →
      processMessages messages allocator memory = .error .dangling) := by
  refine ⟨⟨?_, fun hcomplete => ?_⟩, fun hincomplete =>
    processMessages_dangling hallocates hincomplete memory⟩
  · rintro ⟨final, hrun, -⟩
    by_contra hincomplete
    rw [processMessages_dangling hallocates hincomplete] at hrun
    contradiction
  · obtain ⟨sent, final, hrun, hsent, hheap⟩ :=
      (triple_processMessages hcomplete).run_closed memory
    have hall : List.Forall₂ (fun data sent => handledCommands data = sent)
        messages sent := hsent.imp fun data sent hhandled =>
      (hhandled.resolve_right fun hfails => hallocates hfails.2).symm
    rw [List.forall₂_map_left_iff.symm, List.forall₂_eq_eq_eq] at hall
    exact ⟨final, hall ▸ hrun, hheap⟩

theorem processMessages_ok_iff_behind :
    ((∃ final, processMessages [text "[1]", text "\x7b\"command\": 2\x7d"]
        (Allocator.behind Block) ⟨∅, 0⟩ =
          .ok ([text "[1]", text "\x7b\"command\": 2\x7d"].map
            handledCommands, final) ∧ final.heap = ∅) ↔
      ∀ data ∈ [text "[1]", text "\x7b\"command\": 2\x7d"],
        CommandComplete data) ∧
    ((¬ ∀ data ∈ [text "[1]", text "\x7b\"command\": 2\x7d"],
        CommandComplete data) →
      processMessages [text "[1]", text "\x7b\"command\": 2\x7d"]
        (Allocator.behind Block) ⟨∅, 0⟩ = .error .dangling) :=
  processMessages_ok_iff Allocator.not_fails_behind _ _

end Conveyor.ProcessData.InMemory
