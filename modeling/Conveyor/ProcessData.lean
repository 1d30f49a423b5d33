import Conveyor.Gate.Tasks
import Conveyor.Json.Append

/-!
# Handling one message

`app_process_data_loop` parses a message, looks its command number up in
`array_handler` and lets `app_control_gate` fill and send a gate command.  The
parsed tree is live or deleted; a read or a deletion of a deleted tree ends the
defined behaviour.
-/

namespace Conveyor.ProcessData

open Conveyor.Rtos Conveyor.Gate Conveyor.Json

/-- What handling a message does that can be observed. -/
inductive Effect
  /-- A command is passed to `send_gate_command`. -/
  | passed (command : GateCommand)
  /-- `cJSON_Delete` is called on the tree. -/
  | deleted
  deriving DecidableEq, Repr

/-- The command `app_control_gate` fills, narrowing each `valueint` to the type
of its field; `none` if a member is missing and the tree was deleted. -/
def appControlGate (root : CJson) : Option GateCommand :=
  match memberValueint root "command" with
  | none => none
  | some command =>
      match memberValueint root "gateNo" with
      | none => none
      | some gateNo =>
          match memberValueint root "gatePo" with
          | none => none
          | some position =>
              some
                { gateNo := .ofInt gateNo
                  commandName := .ofInt command
                  position := .ofInt position }

/-- The command numbers of `array_handler`; all entries share one handler. -/
def arrayHandler : List UInt32 :=
  [gateStopCommand, gateTriggerCommand, gateCloseCommand, gateOpenCommand]

/-- The loop over the table.  `js_cmd` is read before every comparison, also
after a handler has deleted the tree; the flag tells whether it is live. -/
def dispatch (root jsCmd : CJson) :
    List UInt32 → Bool → Except Fault (List Effect × Bool)
  | [], live => .ok ([], live)
  | _ :: _, false => .error .useAfterFree
  | number :: table, true =>
      if number = .ofInt jsCmd.valueint then
        match appControlGate root with
        | some command =>
            match dispatch root jsCmd table true with
            | .error fault => .error fault
            | .ok (effects, live) => .ok (.passed command :: effects, live)
        | none =>
            match dispatch root jsCmd table false with
            | .error fault => .error fault
            | .ok (effects, live) => .ok (.deleted :: effects, live)
      else dispatch root jsCmd table true

/-- One message of `app_process_data_loop`. -/
def processMessage (data : Text) : Except Fault (List Effect) :=
  match cJSONParse data with
  | none => .ok []
  | some root =>
      match cJSONGetObjectItem root (text "command") with
      | none => .ok [.deleted]
      | some jsCmd =>
          match dispatch root jsCmd arrayHandler true with
          | .error fault => .error fault
          | .ok (_, false) => .error .useAfterFree
          | .ok (effects, true) => .ok (effects ++ [.deleted])

/-! ## What is passed on -/

def Effect.command : Effect → Option GateCommand
  | .passed command => some command
  | .deleted => none

/-- The commands a list of effects passes to `send_gate_command`. -/
def passedCommands (effects : List Effect) : List GateCommand :=
  effects.filterMap Effect.command

/-- The command a message asks for: its number is in the table and no member is
missing. -/
def messageCommand (data : Text) : Option GateCommand :=
  match cJSONParse data with
  | none => none
  | some root =>
      match memberValueint root "command" with
      | none => none
      | some number =>
          if .ofInt number ∈ arrayHandler then appControlGate root else none

theorem dispatch_dead {root jsCmd : CJson} {table : List UInt32}
    {effects : List Effect} {live : Bool}
    (hdispatch : dispatch root jsCmd table false = .ok (effects, live)) :
    effects = [] ∧ live = false := by
  cases table with
  | nil =>
      simp only [dispatch, Except.ok.injEq, Prod.mk.injEq] at hdispatch
      exact ⟨hdispatch.1.symm, hdispatch.2.symm⟩
  | cons number table => simp [dispatch] at hdispatch

/-- A loop that leaves the tree live has passed the command on once for every
matching entry, and called no deleting handler. -/
theorem dispatch_live {root jsCmd : CJson} {table : List UInt32}
    {effects : List Effect}
    (hdispatch : dispatch root jsCmd table true = .ok (effects, true)) :
    effects = (table.filter (· = .ofInt jsCmd.valueint)).flatMap
        (fun _ => ((appControlGate root).map Effect.passed).toList) ∧
      (.ofInt jsCmd.valueint ∈ table → (appControlGate root).isSome) := by
  induction table generalizing effects with
  | nil =>
      simp only [dispatch, Except.ok.injEq, Prod.mk.injEq, and_true] at hdispatch
      subst hdispatch
      simp
  | cons number table ih =>
      rw [dispatch] at hdispatch
      by_cases hmatch : number = .ofInt jsCmd.valueint
      · rw [if_pos hmatch] at hdispatch
        cases hcommand : appControlGate root with
        | none =>
            cases hrest : dispatch root jsCmd table false with
            | error fault => simp [hcommand, hrest] at hdispatch
            | ok outcome =>
                obtain ⟨later, live⟩ := outcome
                obtain ⟨-, rfl⟩ := dispatch_dead hrest
                simp [hcommand, hrest] at hdispatch
        | some command =>
            cases hrest : dispatch root jsCmd table true with
            | error fault => simp [hcommand, hrest] at hdispatch
            | ok outcome =>
                obtain ⟨later, live⟩ := outcome
                simp only [hcommand, hrest, Except.ok.injEq,
                  Prod.mk.injEq] at hdispatch
                obtain ⟨rfl, rfl⟩ := hdispatch
                simp [(ih hrest).1, hcommand, hmatch]
      · rw [if_neg hmatch] at hdispatch
        obtain ⟨heffects, hsome⟩ := ih hdispatch
        refine ⟨by simp [hmatch, heffects], fun hmem => hsome ?_⟩
        exact (List.mem_cons.mp hmem).resolve_left fun heq => hmatch heq.symm

/-- The table has one entry for each of its numbers. -/
theorem filter_arrayHandler (number : UInt32) :
    arrayHandler.filter (· = number) =
      if number ∈ arrayHandler then [number] else [] := by
  have hnodup : arrayHandler.Nodup := by decide
  rw [List.filter_eq, hnodup.count]
  split <;> rfl

theorem passedCommands_append (first second : List Effect) :
    passedCommands (first ++ second) =
      passedCommands first ++ passedCommands second :=
  List.filterMap_append

theorem passedCommands_passed (command : Option GateCommand) :
    passedCommands (command.map Effect.passed).toList = command.toList := by
  cases command <;> rfl

/-- A message that is handled without a fault passes its command on, once. -/
theorem passedCommands_processMessage {data : Text} {effects : List Effect}
    (hprocess : processMessage data = .ok effects) :
    passedCommands effects = (messageCommand data).toList := by
  unfold processMessage messageCommand memberValueint at *
  cases hparse : cJSONParse data with
  | none =>
      simp only [hparse, Except.ok.injEq] at hprocess
      subst hprocess
      rfl
  | some root =>
      cases hitem : cJSONGetObjectItem root (text "command") with
      | none =>
          simp only [hparse, hitem, Except.ok.injEq] at hprocess
          subst hprocess
          simp [hitem, passedCommands, Effect.command]
      | some jsCmd =>
          cases hdispatch : dispatch root jsCmd arrayHandler true with
          | error fault => simp [hparse, hitem, hdispatch] at hprocess
          | ok outcome =>
              obtain ⟨handled, live⟩ := outcome
              cases live with
              | false => simp [hparse, hitem, hdispatch] at hprocess
              | true =>
                  simp only [hparse, hitem, hdispatch, Except.ok.injEq] at hprocess
                  subst hprocess
                  have hnone : passedCommands [Effect.deleted] = [] := rfl
                  rw [passedCommands_append, hnone, List.append_nil,
                    (dispatch_live hdispatch).1, filter_arrayHandler]
                  simp only [hitem, Option.map_some]
                  split
                  · rw [List.flatMap_singleton, passedCommands_passed]
                  · rfl

/-- Without a missing member no handler deletes the tree. -/
theorem dispatch_of_command {root jsCmd : CJson} {command : GateCommand}
    (hcommand : appControlGate root = some command) (table : List UInt32) :
    dispatch root jsCmd table true =
      .ok ((table.filter (· = .ofInt jsCmd.valueint)).map
        fun _ => .passed command, true) := by
  induction table with
  | nil => rfl
  | cons number table ih =>
      by_cases hmatch : number = .ofInt jsCmd.valueint
      · simp [dispatch, hmatch, hcommand, ih]
      · simp [dispatch, hmatch, ih]

/-- A message that asks for a command passes it on and deletes its tree. -/
theorem processMessage_of_messageCommand {data : Text} {command : GateCommand}
    (hmessage : messageCommand data = some command) :
    processMessage data = .ok [.passed command, .deleted] := by
  unfold processMessage messageCommand memberValueint at *
  cases hparse : cJSONParse data with
  | none => simp [hparse] at hmessage
  | some root =>
      cases hitem : cJSONGetObjectItem root (text "command") with
      | none => simp [hparse, hitem] at hmessage
      | some jsCmd =>
          simp only [hparse, hitem, Option.map_some] at hmessage ⊢
          split at hmessage
          · rename_i hmem
            rw [dispatch_of_command hmessage, filter_arrayHandler, if_pos hmem]
            rfl
          · simp at hmessage

/-- The only fault is the use of a deleted tree. -/
theorem dispatch_error {root jsCmd : CJson} {table : List UInt32} {live : Bool}
    {fault : Fault} (hdispatch : dispatch root jsCmd table live = .error fault) :
    fault = .useAfterFree := by
  induction table generalizing live with
  | nil => simp [dispatch] at hdispatch
  | cons number table ih =>
      cases live with
      | false =>
          rw [dispatch, Except.error.injEq] at hdispatch
          exact hdispatch.symm
      | true =>
          rw [dispatch] at hdispatch
          split at hdispatch
          · cases hcommand : appControlGate root with
            | none =>
                cases hrest : dispatch root jsCmd table false with
                | error found =>
                    simp only [hcommand, hrest, Except.error.injEq] at hdispatch
                    exact ih (hdispatch ▸ hrest)
                | ok outcome => simp [hcommand, hrest] at hdispatch
            | some command =>
                cases hrest : dispatch root jsCmd table true with
                | error found =>
                    simp only [hcommand, hrest, Except.error.injEq] at hdispatch
                    exact ih (hdispatch ▸ hrest)
                | ok outcome => simp [hcommand, hrest] at hdispatch
          · exact ih hdispatch

theorem processMessage_error {data : Text} {fault : Fault}
    (hprocess : processMessage data = .error fault) : fault = .useAfterFree := by
  unfold processMessage at hprocess
  split at hprocess
  · simp at hprocess
  · split at hprocess
    · simp at hprocess
    · split at hprocess
      · rename_i hdispatch
        rw [Except.error.injEq] at hprocess
        exact hprocess ▸ dispatch_error hdispatch
      · rw [Except.error.injEq] at hprocess
        exact hprocess.symm
      · simp at hprocess

/-- The commands that handling a message on its own passes on. -/
def handledCommands (data : Text) : List GateCommand :=
  match processMessage data with
  | .error _ => []
  | .ok effects => passedCommands effects

theorem handledCommands_of_ok {data : Text} {effects : List Effect}
    (hprocess : processMessage data = .ok effects) :
    handledCommands data = passedCommands effects := by
  rw [handledCommands, hprocess]

theorem handledCommands_eq (data : Text) :
    handledCommands data = (messageCommand data).toList := by
  cases hprocess : processMessage data with
  | ok effects =>
      rw [handledCommands_of_ok hprocess, passedCommands_processMessage hprocess]
  | error fault =>
      cases hcommand : messageCommand data with
      | none => rw [handledCommands, hprocess]; rfl
      | some command =>
          rw [processMessage_of_messageCommand hcommand] at hprocess
          simp at hprocess

/-! ## Narrowing -/

theorem toNat_uint8_ofInt (value : ℤ) :
    ((UInt8.ofInt value).toNat : ℤ) = value % 256 := by
  have hlt : (value % 2 ^ 8).toNat < 2 ^ 8 := by omega
  rw [UInt8.ofInt, UInt8.toNat_ofNat_of_lt' hlt]
  omega

theorem toNat_uint32_ofInt (value : ℤ) :
    ((UInt32.ofInt value).toNat : ℤ) = value % 2 ^ 32 := by
  have hlt : (value % 2 ^ 32).toNat < 2 ^ 32 := by omega
  rw [UInt32.ofInt, UInt32.toNat_ofNat_of_lt' hlt]
  omega

/-- The numbers the table handles, before narrowing. -/
theorem mem_arrayHandler_iff {number : ℤ} (hlow : -2 ^ 31 ≤ number)
    (hhigh : number < 2 ^ 31) :
    .ofInt number ∈ arrayHandler ↔ 0 ≤ number ∧ number ≤ 3 := by
  have htoNat := toNat_uint32_ofInt number
  have hmem : .ofInt number ∈ arrayHandler ↔
      (UInt32.ofInt number).toNat ≤ 3 := by
    simp only [arrayHandler, List.mem_cons, ← UInt32.toNat_inj,
      List.not_mem_nil, or_false]
    change _ = 0 ∨ _ = 1 ∨ _ = 2 ∨ _ = 3 ↔ _
    omega
  rw [hmem]
  omega

/-- The three numbers a handled message gives. -/
theorem messageCommand_eq_some_iff {data : Text} {sent : GateCommand} :
    messageCommand data = some sent ↔
      ∃ root command gateNo position, cJSONParse data = some root ∧
        memberValueint root "command" = some command ∧
        (0 ≤ command ∧ command ≤ 3) ∧
        memberValueint root "gateNo" = some gateNo ∧
        memberValueint root "gatePo" = some position ∧
        sent = ⟨.ofInt gateNo, .ofInt command, .ofInt position⟩ := by
  unfold messageCommand appControlGate
  cases hparse : cJSONParse data with
  | none => simp
  | some root =>
      cases hcommand : memberValueint root "command" with
      | none => simp [hcommand]
      | some command =>
          have hrange := memberValueint_range hcommand
          simp only [mem_arrayHandler_iff hrange.1 hrange.2, hcommand]
          cases hgateNo : memberValueint root "gateNo" with
          | none => simp [hgateNo]
          | some gateNo =>
              cases hposition : memberValueint root "gatePo" with
              | none => simp [hposition]
              | some position =>
                  simp [hcommand, hgateNo, hposition, eq_comm]

/-! ## What decides the handling -/

theorem messageCommand_of_parse {left right : Text}
    (hsame : cJSONParse left = cJSONParse right) :
    messageCommand left = messageCommand right := by
  unfold messageCommand
  rw [hsame]

/-- Only the string a buffer starts with matters. -/
theorem messageCommand_of_cString {left right : Text}
    (hsame : cString left = cString right) :
    messageCommand left = messageCommand right := by
  refine messageCommand_of_parse ?_
  unfold cJSONParse
  rw [hsame]

/-- Nothing that follows a complete object is looked at. -/
theorem messageCommand_append {message : Text} {members : List (Text × CJson)}
    (hnul : (0 : UInt8) ∉ message)
    (hparse : cJSONParse message = some (.object members)) (more : Text) :
    messageCommand (message ++ more) = messageCommand message :=
  messageCommand_of_parse
    ((cJSONParse_append hnul hparse more).trans hparse.symm)

end Conveyor.ProcessData
