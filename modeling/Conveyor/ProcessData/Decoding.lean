import Conveyor.Json.Integers
import Conveyor.ProcessData.Ownership

/-!
# Decoding the documented message

The documented message is `{"command": %d, "gateNo": %d, "gatePo": %d}`.  Such a
message is decoded exactly.  But `app_control_gate` reads `valueint` whatever
the type of a member, and narrows it, so that other messages collapse onto
documented ones.
-/

namespace Conveyor.ProcessData

open Conveyor.Rtos Conveyor.Gate Conveyor.Json

/-- The member found under the name is a number with this integer value. -/
def MemberInteger (root : CJson) (name : String) (value : ℤ) : Prop :=
  ∃ decimal, cJSONGetObjectItem root (text name) = some (.number decimal) ∧
    decimal.HasValue value

/-- The text is a documented message for this command: its three numbers are
integers in range and those of the command. -/
structure Documents (data : Text) (root : CJson) (sent : GateCommand) :
    Prop where
  parsed : cJSONParse data = some root
  command : MemberInteger root "command" sent.commandName.toNat
  commandInTable : sent.commandName ∈ arrayHandler
  gateNo : MemberInteger root "gateNo" sent.gateNo.toNat
  position : MemberInteger root "gatePo" sent.position.toNat
  positionNamed : sent.position = rightGate ∨ sent.position = leftGate

/-- A documented message passes its command on once, and any other message
passes nothing on; neither uses a deleted tree. -/
def DecodesFaithfully (data : Text) : Prop :=
  ∃ effects, processMessage data = .ok effects ∧
    (∀ root sent, Documents data root sent →
      passedCommands effects = [sent]) ∧
    ((∀ root sent, ¬ Documents data root sent) → passedCommands effects = [])

/-- A message whose `command` has a `valueint` of the table gives three
integers, the gate number in eight bits and the position 0 or 1. -/
def CommandsDocumented (data : Text) : Prop :=
  ∀ root number, cJSONParse data = some root →
    memberValueint root "command" = some number → 0 ≤ number → number ≤ 3 →
    (∃ command, MemberInteger root "command" command) ∧
      (∃ gateNo, MemberInteger root "gateNo" gateNo ∧
        0 ≤ gateNo ∧ gateNo ≤ 255) ∧
      ∃ position, MemberInteger root "gatePo" position ∧
        0 ≤ position ∧ position ≤ 1

/-- The `valueint` of an integer is the integer, saturated. -/
theorem memberValueint_of_integer {data : Text} {root : CJson} {name : String}
    {value : ℤ} (hparse : cJSONParse data = some root)
    (hmember : MemberInteger root name value) :
    memberValueint root name =
      some (max (-2 ^ 31) (min value (2 ^ 31 - 1))) := by
  obtain ⟨decimal, hitem, hvalue⟩ := hmember
  rw [memberValueint, hitem, Option.map_some, CJson.valueint,
    valueint_of_hasValue hvalue (member_mantissa_lt hparse hitem)]

theorem memberValueint_of_small {data : Text} {root : CJson} {name : String}
    {value : ℤ} (hparse : cJSONParse data = some root)
    (hmember : MemberInteger root name value) (hlow : 0 ≤ value)
    (hhigh : value ≤ 255) : memberValueint root name = some value := by
  rw [memberValueint_of_integer hparse hmember, Option.some.injEq]
  omega

/-- An integer whose `valueint` is in range is that `valueint`. -/
theorem memberInteger_eq_valueint {data : Text} {root : CJson} {name : String}
    {value number : ℤ} (hparse : cJSONParse data = some root)
    (hmember : MemberInteger root name value)
    (hnumber : memberValueint root name = some number) (hlow : 0 ≤ number)
    (hhigh : number ≤ 255) : value = number := by
  rw [memberValueint_of_integer hparse hmember, Option.some.injEq] at hnumber
  omega

theorem mem_arrayHandler_iff_toNat (number : UInt32) :
    number ∈ arrayHandler ↔ number.toNat ≤ 3 := by
  simp only [arrayHandler, List.mem_cons, ← UInt32.toNat_inj,
    List.not_mem_nil, or_false]
  change _ = 0 ∨ _ = 1 ∨ _ = 2 ∨ _ = 3 ↔ _
  omega

theorem positionNamed_iff_toNat (position : UInt32) :
    position = rightGate ∨ position = leftGate ↔ position.toNat ≤ 1 := by
  rw [← UInt32.toNat_inj, ← UInt32.toNat_inj]
  change _ = 0 ∨ _ = 1 ↔ _
  omega

theorem uint8_ofInt_toNat (number : UInt8) :
    UInt8.ofInt number.toNat = number := by
  have hnarrowed := toNat_uint8_ofInt number.toNat
  have hlt := number.toNat_lt
  rw [← UInt8.toNat_inj]
  omega

theorem uint32_ofInt_toNat (number : UInt32) :
    UInt32.ofInt number.toNat = number := by
  have hnarrowed := toNat_uint32_ofInt number.toNat
  have hlt := number.toNat_lt
  rw [← UInt32.toNat_inj]
  omega

/-- A documented message asks for its command. -/
theorem Documents.messageCommand_eq {data : Text} {root : CJson}
    {sent : GateCommand} (hdocuments : Documents data root sent) :
    messageCommand data = some sent := by
  have hcommand := (mem_arrayHandler_iff_toNat _).mp hdocuments.commandInTable
  have hposition := (positionNamed_iff_toNat _).mp hdocuments.positionNamed
  have hgateNo := sent.gateNo.toNat_lt
  rw [messageCommand_eq_some_iff]
  refine ⟨root, sent.commandName.toNat, sent.gateNo.toNat, sent.position.toNat,
    hdocuments.parsed, ?_, by omega, ?_, ?_, ?_⟩
  · exact memberValueint_of_small hdocuments.parsed hdocuments.command
      (by omega) (by omega)
  · exact memberValueint_of_small hdocuments.parsed hdocuments.gateNo
      (by omega) (by omega)
  · exact memberValueint_of_small hdocuments.parsed hdocuments.position
      (by omega) (by omega)
  · rw [uint8_ofInt_toNat, uint32_ofInt_toNat, uint32_ofInt_toNat]

/-- What a message with documented commands asks for is what it documents. -/
theorem documents_of_messageCommand {data : Text} {sent : GateCommand}
    (hdocumented : CommandsDocumented data)
    (hmessage : messageCommand data = some sent) :
    ∃ root, Documents data root sent := by
  obtain ⟨root, command, gateNo, position, hparse, hcommand, hrange, hgateNo,
    hposition, rfl⟩ := messageCommand_eq_some_iff.mp hmessage
  obtain ⟨⟨number, hnumber⟩, ⟨gate, hgate, hgateRange⟩,
    ⟨place, hplace, hplaceRange⟩⟩ :=
    hdocumented root command hparse hcommand hrange.1 hrange.2
  obtain rfl : number = command := memberInteger_eq_valueint hparse hnumber
    hcommand hrange.1 (by omega)
  obtain rfl : gate = gateNo := by
    have hvalue := memberValueint_of_small hparse hgate hgateRange.1
      hgateRange.2
    exact Option.some.inj (hvalue.symm.trans hgateNo)
  obtain rfl : place = position := by
    have hvalue := memberValueint_of_small hparse hplace hplaceRange.1
      (by omega)
    exact Option.some.inj (hvalue.symm.trans hposition)
  have hnumberNat := toNat_uint32_ofInt number
  have hgateNat := toNat_uint8_ofInt gate
  have hplaceNat := toNat_uint32_ofInt place
  refine ⟨root, hparse, ?_, ?_, ?_, ?_, ?_⟩
  · rw [hnumberNat, Int.emod_eq_of_lt hrange.1 (by omega)]
    exact hnumber
  · refine (mem_arrayHandler_iff_toNat _).mpr ?_
    change (UInt32.ofInt number).toNat ≤ 3
    omega
  · rw [hgateNat, Int.emod_eq_of_lt hgateRange.1 (by omega)]
    exact hgate
  · rw [hplaceNat, Int.emod_eq_of_lt hplaceRange.1 (by omega)]
    exact hplace
  · refine (positionNamed_iff_toNat _).mpr ?_
    change (UInt32.ofInt place).toNat ≤ 1
    omega

/-- The three integers of a documented message are in range. -/
theorem Documents.commandsDocumented {data : Text} {root : CJson}
    {sent : GateCommand} (hdocuments : Documents data root sent) :
    CommandsDocumented data := by
  intro other number hparse _ _ _
  obtain rfl : root = other :=
    Option.some.inj (hdocuments.parsed.symm.trans hparse)
  have hposition := (positionNamed_iff_toNat _).mp hdocuments.positionNamed
  have hgateNo := sent.gateNo.toNat_lt
  exact ⟨⟨_, hdocuments.command⟩, ⟨_, hdocuments.gateNo, by omega, by omega⟩,
    ⟨_, hdocuments.position, by omega, by omega⟩⟩

/-- A command of the table that is handled without a fault is passed on. -/
theorem messageCommand_isSome {data : Text} {effects : List Effect}
    {root : CJson} {number : ℤ} (hprocess : processMessage data = .ok effects)
    (hparse : cJSONParse data = some root)
    (hnumber : memberValueint root "command" = some number)
    (hlow : 0 ≤ number) (hhigh : number ≤ 3) :
    (messageCommand data).isSome := by
  obtain ⟨hgateNo, hposition⟩ :=
    commandComplete_of_ok hprocess root number hparse hnumber hlow hhigh
  obtain ⟨gateNo, hgateNo⟩ := Option.isSome_iff_exists.mp hgateNo
  obtain ⟨position, hposition⟩ := Option.isSome_iff_exists.mp hposition
  rw [messageCommand_eq_some_iff.mpr ⟨root, number, gateNo, position, hparse,
    hnumber, ⟨hlow, hhigh⟩, hgateNo, hposition, rfl⟩]
  rfl

theorem CommandsDocumented.commandComplete {data : Text}
    (hdocumented : CommandsDocumented data) : CommandComplete data := by
  intro root number hparse hnumber hlow hhigh
  obtain ⟨-, ⟨gateNo, hgateNo, -⟩, ⟨position, hposition, -⟩⟩ :=
    hdocumented root number hparse hnumber hlow hhigh
  rw [memberValueint_of_integer hparse hgateNo,
    memberValueint_of_integer hparse hposition]
  exact ⟨rfl, rfl⟩

theorem DecodesFaithfully.commandsDocumented {data : Text}
    (hdecodes : DecodesFaithfully data) : CommandsDocumented data := by
  obtain ⟨effects, hprocess, -, hother⟩ := hdecodes
  by_cases hdocuments : ∃ root sent, Documents data root sent
  · obtain ⟨root, sent, hdocuments⟩ := hdocuments
    exact hdocuments.commandsDocumented
  · -- Nothing is passed on, so the command is none of the table.
    push Not at hdocuments
    intro root number hparse hnumber hlow hhigh
    have hsome := messageCommand_isSome hprocess hparse hnumber hlow hhigh
    have hnone := hother hdocuments
    rw [passedCommands_processMessage hprocess] at hnone
    cases hmessage : messageCommand data <;> simp [hmessage] at hsome hnone

theorem CommandsDocumented.decodesFaithfully {data : Text}
    (hdocumented : CommandsDocumented data) : DecodesFaithfully data := by
  obtain ⟨effects, hprocess, -⟩ :=
    ownsTree_of_commandComplete hdocumented.commandComplete
  refine ⟨effects, hprocess, fun root sent hdocuments => ?_, fun hnone => ?_⟩
  · rw [passedCommands_processMessage hprocess, hdocuments.messageCommand_eq]
    rfl
  · rw [passedCommands_processMessage hprocess]
    cases hmessage : messageCommand data with
    | none => rfl
    | some sent =>
        obtain ⟨root, hdocuments⟩ :=
          documents_of_messageCommand hdocumented hmessage
        exact absurd hdocuments (hnone root sent)

/-- Messages are decoded faithfully exactly if every one whose `command` has a
`valueint` of the table gives three integers in range. -/
theorem decodesFaithfully_iff (data : Text) :
    DecodesFaithfully data ↔ CommandsDocumented data :=
  ⟨DecodesFaithfully.commandsDocumented, CommandsDocumented.decodesFaithfully⟩

/-- A trigger whose command is a boolean. -/
def booleanCommand : Text :=
  text "\x7b\"command\":true,\"gateNo\":0,\"gatePo\":0\x7d"

/-- The `valueint` of `true` is that of the trigger. -/
theorem not_decodesFaithfully_booleanCommand :
    ¬ DecodesFaithfully booleanCommand := by
  rintro ⟨effects, hprocess, -, hother⟩
  have hpassed : processMessage booleanCommand =
      .ok [.passed ⟨0, gateTriggerCommand, rightGate⟩, .deleted] := by
    decide +kernel
  obtain rfl : effects = _ := Except.ok.inj (hprocess.symm.trans hpassed)
  refine absurd (hother fun root sent hdocuments => ?_) (by decide)
  obtain ⟨decimal, hitem, -⟩ := hdocuments.command
  have hboolean : (cJSONParse booleanCommand).any (fun root =>
      (cJSONGetObjectItem root (text "command")).any cJSONIsNumber) =
        false := by
    decide +kernel
  simp [hdocuments.parsed, hitem, cJSONIsNumber] at hboolean

end Conveyor.ProcessData
