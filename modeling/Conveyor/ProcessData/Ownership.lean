import Conveyor.ProcessData

/-!
# Who deletes the parsed tree

`app_process_data_loop` deletes the tree at its end, and `app_control_gate`
deletes it when `gateNo` or `gatePo` is missing.  Both together delete it twice,
and the loop over the table reads it in between.
-/

namespace Conveyor.ProcessData

open Conveyor.Rtos Conveyor.Gate Conveyor.Json

/-- The tree of a parsed message is deleted once, that of a message that cannot
be parsed not at all, and nothing is read or deleted after the deletion. -/
def OwnsTree (data : Text) : Prop :=
  ∃ effects, processMessage data = .ok effects ∧
    effects.count .deleted = if (cJSONParse data).isSome then 1 else 0

/-- A message with a command of the table has the other two members as well. -/
def CommandComplete (data : Text) : Prop :=
  ∀ root command, cJSONParse data = some root →
    memberValueint root "command" = some command →
    0 ≤ command → command ≤ 3 →
    (memberValueint root "gateNo").isSome ∧
      (memberValueint root "gatePo").isSome

theorem appControlGate_isSome_iff {root : CJson} {command : ℤ}
    (hcommand : memberValueint root "command" = some command) :
    (appControlGate root).isSome ↔
      (memberValueint root "gateNo").isSome ∧
        (memberValueint root "gatePo").isSome := by
  unfold appControlGate
  rw [hcommand]
  cases memberValueint root "gateNo" with
  | none => simp
  | some gateNo => cases memberValueint root "gatePo" <;> simp

/-- No handler is called for a number outside the table. -/
theorem dispatch_of_not_mem {root jsCmd : CJson} {table : List UInt32}
    (hmem : .ofInt jsCmd.valueint ∉ table) :
    dispatch root jsCmd table true = .ok ([], true) := by
  induction table with
  | nil => rfl
  | cons number table ih =>
      rw [List.mem_cons, not_or] at hmem
      rw [dispatch, if_neg (Ne.symm hmem.1)]
      exact ih hmem.2

/-- Handling that does not fault has found all members of a command. -/
theorem appControlGate_isSome_of_ok {data : Text} {root jsCmd : CJson}
    {effects : List Effect} (hparse : cJSONParse data = some root)
    (hitem : cJSONGetObjectItem root (text "command") = some jsCmd)
    (hprocess : processMessage data = .ok effects)
    (hmem : .ofInt jsCmd.valueint ∈ arrayHandler) :
    (appControlGate root).isSome := by
  unfold processMessage at hprocess
  simp only [hparse, hitem] at hprocess
  cases hdispatch : dispatch root jsCmd arrayHandler true with
  | error fault => simp [hdispatch] at hprocess
  | ok outcome =>
      obtain ⟨handled, live⟩ := outcome
      cases live with
      | false => simp [hdispatch] at hprocess
      | true => exact (dispatch_live hdispatch).2 hmem

theorem memberValueint_of_item {root item : CJson} {name : String}
    (hitem : cJSONGetObjectItem root (text name) = some item) :
    memberValueint root name = some item.valueint := by
  rw [memberValueint, hitem, Option.map_some]

theorem commandComplete_of_ok {data : Text} {effects : List Effect}
    (hprocess : processMessage data = .ok effects) : CommandComplete data := by
  intro root command hparse hcommand hlow hhigh
  obtain ⟨jsCmd, hitem, rfl⟩ := Option.map_eq_some_iff.mp hcommand
  have hrange := memberValueint_range hcommand
  have hmem := (mem_arrayHandler_iff hrange.1 hrange.2).mpr ⟨hlow, hhigh⟩
  exact (appControlGate_isSome_iff hcommand).mp
    (appControlGate_isSome_of_ok hparse hitem hprocess hmem)

theorem ownsTree_of_commandComplete {data : Text}
    (hcomplete : CommandComplete data) : OwnsTree data := by
  cases hparse : cJSONParse data with
  | none => exact ⟨[], by simp [processMessage, hparse], by simp [hparse]⟩
  | some root =>
      cases hitem : cJSONGetObjectItem root (text "command") with
      | none =>
          exact ⟨[.deleted], by simp [processMessage, hparse, hitem],
            by simp [hparse]⟩
      | some jsCmd =>
          have hcommand := memberValueint_of_item hitem
          have hrange := memberValueint_range hcommand
          unfold OwnsTree processMessage
          simp only [hparse, hitem]
          by_cases hmem : .ofInt jsCmd.valueint ∈ arrayHandler
          · obtain ⟨hlow, hhigh⟩ :=
              (mem_arrayHandler_iff hrange.1 hrange.2).mp hmem
            obtain ⟨sent, hsent⟩ := Option.isSome_iff_exists.mp
              ((appControlGate_isSome_iff hcommand).mpr
                (hcomplete root _ hparse hcommand hlow hhigh))
            rw [dispatch_of_command hsent, filter_arrayHandler, if_pos hmem]
            exact ⟨[.passed sent, .deleted], rfl, rfl⟩
          · rw [dispatch_of_not_mem hmem]
            exact ⟨[.deleted], rfl, rfl⟩

/-- The tree is deleted once and not used after that exactly when every command
of the table comes with both of the other members. -/
theorem ownsTree_iff (data : Text) : OwnsTree data ↔ CommandComplete data := by
  refine ⟨?_, ownsTree_of_commandComplete⟩
  rintro ⟨effects, hprocess, -⟩
  exact commandComplete_of_ok hprocess

/-- `gateNo` and `gatePo` are missing. -/
theorem not_ownsTree_commandOnly :
    ¬ OwnsTree (text "\x7b\"command\":1\x7d") := by
  rintro ⟨effects, hprocess, -⟩
  have hfault : processMessage (text "\x7b\"command\":1\x7d") =
      .error .useAfterFree := by decide +kernel
  rw [hfault] at hprocess
  contradiction

end Conveyor.ProcessData
