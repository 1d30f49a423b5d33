import Conveyor.Gate.Observations

/-!
# Whole passes of the scan loop

The lemmas below string steps of `io_scan_task` together into a whole pass:
take a command if there is one, write it, read both ports and come back to the
top of the loop.  The bytes the reads deliver are chosen to bring the input
shadow to a given target.
-/

namespace Conveyor.Gate

open Conveyor.Core Conveyor.Rtos Conveyor.IoDriver

/-- Steps of the two tasks in which every call succeeds. -/
def Action.OfTasks : Action → Prop
  | .controller => True
  | .ioScan (.ok _) => True
  | _ => False

/-- The two tasks can go from one state to the other with these events. -/
def Path (state : State) (trace : List Event) (final : State) : Prop :=
  ∃ actions, (∀ action ∈ actions, action.OfTasks) ∧
    run state actions = .ok (final, trace)

theorem Path.refl (state : State) : Path state [] state :=
  ⟨[], by simp, rfl⟩

theorem Path.of_move {state next : State} {action : Action} {now : List Event}
    (hmove : Move state action next now) (htasks : action.OfTasks) :
    Path state now next :=
  ⟨[action], by simpa using htasks, Runs.run_one (step_of_move hmove)⟩

theorem Path.trans {state middle final : State} {first second : List Event}
    (hfirst : Path state first middle) (hsecond : Path middle second final) :
    Path state (first ++ second) final := by
  obtain ⟨here, hhere, hrunHere⟩ := hfirst
  obtain ⟨there, hthere, hrunThere⟩ := hsecond
  refine ⟨here ++ there, fun action hmem => ?_,
    Runs.run_append hrunHere hrunThere⟩
  exact (List.mem_append.mp hmem).elim (hhere action) (hthere action)

theorem Path.sound {state final : State} {trace : List Event}
    (hpath : Path state trace final) (hsound : Sound state) : Sound final := by
  obtain ⟨actions, -, hrun⟩ := hpath
  exact hsound.run hrun

theorem Path.changes {state middle : State} {first : List Event}
    (hpath : Path state first middle) (port : Port) (pin : Pin)
    (second : List Event) :
    changes (state.data.input port pin)
        (storedLevels port pin (first ++ second)) =
      changes (state.data.input port pin) (storedLevels port pin first) +
        changes (middle.data.input port pin)
          (storedLevels port pin second) := by
  obtain ⟨actions, -, hrun⟩ := hpath
  exact changes_run hrun port pin second

theorem Path.input {state final : State} {trace : List Event}
    (hpath : Path state trace final) (port : Port) (pin : Pin) :
    final.data.input port pin =
      (storedLevels port pin trace).getLastD (state.data.input port pin) := by
  obtain ⟨actions, -, hrun⟩ := hpath
  exact input_run hrun port pin

/-! ## Reading a port -/

/-- Delivering the shadow byte of a port brings its inputs to that shadow. -/
theorem pinLevel_shadowByte {levels : Pin → UInt8} {pin : Pin}
    (hlevel : levels pin = 0 ∨ levels pin = 1) :
    pinLevel (shadowByte levels) pin = levels pin := by
  rw [pinLevel_eq, getLsbD_shadowByte]
  rcases hlevel with hzero | hone
  · simp [hzero]
  · simp [hone]

/-- The shadow after the pins of a port from `pin` on were stored. -/
def storedInput (input : Port → Pin → UInt8) (port : Port) (pin : Pin)
    (value : Byte) : Port → Pin → UInt8 :=
  fun p k => if p = port ∧ pin ≤ k then pinLevel value k else input p k

theorem storedInput_zero (input : Port → Pin → UInt8) (port : Port)
    (value : Byte) :
    storedInput input port 0 value =
      fun p k => if p = port then pinLevel value k else input p k := by
  funext p k
  simp [storedInput]

private theorem setPin_last (input : Port → Pin → UInt8) (port : Port)
    {pin : Pin} (value : Byte) (hlast : pin.val = 7) :
    setPin input port pin (pinLevel value pin) =
      storedInput input port pin value := by
  funext p k
  have hpin : k = pin ↔ pin ≤ k := by
    rw [Fin.ext_iff, Fin.le_def]
    omega
  by_cases hhere : p = port ∧ k = pin
  · simp [setPin, storedInput, hhere.1, hhere.2]
  · have hnot : ¬(p = port ∧ pin ≤ k) := by rwa [← hpin]
    simp [setPin, storedInput, hhere, hnot]

/-- The next pin and those after it. -/
private theorem next_le_iff {pin next k : Pin}
    (hnext : next.val = pin.val + 1) : next ≤ k ↔ pin ≤ k ∧ k ≠ pin := by
  rw [Fin.le_def, Fin.le_def, ne_eq, Fin.ext_iff]
  omega

private theorem storedInput_setPin (input : Port → Pin → UInt8) (port : Port)
    (pin next : Pin) (value : Byte) (hnext : next.val = pin.val + 1) :
    storedInput (setPin input port pin (pinLevel value pin)) port next value =
      storedInput input port pin value := by
  funext p k
  by_cases hpin : k = pin
  · subst hpin
    simp [storedInput, setPin, next_le_iff hnext]
  · simp [storedInput, setPin, next_le_iff hnext, hpin]

/-- The rest of a read: every remaining pin is stored once. -/
theorem path_stores {port : Port} {value : Byte} {good : Bool} (count : ℕ)
    (pin : Pin) (state : State) (hcount : pin.val + count = 7)
    (hscan : state.scan = .store .scan port pin value good) :
    ∃ trace, Path state trace
        { state with
          data := { state.data with
            input := storedInput state.data.input port pin value }
          scan := afterPort .scan port } ∧
      ∀ p k, storedLevels p k trace =
        if p = port ∧ pin ≤ k then [pinLevel value k] else [] := by
  induction count generalizing pin state with
  | zero =>
      have hmove := Move.store (.ok 0#8) .scan port pin value good hscan
      have hafter : afterStore .scan port pin value good =
          afterPort .scan port := by
        simp [afterStore, nextPin, show ¬ pin.val + 1 < 8 by omega]
      rw [hafter, setPin_last _ port value (by omega)] at hmove
      refine ⟨_, Path.of_move hmove trivial, fun p k => ?_⟩
      rw [storedLevels_stored]
      have hpin : pin = k ↔ pin ≤ k := by
        rw [Fin.ext_iff, Fin.le_def]
        omega
      by_cases hhere : port = p ∧ pin = k
      · obtain ⟨rfl, rfl⟩ := hhere
        simp
      · have hnot : ¬(p = port ∧ pin ≤ k) := fun hsame =>
          hhere ⟨hsame.1.symm, hpin.mpr hsame.2⟩
        rw [if_neg hhere, if_neg hnot]
  | succ count ih =>
      have hmove := Move.store (.ok 0#8) .scan port pin value good hscan
      have hroom : pin.val + 1 < 8 := by omega
      have hafter : afterStore .scan port pin value good =
          .store .scan port ⟨pin.val + 1, hroom⟩ value good := by
        simp [afterStore, nextPin, hroom]
      rw [hafter] at hmove
      obtain ⟨trace, hpath, hlevels⟩ := ih ⟨pin.val + 1, hroom⟩
        { state with
          data := { state.data with
            input := setPin state.data.input port pin (pinLevel value pin) }
          scan := .store .scan port ⟨pin.val + 1, hroom⟩ value good }
        (by simp only; omega) rfl
      simp only [storedInput_setPin state.data.input port pin
        ⟨pin.val + 1, hroom⟩ value rfl] at hpath
      refine ⟨_, (Path.of_move hmove trivial).trans hpath, fun p k => ?_⟩
      rw [storedLevels_append, storedLevels_stored, hlevels]
      have hnext : (⟨pin.val + 1, hroom⟩ : Pin) ≤ k ↔ pin ≤ k ∧ k ≠ pin :=
        next_le_iff rfl
      by_cases hpin : k = pin
      · subst hpin
        simp [hnext, eq_comm]
      · simp [hnext, hpin, Ne.symm hpin]

/-- One read of a port that delivers `value`. -/
theorem path_read {port : Port} (value : Byte) (state : State)
    (hscan : state.scan = .transfer .scan port) :
    ∃ trace, Path state trace
        { state with
          data := { state.data with
            input := fun p k =>
              if p = port then pinLevel value k else state.data.input p k }
          scan := afterPort .scan port } ∧
      ∀ p k, storedLevels p k trace =
        if p = port then [pinLevel value k] else [] := by
  have hmove := Move.transfer (.ok value) .scan port hscan
  obtain ⟨trace, hpath, hlevels⟩ := path_stores 7 0
    { state with
      scan := .store .scan port 0 (readValue (.ok value)) true } rfl rfl
  rw [storedInput_zero] at hpath
  refine ⟨_, (Path.of_move hmove trivial).trans hpath, fun p k => ?_⟩
  rw [List.nil_append, hlevels]
  simp [readValue]

/-- Both reads of a pass, bringing the input shadow to a target. -/
theorem path_reads {target : Port → Pin → UInt8} (htarget : IsLevels target)
    (state : State) (hscan : state.scan = .transfer .scan 0) :
    ∃ trace, Path state trace
        { state with
          data := { state.data with input := target }
          scan := .top } ∧
      ∀ p k, storedLevels p k trace = [target p k] := by
  obtain ⟨first, hfirst, hfirstLevels⟩ :=
    path_read (shadowByte (target 0)) state hscan
  obtain ⟨second, hsecond, hsecondLevels⟩ :=
    path_read (shadowByte (target 1))
      { state with
        data := { state.data with
          input := fun p k => if p = 0 then
            pinLevel (shadowByte (target 0)) k else state.data.input p k }
        scan := .transfer .scan 1 } rfl
  have hinput : (fun p k => if p = (1 : Port) then
      pinLevel (shadowByte (target 1)) k else
        if p = 0 then pinLevel (shadowByte (target 0)) k
        else state.data.input p k) = target := by
    funext p k
    match p with
    | 0 => simpa using pinLevel_shadowByte (htarget 0 k)
    | 1 => simpa using pinLevel_shadowByte (htarget 1 k)
  refine ⟨first ++ second, ?_, fun p k => ?_⟩
  · simp only [hinput] at hsecond
    exact hfirst.trans hsecond
  · rw [storedLevels_append, hfirstLevels, hsecondLevels]
    match p with
    | 0 => simpa using pinLevel_shadowByte (htarget 0 k)
    | 1 => simpa using pinLevel_shadowByte (htarget 1 k)

/-- Some target differs from the shadow at the given pin. -/
theorem exists_flipped {input : Port → Pin → UInt8} (hlevels : IsLevels input)
    (port : Port) (pin : Pin) :
    ∃ target, IsLevels target ∧ target port pin ≠ input port pin := by
  obtain ⟨level, hlevel, hflip⟩ : ∃ level : UInt8, (level = 0 ∨ level = 1) ∧
      level ≠ input port pin := by
    rcases hlevels port pin with hzero | hone
    · exact ⟨1, .inr rfl, by simp [hzero]⟩
    · exact ⟨0, .inl rfl, by simp [hone]⟩
  refine ⟨setPin input port pin level, fun p k => ?_, ?_⟩
  · rw [setPin_apply]
    split
    · exact hlevel
    · exact hlevels p k
  · rwa [setPin_same]

/-! ## Whole passes -/

/-- A pass with nothing to write. -/
theorem path_pass {target : Port → Pin → UInt8} (htarget : IsLevels target)
    (state : State) (hscan : state.scan = .top) (hqueue : state.ioQueue.isSome)
    (hempty : contents state.ioQueue = []) :
    ∃ trace, Path state trace
        { state with
          data := { state.data with input := target }
          scan := .top } ∧
      ∀ p k, storedLevels p k trace = [target p k] := by
  have hmove := Move.nothingQueued (.ok 0#8) _ hscan
    (xQueueReceive_nil hqueue hempty)
  obtain ⟨trace, hpath, hlevels⟩ := path_reads htarget
    { state with scan := .transfer .scan 0 } rfl
  exact ⟨_, (Path.of_move hmove trivial).trans hpath, hlevels⟩

/-- The state after the command was written and both ports were read. -/
def written (state : State) (queue : QueueHandle OutputCommand)
    (command : OutputCommand) (port : Port) (pin : Pin)
    (target : Port → Pin → UInt8) : State :=
  { state with
    ioQueue := queue
    data := {
      input := target
      output := setPin state.data.output port pin
        (if command.state then 1 else 0) }
    bus := Function.update state.bus (outputAddress port)
      (outputByte (state.data.output port) pin command.state)
    scan := .top }

/-- The write of a command in hand, followed by both reads. -/
theorem path_write {target : Port → Pin → UInt8} (htarget : IsLevels target)
    (state : State) {command : OutputCommand} {port : Port} {pin : Pin}
    (hscan : state.scan = .writing command)
    (hindex : pinIndex command.port command.pin = some (port, pin)) :
    ∃ trace, Path state trace
        (written state state.ioQueue command port pin target) ∧
      (∀ p k, storedLevels p k trace = [target p k]) ∧
      ∃ byte, .wrote command byte true ∈ trace := by
  have hmove := Move.write (.ok 0#8) command _ _ _ hscan
    (pcf8574WriteOutput_of_index state.data state.bus command true hindex)
  obtain ⟨trace, hpath, hlevels⟩ := path_reads htarget
    { state with
      data := { state.data with
        output := setPin state.data.output port pin
          (if command.state then 1 else 0) }
      bus := Function.update state.bus (outputAddress port)
        (outputByte (state.data.output port) pin command.state)
      scan := .transfer .scan 0 } rfl
  exact ⟨_, (Path.of_move hmove trivial).trans hpath, fun p k => by
    rw [storedLevels_append, hlevels]
    rfl, _, List.mem_append_left _ (List.mem_singleton.mpr rfl)⟩

/-- A pass that writes the oldest command. -/
theorem path_pass_write {target : Port → Pin → UInt8}
    (htarget : IsLevels target) (state : State) {command : OutputCommand}
    {rest : List OutputCommand} {port : Port} {pin : Pin}
    (hscan : state.scan = .top)
    (hcontents : contents state.ioQueue = command :: rest)
    (hindex : pinIndex command.port command.pin = some (port, pin)) :
    ∃ queue trace, queue.isSome ∧ contents queue = rest ∧
      Path state trace (written state queue command port pin target) ∧
      (∀ p k, storedLevels p k trace = [target p k]) ∧
      ∃ byte, .wrote command byte true ∈ trace := by
  obtain ⟨queue, hreceive, hsome, hrest⟩ := xQueueReceive_cons hcontents
  have hmove := Move.dequeue (.ok 0#8) command queue hscan hreceive
  obtain ⟨trace, hpath, hlevels, byte, hwrote⟩ := path_write htarget
    { state with ioQueue := queue, scan := .writing command } rfl hindex
  exact ⟨queue, _, hsome, hrest, (Path.of_move hmove trivial).trans hpath,
    hlevels, byte, List.mem_append_right _ hwrote⟩

/-- A pass from the top of the loop, whatever is queued. -/
theorem path_pass_any {target : Port → Pin → UInt8} (htarget : IsLevels target)
    {state : State} (hsound : Sound state) (hscan : state.scan = .top)
    (hqueue : state.ioQueue.isSome) :
    ∃ final trace, Path state trace final ∧ final.scan = .top ∧
      final.controller = state.controller ∧
      final.gateQueue = state.gateQueue ∧ final.data.input = target ∧
      ∀ p k, storedLevels p k trace = [target p k] := by
  cases hcontents : contents state.ioQueue with
  | nil =>
      obtain ⟨trace, hpath, hstored⟩ :=
        path_pass htarget state hscan hqueue hcontents
      exact ⟨_, trace, hpath, rfl, rfl, rfl, rfl, hstored⟩
  | cons command rest =>
      obtain ⟨⟨port, pin⟩, hindex⟩ := Option.isSome_iff_exists.mp
        (hsound.queued command (by simp [hcontents]))
      obtain ⟨queue, trace, -, -, hpath, hstored, -⟩ :=
        path_pass_write htarget state hscan hcontents hindex
      exact ⟨_, trace, hpath, rfl, rfl, rfl, rfl, hstored⟩

/-- A queued command is written after as many passes as stand before it, with
no change of any input. -/
theorem path_drain {state : State} (hsound : Sound state)
    (hscan : state.scan = .top) {command : OutputCommand}
    (hqueued : command ∈ contents state.ioQueue) :
    ∃ final trace, Path state trace final ∧
      (∀ p k, changes (state.data.input p k) (storedLevels p k trace) = 0) ∧
      ∃ byte, .wrote command byte true ∈ trace := by
  obtain ⟨before, after, hcontents⟩ := List.append_of_mem hqueued
  clear hqueued
  induction before generalizing state with
  | nil =>
      obtain ⟨⟨port, pin⟩, hindex⟩ := Option.isSome_iff_exists.mp
        (hsound.queued command (by simp [hcontents]))
      obtain ⟨queue, trace, -, -, hpath, hstored, hwrote⟩ :=
        path_pass_write hsound.levels state hscan hcontents hindex
      exact ⟨_, trace, hpath, fun p k => by simp [hstored, changes_cons],
        hwrote⟩
  | cons head before ih =>
      obtain ⟨⟨port, pin⟩, hindex⟩ := Option.isSome_iff_exists.mp
        (hsound.queued head (by simp [hcontents]))
      obtain ⟨queue, first, -, hrest, hpath, hstored, -⟩ :=
        path_pass_write hsound.levels state hscan hcontents hindex
      obtain ⟨final, second, hdrain, hkeep, byte, hwrote⟩ :=
        ih (hpath.sound hsound) rfl hrest
      refine ⟨final, first ++ second, hpath.trans hdrain, fun p k => ?_, byte,
        List.mem_append_right _ hwrote⟩
      rw [hpath.changes, hkeep, hstored]
      simp [changes_cons]

/-- The remaining reads of a pass, delivering what the shadow already holds. -/
theorem path_keep (state : State) {port : Port}
    (hlevels : IsLevels state.data.input)
    (hscan : state.scan = .transfer .scan port) :
    ∃ trace, Path state trace { state with scan := .top } ∧
      ∀ p k, storedLevels p k trace =
        if port ≤ p then [state.data.input p k] else [] := by
  match port with
  | 0 =>
      obtain ⟨trace, hpath, hstored⟩ := path_reads hlevels state hscan
      exact ⟨trace, hpath, fun p k => by simpa using hstored p k⟩
  | 1 =>
      obtain ⟨trace, hpath, hstored⟩ :=
        path_read (shadowByte (state.data.input 1)) state hscan
      have hinput : (fun p k => if p = (1 : Port) then
          pinLevel (shadowByte (state.data.input 1)) k
          else state.data.input p k) = state.data.input := by
        funext p k
        by_cases hport : p = 1
        · subst hport
          simpa using pinLevel_shadowByte (hlevels 1 k)
        · simp [hport]
      rw [hinput] at hpath
      refine ⟨trace, hpath, fun p k => ?_⟩
      rw [hstored]
      match p with
      | 0 => rfl
      | 1 => simpa using pinLevel_shadowByte (hlevels 1 k)

/-- The rest of a pass from inside a read, with the remaining transfer
delivering what the shadow already holds. -/
theorem path_rest {state : State} (hlevels : IsLevels state.data.input)
    {port : Port} {first : Pin} {value : Byte} {good : Bool}
    (hscan : state.scan = .store .scan port first value good) :
    ∃ input trace, Path state trace
        { state with data := { state.data with input := input }, scan := .top } ∧
      ∀ p k, storedLevels p k trace =
        if p = port ∧ first ≤ k then [pinLevel value k]
        else if port < p then [state.data.input p k] else [] := by
  obtain ⟨stores, hstores, hfirst⟩ :=
    path_stores (7 - first.val) first state (by omega) hscan
  match port with
  | 1 =>
      refine ⟨_, stores, hstores, fun p k => ?_⟩
      have hlast : ¬ (1 : Port) < p := Fin.le_last p |>.not_gt
      rw [hfirst, if_neg hlast]
  | 0 =>
      have hafter : IsLevels (storedInput state.data.input 0 first value) := by
        intro p k
        unfold storedInput
        split
        · exact pinLevel_zero_or_one value k
        · exact hlevels p k
      obtain ⟨reads, hreads, hsecond⟩ := path_keep
        { state with
          data := { state.data with
            input := storedInput state.data.input 0 first value }
          scan := .transfer .scan 1 } hafter rfl
      refine ⟨_, stores ++ reads, hstores.trans hreads, fun p k => ?_⟩
      rw [storedLevels_append, hfirst, hsecond]
      match p with
      | 0 => simp
      | 1 => simp [storedInput]

/-- A finished transfer that still has to store a different level for the
pin. -/
def Scan.InFlight (scan : Scan) (port : Port) (pin : Pin) (level : UInt8) :
    Prop :=
  ∃ phase k value good, scan = .store phase port k value good ∧ k ≤ pin ∧
    pinLevel value pin ≠ level

/-- From anywhere in the loop the pass can be finished with at most one change
of a given pin, and with none unless a change is already in flight. -/
theorem path_finish {state : State} (hsound : Sound state)
    (hloop : state.scan.Looping) (port : Port) (pin : Pin) :
    ∃ final trace, Path state trace final ∧ final.scan = .top ∧
      final.controller = state.controller ∧
      final.gateQueue = state.gateQueue ∧ final.ioQueue = state.ioQueue ∧
      changes (state.data.input port pin) (storedLevels port pin trace) ≤ 1 ∧
      (¬ state.scan.InFlight port pin (state.data.input port pin) →
        changes (state.data.input port pin)
          (storedLevels port pin trace) = 0) ∧
      ∀ command, state.scan = .writing command →
        ∃ byte, .wrote command byte true ∈ trace := by
  cases hscan : state.scan with
  | notCreated | configParam | installDriver | resetWrite | queueInit =>
      simp [hscan, Scan.Looping] at hloop
  | top =>
      exact ⟨state, [], Path.refl state, hscan, rfl, rfl, rfl, by simp,
        fun _ => by simp, by simp⟩
  | transfer phase current =>
      cases phase with
      | reset => simp [hscan, Scan.Looping] at hloop
      | scan =>
          obtain ⟨trace, hpath, hstored⟩ :=
            path_keep state hsound.levels hscan
          have hzero : changes (state.data.input port pin)
              (storedLevels port pin trace) = 0 := by
            rw [hstored]
            split <;> simp [changes_cons]
          exact ⟨_, trace, hpath, rfl, rfl, rfl, rfl, by omega,
            fun _ => hzero, by simp⟩
  | store phase current first value good =>
      cases phase with
      | reset => simp [hscan, Scan.Looping] at hloop
      | scan =>
          obtain ⟨input, trace, hpath, hstored⟩ :=
            path_rest hsound.levels hscan
          refine ⟨_, trace, hpath, rfl, rfl, rfl, rfl, ?_, fun hquiet => ?_,
            by simp⟩
          · rw [hstored]
            split
            · rw [changes_cons]
              split <;> simp
            · split <;> simp [changes_cons]
          · rw [hstored]
            split
            · rename_i hlater
              obtain ⟨rfl, hle⟩ := hlater
              have hsame : pinLevel value pin = state.data.input port pin := by
                by_contra hflip
                exact hquiet ⟨.scan, first, value, good, rfl, hle, hflip⟩
              simp [changes_cons, hsame]
            · split <;> simp [changes_cons]
  | writing command =>
      obtain ⟨⟨current, first⟩, hindex⟩ :=
        Option.isSome_iff_exists.mp (hsound.inHand command hscan)
      obtain ⟨trace, hpath, hstored, hwrote⟩ :=
        path_write hsound.levels state hscan hindex
      have hzero : changes (state.data.input port pin)
          (storedLevels port pin trace) = 0 := by
        simp [hstored, changes_cons]
      refine ⟨_, trace, hpath, rfl, rfl, rfl, rfl, by omega, fun _ => hzero,
        fun other hother => ?_⟩
      rw [Scan.writing.injEq] at hother
      exact hother ▸ hwrote

/-! ## The controller takes a command -/

/-- At the top of its loop the controller receives the next command, samples
its pin and enqueues the output command, all without a store in between. -/
theorem path_receive (state : State) {command : GateCommand}
    {rest : List GateCommand} {port : Port} {pin : Pin}
    (hcontroller : state.controller = .top)
    (hcontents : contents state.gateQueue = command :: rest)
    (hindex : command.index = some (port, pin))
    (hqueue : state.ioQueue.isSome)
    (hroom : (contents state.ioQueue).length < queueLength) :
    ∃ gateQueue ioQueue trace, gateQueue.isSome ∧ contents gateQueue = rest ∧
      ioQueue.isSome ∧
      contents ioQueue = contents state.ioQueue ++ [command.output] ∧
      Path state trace { state with
        gateQueue := gateQueue
        ioQueue := ioQueue
        controller := .firstWait command (state.data.input port pin) } ∧
      (∀ p k, storedLevels p k trace = []) ∧ .took command ∈ trace := by
  obtain ⟨gateQueue, hreceive, hleft, hrest⟩ := xQueueReceive_cons hcontents
  have htake := Path.of_move (Move.take command gateQueue hcontroller hreceive)
    trivial
  have hsample := Path.of_move (Move.sample command port pin rfl hindex :
    Move { state with
      gateQueue := gateQueue
      controller := .sampling command } _ _ _) trivial
  obtain ⟨ioQueue, hsend, hsome, hsent⟩ :=
    xQueueSend_of_room command.output hqueue hroom
  have henqueue := Path.of_move (Move.enqueue command
    (state.data.input port pin) ioQueue true rfl hsend :
      Move { state with
        gateQueue := gateQueue
        controller := .enqueueing command (state.data.input port pin) } _ _ _)
    trivial
  exact ⟨gateQueue, ioQueue, _, hleft, hrest, hsome, hsent,
    (htake.trans hsample).trans henqueue, fun p k => rfl, by simp⟩

end Conveyor.Gate
