import Conveyor.Json.Printing

/-!
# What printing returns

`cJSON_PrintPreallocated` succeeds exactly if the buffer has one byte more than
the text and its NUL need.  `cJSON_Print` returns the text in a block of its
size, and `cJSON_PrintBuffered` in the block it printed into; otherwise they
return NULL and keep no block.  With `realloc` they read no byte that was not
written.
-/

namespace Conveyor.Json

open Conveyor.Fallible

variable (printer : NumberPrinter) (value : CJson) (format reallocate : Bool)
variable (grows : ℕ → Bool)

section

/-- The printed text of the value. -/
abbrev printedText : Text := printValue printer format 0 value

/-- The buffer that printing starts with. -/
def startBuffer (block : RawBytes) (noalloc : Bool) : PrintBuffer where
  buffer := some block
  offset := 0
  depth := 0
  noalloc := noalloc
  format := format
  reallocate := reallocate
  calls := if noalloc then 0 else 1
  live := if noalloc then 0 else 1
  readUnwritten := false

/-- Whether it succeeds, and what the buffer then is. -/
def cJSONPrintPreallocated (buffer : Option RawBytes) :
    Except BufferMisuse (Bool × Option RawBytes) :=
  match buffer with
  | none => .ok (false, none)
  | some block =>
      (printValueTo printer value grows
        (startBuffer format reallocate block true)).map
          fun (printed, p) => (printed.isSome, p.buffer)

/-- The text moves to a block of its size. -/
def shrink : Printing RawBytes := fun grows p =>
  let block := p.buffer.getD []
  let printed := resized block (p.offset + 1)
  if grows p.calls then
    if p.reallocate then
      .ok (some printed, { p with buffer := none, calls := p.calls + 1 })
    else .ok (some (overwritten printed p.offset [0]), { p with
      calls := p.calls + 1
      readUnwritten := p.readUnwritten ||
        (block.take (p.offset + 1)).contains none })
  else .ok (none, { p with calls := p.calls + 1 })

/-- What a function that prints leaves behind. -/
structure Outcome where
  /-- The block that is returned, unless it is NULL. -/
  block : Option RawBytes
  /-- How many blocks are live. -/
  live : ℕ
  readUnwritten : Bool

def handOver (returned : Option RawBytes) (p : PrintBuffer) : Outcome where
  block := returned
  live :=
    if returned.isNone ∧ p.buffer.isSome then p.live - 1 else p.live
  readUnwritten := p.readUnwritten

/-- NULL, without a block. -/
def Outcome.null : Outcome := ⟨none, 0, false⟩

/-- The static `print`, behind `cJSON_Print` and `cJSON_PrintUnformatted`. -/
def print : Except BufferMisuse Outcome :=
  if grows 0 then
    ((do printValueTo printer value; updateOffset; shrink : Printing RawBytes)
      grows (startBuffer format reallocate (.replicate 256 none) false)).map
        fun (returned, p) => handOver returned p
  else .ok .null

def cJSONPrintBuffered (prebuffer : ℤ) : Except BufferMisuse Outcome :=
  if prebuffer < 0 then .ok .null
  else if grows 0 then
    (printValueTo printer value grows (startBuffer format reallocate
      (.replicate prebuffer.toNat none) false)).map
        fun (printed, p) => handOver (printed.bind fun _ => p.buffer) p
  else .ok .null

end

/-- A block that starts with the text and its NUL. -/
def StartsWithText (printed : Text) (block : RawBytes) : Prop :=
  (printed ++ [0]).map some <+: block

/-! ## A buffer of the caller -/

def preallocatedMode (block : RawBytes) (hlength : block.length ≤ intMax) :
    PrintMode where
  noalloc := true
  format := format
  reallocate := reallocate
  capacity := block.length
  capacity_le := hlength
  capacity_eq := by simp

theorem ready_preallocated {block : RawBytes} (hlength : block.length ≤ intMax) :
    Ready (preallocatedMode format reallocate block hlength) 0 []
      (startBuffer format reallocate block true) where
  noalloc := rfl
  format := rfl
  reallocate := rfl
  depth := rfl
  live := rfl
  read := fun _ => rfl
  block := ⟨block, rfl, List.nil_prefix, le_rfl, fun _ => rfl⟩
  offset := rfl
  room := fun _ _ => .inr ⟨rfl, .inl rfl⟩

variable {mode : PrintMode} {total : ℕ} {printed : Text}

theorem triple_printedText (hformat : mode.format = format) :
    Triple grows (Ready mode 0 []) (printValueTo printer value)
      (fun _ => Printed mode 0 [] (printedText printer value format))
      (Refused mode grows ((printedText printer value format).length + 2)) := by
  subst hformat
  exact triple_printValueTo printer value le_rfl

/-- `cJSON_PrintPreallocated` needs one byte more than it writes, and no more;
it stays in the buffer in any case. -/
theorem cJSONPrintPreallocated_fits {block : RawBytes}
    (hlength : block.length ≤ intMax) :
    ∃ accepted final,
      cJSONPrintPreallocated printer value format reallocate grows (some block) =
        .ok (accepted, some final) ∧
      final.length = block.length ∧
      (accepted = true ↔
        (printedText printer value format).length + 2 ≤ block.length) ∧
      (accepted = true →
        StartsWithText (printedText printer value format) final) := by
  obtain ⟨result, p, hrun, hend⟩ :=
    triple_printedText printer value format grows rfl _
      (ready_preallocated format reallocate hlength)
  cases result with
  | none =>
      obtain ⟨final, hbuffer, hfinal⟩ := hend.kept rfl
      have hfull : block.length < (printedText printer value format).length + 2 :=
        hend.reason.resolve_right fun hmemory => Bool.noConfusion hmemory.1
      refine ⟨false, final, ?_, hfinal, by simpa using hfull, by simp⟩
      rw [cJSONPrintPreallocated, hrun, ← hbuffer]
      rfl
  | some done =>
      obtain ⟨final, hbuffer, hwritten, -, hfixed⟩ := hend.block
      have hroom := hend.room final hbuffer
      have hfinal : final.length = block.length := hfixed rfl
      rw [List.nil_append, hfinal] at hroom
      refine ⟨true, final, ?_, hfinal, by simpa using hroom, fun _ => hwritten⟩
      rw [cJSONPrintPreallocated, hrun, ← hbuffer]
      rfl

theorem cJSONPrintPreallocated_fits_answer : ∃ accepted final,
    cJSONPrintPreallocated answerPrinter answerArray true true (fun _ => true)
        (some (.replicate 12 none)) = .ok (accepted, some final) ∧
      final.length = 12 ∧ (accepted = true ↔ 10 + 2 ≤ 12) ∧
      (accepted = true → StartsWithText (text "[42, true]") final) := by
  have hprinted : printedText answerPrinter answerArray true =
      text "[42, true]" := by decide
  have hfits := cJSONPrintPreallocated_fits answerPrinter answerArray true true
    (fun _ => true) (show (List.replicate 12 none : RawBytes).length ≤ intMax by
      decide)
  rwa [hprinted] at hfits

/-! ## Blocks that printing takes -/

def allocatingMode : PrintMode where
  noalloc := false
  format := format
  reallocate := reallocate
  capacity := intMax
  capacity_le := le_rfl
  capacity_eq := fun _ => rfl

/-- An empty block cannot be moved without `realloc`. -/
theorem ready_allocated {size : ℕ} (hsize : 0 < size ∨ reallocate)
    (hlength : size ≤ intMax) :
    Ready (allocatingMode format reallocate) 0 []
      (startBuffer format reallocate (.replicate size none) false) where
  noalloc := rfl
  format := rfl
  reallocate := rfl
  depth := rfl
  live := rfl
  read := fun _ => rfl
  block := ⟨_, rfl, List.nil_prefix, by rwa [List.length_replicate], by simp
    [allocatingMode]⟩
  offset := rfl
  room := fun bytes hbytes => by
    obtain rfl := Option.some.inj hbytes
    rw [List.length_replicate]
    exact hsize.imp_right fun hreallocate => ⟨rfl, .inr hreallocate⟩

theorem triple_shrink (hnoalloc : mode.noalloc = false) :
    Triple grows
      (fun p => Ready mode 0 printed p ∧ Holds mode 0 (printed ++ [0]) p) shrink
      (fun block p => block = (printed ++ [0]).map some ∧ p.live = 1 ∧
        (mode.reallocate → p.readUnwritten = false))
      (Refused mode grows total) := by
  rintro p ⟨hready, hholds⟩
  obtain ⟨bytes, hbuffer, hwritten, -, -⟩ := hholds.block
  have hlive : p.live = 1 := by
    rw [hholds.live, PrintMode.owned, hnoalloc]
    rfl
  have hresized : resized (p.buffer.getD []) (p.offset + 1) =
      (printed ++ [0]).map some := by
    have hlength : ((printed ++ [0]).map some).length = p.offset + 1 := by
      rw [List.length_map, List.length_append, hready.offset]
      rfl
    rw [hbuffer]
    exact ((prefix_resized hwritten (Nat.le_of_eq hlength)).eq_of_length
      (hlength.trans (length_resized bytes _).symm)).symm
  unfold shrink
  cases hcall : grows p.calls with
  | false =>
      refine ⟨none, _, rfl, .inr ⟨hnoalloc, _, hcall⟩, ?_, hready.read,
        by simp [hnoalloc]⟩
      change p.live = if p.buffer.isSome then mode.owned else 0
      rw [hready.live, hbuffer]
      rfl
  | true =>
      by_cases hreallocate : p.reallocate
      · rw [if_pos rfl, if_pos hreallocate]
        exact ⟨some _, _, rfl, hresized, hlive, hready.read⟩
      · rw [if_pos rfl, if_neg hreallocate]
        refine ⟨some _, _, rfl, ?_, hlive, fun hreallocates =>
          absurd (hready.reallocate.trans hreallocates) hreallocate⟩
        rw [hresized, hready.offset]
        simp [overwritten]

/-- A block is returned as it should be, or NULL is, and then no block is kept;
NULL only if memory is missing or the text too long.  With `realloc` no byte is
read that was not written. -/
structure Returned (reallocate : Bool) (grows : ℕ → Bool) (length : ℕ)
    (accepts : RawBytes → Prop) (outcome : Outcome) : Prop where
  accepted : ∀ block, outcome.block = some block →
    accepts block ∧ outcome.live = 1
  refused : outcome.block = none → outcome.live = 0 ∧
    (intMax < length + 2 ∨ ∃ call, grows call = false)
  read : reallocate → outcome.readUnwritten = false

theorem returned_null {length call : ℕ} {accepts : RawBytes → Prop}
    (hcall : grows call = false) :
    Returned reallocate grows length accepts .null where
  accepted := nofun
  refused := fun _ => ⟨rfl, .inr ⟨call, hcall⟩⟩
  read := fun _ => rfl

theorem returned_some {length : ℕ} {accepts : RawBytes → Prop}
    {block : RawBytes} {p : PrintBuffer} (haccepts : accepts block)
    (hlive : p.live = 1) (hread : reallocate → p.readUnwritten = false) :
    Returned reallocate grows length accepts (handOver (some block) p) where
  accepted := fun _ hother => Option.some.inj hother ▸ ⟨haccepts, hlive⟩
  refused := nofun
  read := hread

theorem returned_refused {length : ℕ} {accepts : RawBytes → Prop}
    {p : PrintBuffer}
    (hrefused : Refused (allocatingMode format reallocate) grows (length + 2) p) :
    Returned reallocate grows length accepts (handOver none p) where
  accepted := nofun
  refused := fun _ => by
    refine ⟨?_, hrefused.reason.imp_right And.right⟩
    have hlive := hrefused.live
    change (if true = true ∧ p.buffer.isSome = true then p.live - 1 else p.live) = 0
    split at hlive
    · rw [if_pos ⟨rfl, ‹_›⟩, hlive]
      rfl
    · rw [if_neg fun hboth => absurd hboth.2 ‹_›, hlive]
  read := hrefused.read

/-- `cJSON_Print` and `cJSON_PrintUnformatted`. -/
theorem print_returned : ∃ outcome,
    print printer value format reallocate grows = .ok outcome ∧
      Returned reallocate grows (printedText printer value format).length
        (fun block => block =
          (printedText printer value format ++ [0]).map some) outcome := by
  unfold print
  cases hcall : grows 0 with
  | false => exact ⟨_, rfl, returned_null reallocate grows hcall⟩
  | true =>
      obtain ⟨mode, hmode⟩ : ∃ mode, mode = allocatingMode format reallocate :=
        ⟨_, rfl⟩
      have hprint : Triple grows (Ready mode 0 []) (printValueTo printer value)
          (fun _ => Printed mode 0 [] (printedText printer value format))
          (Refused mode grows ((printedText printer value format).length + 2)) :=
        triple_printedText printer value format grows (by rw [hmode]; rfl)
      have hended := hprint.bind fun _ => (triple_updateOffset_holds
        (printValue_nul_not_mem printer format value)).bind fun _ =>
          triple_shrink grows (by rw [hmode]; rfl)
      have hstart : Ready mode 0 []
          (startBuffer format reallocate (.replicate 256 none) false) :=
        hmode ▸ ready_allocated format reallocate (.inl (by decide)) (by decide)
      obtain ⟨result, p, hrun, hend⟩ := hended _ hstart
      refine ⟨handOver result p, congrArg (Except.map _) hrun, ?_⟩
      cases result with
      | none => exact returned_refused format reallocate grows (hmode ▸ hend)
      | some block =>
          obtain ⟨hblock, hlive, hread⟩ := hend
          subst hmode
          exact returned_some reallocate grows hblock hlive hread

/-- `cJSON_PrintBuffered` returns the block it printed into.  It must not be
empty when there is no `realloc`. -/
theorem cJSONPrintBuffered_returned {prebuffer : ℤ}
    (hnonempty : 0 < prebuffer ∨ reallocate) (hint : prebuffer ≤ intMax) :
    ∃ outcome,
      cJSONPrintBuffered printer value format reallocate grows prebuffer =
        .ok outcome ∧
      (0 ≤ prebuffer →
        Returned reallocate grows (printedText printer value format).length
          (StartsWithText (printedText printer value format)) outcome) ∧
      (prebuffer < 0 → outcome = .null) := by
  unfold cJSONPrintBuffered
  by_cases hnegative : prebuffer < 0
  · rw [if_pos hnegative]
    exact ⟨_, rfl, fun hle => absurd hle (Int.not_le.mpr hnegative), fun _ => rfl⟩
  rw [if_neg hnegative]
  cases hcall : grows 0 with
  | false =>
      exact ⟨_, rfl, fun _ => returned_null reallocate grows hcall, fun _ => rfl⟩
  | true =>
      have hstart : Ready (allocatingMode format reallocate) 0 []
          (startBuffer format reallocate (.replicate prebuffer.toNat none) false) :=
        ready_allocated format reallocate (hnonempty.imp_left (by omega)) (by omega)
      obtain ⟨result, p, hrun, hend⟩ :=
        triple_printedText printer value format grows rfl _ hstart
      refine ⟨handOver (result.bind fun _ => p.buffer) p,
        congrArg (Except.map _) hrun, fun _ => ?_,
        fun hlt => absurd hlt hnegative⟩
      cases result with
      | none => exact returned_refused format reallocate grows hend
      | some done =>
          obtain ⟨block, hbuffer, hwritten, -⟩ := hend.block
          rw [Option.bind_some, hbuffer]
          exact returned_some reallocate grows hwritten hend.live hend.read

/-- Without `realloc` a byte of an empty block is copied. -/
example : cJSONPrintBuffered printer .null format false (fun _ => true) 0 =
    .error .outside := rfl

/-- In a block that is not empty the byte need not have been written. -/
example : (cJSONPrintBuffered printer .null format false (fun _ => true) 1).map
    Outcome.readUnwritten = .ok true := rfl

end Conveyor.Json
