import Conveyor.Core.Fallible
import Conveyor.Text

/-!
# Print buffers

The `printbuffer` of `cJSON.c`: a block of memory, the offset that printing has
come to and how the block may grow.  Bytes that were never written are told
apart from those that were.  `ensure` makes room behind the offset; what is
written stays inside the block.  Only what was written is read, except that
`memcpy`, where there is no `realloc`, takes the byte behind the text along.
-/

namespace Conveyor.Json

open Conveyor.Fallible

/-- `INT_MAX` -/
def intMax : ℕ := 2147483647

/-- What ends the defined behaviour of printing. -/
inductive BufferMisuse
  /-- An access outside the block. -/
  | outside
  /-- What follows depends on a byte that was never written. -/
  | unwritten
  deriving DecidableEq, Repr

/-- A block of memory; `none` is a byte that was not written yet. -/
abbrev RawBytes := List (Option UInt8)

/-- `printbuffer`; its `length` is that of the block. -/
structure PrintBuffer where
  /-- `buffer`, which may be NULL. -/
  buffer : Option RawBytes
  offset : ℕ
  depth : ℕ
  noalloc : Bool
  format : Bool
  /-- `hooks.reallocate` is not NULL. -/
  reallocate : Bool
  /-- How often memory was asked for. -/
  calls : ℕ
  /-- How many blocks were taken and not given back. -/
  live : ℕ
  /-- `memcpy` has copied a byte that was never written. -/
  readUnwritten : Bool

/-- Printing, given which of the calls for memory succeed.  It gives up where
the source returns `false`. -/
abbrev Printing := Program (ℕ → Bool) PrintBuffer BufferMisuse

/-- A new block of this size that starts with these bytes. -/
def resized (bytes : RawBytes) (newsize : ℕ) : RawBytes :=
  bytes.take newsize ++ List.replicate (newsize - bytes.length) none

/-- A new block in place of the old one, or none.  Without `realloc` the bytes up
to the offset and the one after that are copied, written or not. -/
def grow (bytes : RawBytes) (newsize : ℕ) : Printing Unit := fun grows p =>
  if grows p.calls then
    if p.reallocate then
      .ok (some (), { p with
        buffer := some (resized bytes newsize)
        calls := p.calls + 1 })
    else if p.offset < bytes.length then
      .ok (some (), { p with
        buffer := some (resized (bytes.take (p.offset + 1)) newsize)
        calls := p.calls + 1
        readUnwritten := p.readUnwritten ||
          (bytes.take (p.offset + 1)).contains none })
    else .error .outside
  else .ok (none, { p with
    buffer := none
    calls := p.calls + 1
    live := p.live - 1 })

def ensure (needed : ℕ) : Printing Unit := reading fun p =>
  match p.buffer with
  | none => giveUp
  | some bytes =>
      if 0 < bytes.length ∧ bytes.length ≤ p.offset then giveUp
      else if intMax < needed then giveUp
      else if needed + p.offset + 1 ≤ bytes.length then pure ()
      else if p.noalloc then giveUp
      else if intMax / 2 < needed + p.offset + 1 then
        if needed + p.offset + 1 ≤ intMax then grow bytes intMax else giveUp
      else grow bytes ((needed + p.offset + 1) * 2)

/-- The block with these bytes from a place on. -/
def overwritten (old : RawBytes) (place : ℕ) (bytes : Text) : RawBytes :=
  old.take place ++ (bytes.map some ++ old.drop (place + bytes.length))

/-- Bytes are written from the offset on, or from an index behind it. -/
def writeAt (index : ℕ) (bytes : Text) : Printing Unit := reading fun p =>
  match p.buffer with
  | none => misuse .outside
  | some old =>
      if p.offset + index + bytes.length ≤ old.length then
        update fun p =>
          { p with buffer := some (overwritten old (p.offset + index) bytes) }
      else misuse .outside

/-- `output_buffer->offset += count` -/
def advance (count : ℕ) : Printing Unit :=
  update fun p => { p with offset := p.offset + count }

/-- `output_buffer->depth++` -/
def descend : Printing Unit := update fun p => { p with depth := p.depth + 1 }

/-- `output_buffer->depth--` -/
def ascend : Printing Unit := update fun p => { p with depth := p.depth - 1 }

/-- Room is made, these bytes are written, and the offset moves on. -/
def emit (needed : ℕ) (bytes : Text) (count : ℕ) : Printing Unit := do
  ensure needed
  writeAt 0 bytes
  advance count

def strlen : RawBytes → Except BufferMisuse ℕ
  | [] => .error .outside
  | none :: _ => .error .unwritten
  | some first :: rest =>
      if first = 0 then .ok 0 else (strlen rest).map (· + 1)

/-- `update_offset` -/
def updateOffset : Printing Unit := reading fun p =>
  match p.buffer with
  | none => pure ()
  | some bytes =>
      match strlen (bytes.drop p.offset) with
      | .error fault => misuse fault
      | .ok length => advance length

/-! ## What a buffer holds -/

/-- What stays the same while a text is printed. -/
structure PrintMode where
  noalloc : Bool
  format : Bool
  reallocate : Bool
  /-- The size that the block must not exceed. -/
  capacity : ℕ
  capacity_le : capacity ≤ intMax
  capacity_eq : noalloc = false → capacity = intMax

/-- How many of the blocks belong to the one who prints. -/
def PrintMode.owned (mode : PrintMode) : ℕ := if mode.noalloc then 0 else 1

variable {mode : PrintMode} {depth : ℕ} {front : Text} {p : PrintBuffer}

/-- The buffer holds at least this much of a text. -/
structure Holds (mode : PrintMode) (depth : ℕ) (written : Text)
    (p : PrintBuffer) : Prop where
  noalloc : p.noalloc = mode.noalloc
  format : p.format = mode.format
  reallocate : p.reallocate = mode.reallocate
  depth : p.depth = depth
  live : p.live = mode.owned
  read : mode.reallocate → p.readUnwritten = false
  block : ∃ bytes, p.buffer = some bytes ∧ written.map some <+: bytes ∧
    bytes.length ≤ mode.capacity ∧
      (mode.noalloc → bytes.length = mode.capacity)

/-- This much of a text is printed, and the offset is behind it. -/
structure Ready (mode : PrintMode) (depth : ℕ) (front : Text)
    (p : PrintBuffer) : Prop extends Holds mode depth front p where
  offset : p.offset = front.length
  room : ∀ bytes, p.buffer = some bytes → front.length < bytes.length ∨
    front = [] ∧ (mode.noalloc ∨ mode.reallocate)

/-- A text is printed behind this one and ends with a NUL, and another byte has
room.  The offset may be anywhere in it. -/
structure Printed (mode : PrintMode) (depth : ℕ) (front text : Text)
    (p : PrintBuffer) : Prop extends Holds mode depth (front ++ text ++ [0]) p where
  front_le : front.length ≤ p.offset
  le_text : p.offset ≤ (front ++ text).length
  room : ∀ bytes, p.buffer = some bytes →
    (front ++ text).length + 2 ≤ bytes.length

/-- A buffer for so many bytes is too large, or the memory for it is missing; a
block that the buffer no longer has was given back. -/
structure Refused (mode : PrintMode) (grows : ℕ → Bool) (total : ℕ)
    (p : PrintBuffer) : Prop where
  reason : mode.capacity < total ∨
    mode.noalloc = false ∧ ∃ call, grows call = false
  live : p.live = if p.buffer.isSome then mode.owned else 0
  read : mode.reallocate → p.readUnwritten = false
  kept : mode.noalloc →
    ∃ bytes, p.buffer = some bytes ∧ bytes.length = mode.capacity

/-- This much is written, the offset is here, and the block is at least so
large. -/
structure Wrote (mode : PrintMode) (depth : ℕ) (written : Text)
    (offset size : ℕ) (p : PrintBuffer) : Prop
    extends Holds mode depth written p where
  offset_eq : p.offset = offset
  size_le : ∀ bytes, p.buffer = some bytes → size ≤ bytes.length

theorem Holds.shorter {written shorter : Text}
    (hholds : Holds mode depth written p) (hbegins : shorter <+: written) :
    Holds mode depth shorter p where
  noalloc := hholds.noalloc
  format := hholds.format
  reallocate := hholds.reallocate
  depth := hholds.depth
  live := hholds.live
  read := hholds.read
  block := by
    obtain ⟨bytes, hbuffer, hwritten, hlength⟩ := hholds.block
    exact ⟨bytes, hbuffer, (hbegins.map some).trans hwritten, hlength⟩

theorem Wrote.ready {bytes : Text} {count size : ℕ}
    (hwrote : Wrote mode depth (front ++ bytes) (front.length + count) size p)
    (hcount : count ≤ bytes.length) (hsize : front.length + count < size) :
    Ready mode depth (front ++ bytes.take count) p where
  toHolds := hwrote.shorter
    (List.prefix_append_right_inj front |>.mpr (List.take_prefix count bytes))
  offset := by
    rw [hwrote.offset_eq, List.length_append, List.length_take_of_le hcount]
  room := fun block hblock => by
    have hle := hwrote.size_le block hblock
    rw [List.length_append, List.length_take_of_le hcount]
    omega

theorem Wrote.printed {text : Text} {offset size : ℕ}
    (hwrote : Wrote mode depth (front ++ text ++ [0]) offset size p)
    (hfront : front.length ≤ offset) (htext : offset ≤ (front ++ text).length)
    (hsize : (front ++ text).length + 2 ≤ size) :
    Printed mode depth front text p where
  toHolds := hwrote.toHolds
  front_le := hwrote.offset_eq ▸ hfront
  le_text := hwrote.offset_eq ▸ htext
  room := fun block hblock => hsize.trans (hwrote.size_le block hblock)

/-! ## Rules for the operations -/

variable {grows : ℕ → Bool} {refused : PrintBuffer → Prop}

@[simp]
theorem length_resized (bytes : RawBytes) (newsize : ℕ) :
    (resized bytes newsize).length = newsize := by
  rw [resized, List.length_append, List.length_replicate, List.length_take]
  omega

theorem prefix_resized {bytes written : RawBytes} {newsize : ℕ}
    (hwritten : written <+: bytes) (hnewsize : written.length ≤ newsize) :
    written <+: resized bytes newsize :=
  (List.prefix_take_iff.mpr ⟨hwritten, hnewsize⟩).trans (List.prefix_append _ _)

theorem Ready.too_large {total : ℕ} (hready : Ready mode depth front p)
    (htotal : mode.capacity < total) : Refused mode grows total p where
  reason := .inl htotal
  live := by
    obtain ⟨bytes, hbuffer, -⟩ := hready.block
    rw [hready.live, hbuffer]
    rfl
  read := hready.read
  kept hnoalloc := by
    obtain ⟨bytes, hbuffer, -, -, hfixed⟩ := hready.block
    exact ⟨bytes, hbuffer, hfixed hnoalloc⟩

theorem triple_grow {bytes : RawBytes} {newsize size total : ℕ}
    (hready : Ready mode depth front p) (hbuffer : p.buffer = some bytes)
    (hgrows : mode.noalloc = false) (hbytes : bytes.length ≤ newsize)
    (hnewsize : newsize ≤ intMax) (hsize : size ≤ newsize) :
    Triple grows (fun current => current = p) (grow bytes newsize)
      (fun _ => Wrote mode depth front front.length size)
      (Refused mode grows total) := by
  rintro current rfl
  obtain ⟨block, hblock, hfront, -, -⟩ := hready.block
  obtain rfl : bytes = block := Option.some.inj (hbuffer.symm.trans hblock)
  have hfew : (front.map some).length ≤ newsize := hfront.length_le.trans hbytes
  -- what is in front of the offset moves along with the block
  have hmoved {moved : RawBytes} (hmoved : front.map some <+: moved)
      (read : Bool) (hread : mode.reallocate → read = false) :
      Wrote mode depth front front.length size { current with
        buffer := some (resized moved newsize)
        calls := current.calls + 1
        readUnwritten := read } := by
    refine ⟨⟨hready.noalloc, hready.format, hready.reallocate, hready.depth,
      hready.live, hread, _, rfl, prefix_resized hmoved hfew, ?_, ?_⟩,
      hready.offset, ?_⟩
    · rw [length_resized, mode.capacity_eq hgrows]
      exact hnewsize
    · simp [hgrows]
    · intro block hblock
      obtain rfl := Option.some.inj hblock
      rwa [length_resized]
  unfold grow
  cases hcall : grows current.calls with
  | false =>
      refine ⟨none, _, rfl, .inr ⟨hgrows, _, hcall⟩, ?_, hready.read,
        by simp [hgrows]⟩
      change current.live - 1 = 0
      rw [hready.live, PrintMode.owned, hgrows]
      rfl
  | true =>
      by_cases hreallocate : current.reallocate
      · rw [if_pos rfl, if_pos hreallocate]
        exact ⟨some (), _, rfl, hmoved hfront _ hready.read⟩
      · have hroom : current.offset < bytes.length := by
          have hroom := hready.room bytes hbuffer
          rw [← hready.reallocate, hgrows] at hroom
          simp only [hreallocate, Bool.false_eq_true, or_self, and_false,
            or_false] at hroom
          rwa [hready.offset]
        rw [if_pos rfl, if_neg hreallocate, if_pos hroom]
        refine ⟨some (), _, rfl, hmoved ?_ _ fun hreallocates => ?_⟩
        · refine List.prefix_take_iff.mpr ⟨hfront, ?_⟩
          rw [List.length_map, hready.offset]
          exact Nat.le_succ _
        · exact absurd (hready.reallocate.trans hreallocates) hreallocate

/-- `ensure` makes room for one byte more than it is asked for. -/
theorem triple_ensure {needed total : ℕ}
    (htotal : front.length + needed + 1 ≤ total) :
    Triple grows (Ready mode depth front) (ensure needed)
      (fun _ => Wrote mode depth front front.length (front.length + needed + 1))
      (Refused mode grows total) := by
  refine .of_reading fun p hready => ?_
  obtain ⟨bytes, hbuffer, hfront, hlength, hfixed⟩ := hready.block
  have hoffset := hready.offset
  have hroom := hready.room bytes hbuffer
  have hcapacity := mode.capacity_le
  simp only [hbuffer]
  have hvalid : ¬(0 < bytes.length ∧ bytes.length ≤ p.offset) := by
    rcases hroom with hlt | ⟨rfl, -⟩
    · omega
    · rw [hoffset, List.length_nil]
      omega
  rw [if_neg hvalid]
  by_cases hneeded : intMax < needed
  · rw [if_pos hneeded]
    refine .of_giveUp ?_
    rintro current rfl
    exact hready.too_large (by omega)
  rw [if_neg hneeded]
  by_cases hfits : needed + p.offset + 1 ≤ bytes.length
  · rw [if_pos hfits]
    refine .of_pure ?_
    rintro current rfl
    refine ⟨hready.toHolds, hoffset, fun block hblock => ?_⟩
    obtain rfl := Option.some.inj (hbuffer.symm.trans hblock)
    omega
  rw [if_neg hfits]
  cases hnoalloc : mode.noalloc with
  | true =>
      rw [hready.noalloc, if_pos hnoalloc]
      have hfull := hfixed hnoalloc
      refine .of_giveUp ?_
      rintro current rfl
      exact hready.too_large (by omega)
  | false =>
      rw [hready.noalloc, hnoalloc, if_neg Bool.false_ne_true]
      have hmax := mode.capacity_eq hnoalloc
      split
      · split
        · exact triple_grow hready hbuffer hnoalloc (by omega) le_rfl (by omega)
        · refine .of_giveUp ?_
          rintro current rfl
          exact hready.too_large (by omega)
      · exact triple_grow hready hbuffer hnoalloc (by omega) (by omega)
          (by omega)

theorem length_overwritten {old : RawBytes} {place : ℕ} {bytes : Text}
    (hfits : place + bytes.length ≤ old.length) :
    (overwritten old place bytes).length = old.length := by
  simp only [overwritten, List.length_append, List.length_take, List.length_map,
    List.length_drop]
  omega

theorem prefix_overwritten {old : RawBytes} {written bytes : Text}
    (hwritten : written.map some <+: old) :
    (written ++ bytes).map some <+: overwritten old written.length bytes := by
  have htake : old.take written.length = written.map some := by
    have heq := List.prefix_iff_eq_take.mp hwritten
    rw [List.length_map] at heq
    exact heq.symm
  rw [overwritten, htake, List.map_append, ← List.append_assoc]
  exact List.prefix_append _ _

theorem triple_writeAt {written bytes : Text} {index offset size : ℕ}
    (hplace : offset + index = written.length)
    (hfits : written.length + bytes.length ≤ size) :
    Triple grows (Wrote mode depth written offset size) (writeAt index bytes)
      (fun _ => Wrote mode depth (written ++ bytes) offset size) refused := by
  refine .of_reading fun p hwrote => ?_
  obtain ⟨old, hbuffer, hwritten, hlength, hfixed⟩ := hwrote.block
  have hsize := hwrote.size_le old hbuffer
  have hroom : p.offset + index + bytes.length ≤ old.length := by
    rw [hwrote.offset_eq]
    omega
  simp only [hbuffer]
  rw [if_pos hroom]
  refine .of_update ?_
  rintro current rfl
  rw [hwrote.offset_eq, hplace] at hroom
  have hbegins : (written ++ bytes).map some <+:
      overwritten old (current.offset + index) bytes := by
    rw [hwrote.offset_eq, hplace]
    exact prefix_overwritten hwritten
  have hsame : (overwritten old (current.offset + index) bytes).length =
      old.length := by
    rw [hwrote.offset_eq, hplace]
    exact length_overwritten hroom
  refine ⟨⟨hwrote.noalloc, hwrote.format, hwrote.reallocate, hwrote.depth,
    hwrote.live, hwrote.read, _, rfl, hbegins, ?_, ?_⟩, hwrote.offset_eq, ?_⟩
  · rwa [hsame]
  · rwa [hsame]
  · intro block hblock
    obtain rfl := Option.some.inj hblock
    rwa [hsame]

theorem triple_advance {written : Text} {offset size : ℕ} (count : ℕ) :
    Triple grows (Wrote mode depth written offset size) (advance count)
      (fun _ => Wrote mode depth written (offset + count) size) refused :=
  .of_update fun _ hwrote => ⟨⟨hwrote.noalloc, hwrote.format, hwrote.reallocate,
    hwrote.depth, hwrote.live, hwrote.read, hwrote.block⟩,
    by rw [hwrote.offset_eq], hwrote.size_le⟩

theorem triple_emit {bytes : Text} {needed total : ℕ} (count : ℕ)
    (htotal : front.length + needed + 1 ≤ total)
    (hbytes : bytes.length ≤ needed + 1) :
    Triple grows (Ready mode depth front) (emit needed bytes count)
      (fun _ => Wrote mode depth (front ++ bytes) (front.length + count)
        (front.length + needed + 1)) (Refused mode grows total) :=
  (triple_ensure htotal).bind fun _ =>
    (triple_writeAt rfl (by omega)).bind fun _ => triple_advance count

/-- A piece of text that the offset moves behind. -/
theorem triple_emit_ready {bytes : Text} {needed count total : ℕ}
    (htotal : front.length + needed + 1 ≤ total)
    (hbytes : bytes.length ≤ needed + 1) (hcount : count ≤ bytes.length)
    (hneeded : count ≤ needed) :
    Triple grows (Ready mode depth front) (emit needed bytes count)
      (fun _ => Ready mode depth (front ++ bytes.take count))
      (Refused mode grows total) :=
  (triple_emit count htotal hbytes).weaken fun _ _ hwrote =>
    hwrote.ready hcount (by omega)

/-- A piece of text that ends with a NUL. -/
theorem triple_emit_printed {text : Text} {needed count total : ℕ}
    (htotal : front.length + needed + 1 ≤ total)
    (hneeded : text.length + 1 ≤ needed) (hcount : count ≤ text.length) :
    Triple grows (Ready mode depth front) (emit needed (text ++ [0]) count)
      (fun _ => Printed mode depth front text) (Refused mode grows total) := by
  refine (triple_emit count htotal ?_).weaken fun _ _ hwrote => ?_
  · rw [List.length_append, List.length_singleton]
    omega
  · rw [← List.append_assoc] at hwrote
    refine hwrote.printed (by omega) ?_ ?_ <;> rw [List.length_append] <;> omega

theorem strlen_text {text : Text} (hnul : (0 : UInt8) ∉ text)
    (rest : RawBytes) : strlen (text.map some ++ some 0 :: rest) =
      .ok text.length := by
  induction text with
  | nil => rfl
  | cons first text ih =>
      obtain ⟨hfirst, htext⟩ := List.ne_and_not_mem_of_not_mem_cons hnul
      rw [List.map_cons, List.cons_append, strlen, if_neg hfirst.symm, ih htext]
      rfl

/-- `update_offset` moves the offset to the NUL. -/
theorem triple_updateOffset_holds {text : Text} (hnul : (0 : UInt8) ∉ text) :
    Triple grows (Printed mode depth front text) updateOffset
      (fun _ p => Ready mode depth (front ++ text) p ∧
        Holds mode depth (front ++ text ++ [0]) p) refused := by
  refine .of_reading fun p hprinted => ?_
  obtain ⟨bytes, hbuffer, hwritten, hlength, hfixed⟩ := hprinted.block
  obtain ⟨rest, rfl⟩ := hwritten
  have hfront := hprinted.front_le
  have htext := hprinted.le_text
  have hroom := hprinted.room _ hbuffer
  obtain ⟨skipped, hskipped⟩ := Nat.exists_eq_add_of_le hfront
  rw [List.length_append] at htext
  have hdrop : ((front ++ text ++ [0]).map some ++ rest).drop p.offset =
      (text.drop skipped).map some ++ some 0 :: rest := by
    rw [hskipped, ← List.drop_drop]
    simp only [List.map_append, List.append_assoc]
    rw [List.drop_left' (List.length_map _), List.drop_append_of_le_length
      (by rw [List.length_map]; omega), ← List.map_drop]
    rfl
  have hstrlen : strlen ((text.drop skipped).map some ++ some 0 :: rest) =
      .ok (text.drop skipped).length :=
    strlen_text (fun hmem => hnul (List.mem_of_mem_drop hmem)) rest
  simp only [hbuffer, hdrop, hstrlen]
  refine .of_update ?_
  rintro current rfl
  have hmoved : Holds mode depth (front ++ text ++ [0]) { current with
      offset := current.offset + (text.drop skipped).length } :=
    ⟨hprinted.noalloc, hprinted.format, hprinted.reallocate, hprinted.depth,
      hprinted.live, hprinted.read, hprinted.block⟩
  refine ⟨⟨hmoved.shorter (List.prefix_append _ _), ?_, ?_⟩, hmoved⟩
  · change current.offset + (text.drop skipped).length = (front ++ text).length
    rw [List.length_drop, List.length_append, hskipped]
    omega
  · intro block hblock
    obtain rfl := Option.some.inj (hbuffer.symm.trans hblock)
    exact .inl (by omega)

theorem triple_updateOffset {text : Text} (hnul : (0 : UInt8) ∉ text) :
    Triple grows (Printed mode depth front text) updateOffset
      (fun _ => Ready mode depth (front ++ text)) refused :=
  (triple_updateOffset_holds hnul).weaken fun _ _ hended => hended.1

end Conveyor.Json
