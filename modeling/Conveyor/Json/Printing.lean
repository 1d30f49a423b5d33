import Conveyor.Json.PrintBuffer
import Conveyor.Json.RoundTrip

/-!
# Printing into a buffer

The `print_*` functions of `cJSON.c` with every byte they write, and that they
write the printed text of the value.  They never leave the block that `ensure`
made room in, and nothing but the size of the text or missing memory stops them.
-/

namespace Conveyor.Json

open Conveyor.Fallible

section

variable (printer : NumberPrinter)

/-- `print_number` -/
def printNumberTo (number : Decimal) : Printing Unit :=
  let numberText := numberBuffer printer number
  if 25 < numberText.length then giveUp
  else emit (numberText.length + 1) (numberText ++ [0]) numberText.length

/-- What escaping adds to the length of a character. -/
def escapeLength (character : UInt8) : ℕ :=
  if character ∈ shortEscapes then 1 else if character < 32 then 5 else 0

/-- The first loop of `print_string_ptr`. -/
def escapeCharacters : Text → ℕ
  | [] => 0
  | character :: rest => escapeLength character + escapeCharacters rest

/-- The bytes that are written for a character; `sprintf` adds a NUL. -/
def escapeBytes (character : UInt8) : Text :=
  if character < 32 ∧ character ∉ shortEscapes then
    escapeCharacter character ++ [0]
  else escapeCharacter character

/-- The loop of `print_string_ptr`, from this index behind the offset on. -/
def printEscapedTo (index : ℕ) : Text → Printing Unit
  | [] => pure ()
  | character :: rest => do
      writeAt index (escapeBytes character)
      printEscapedTo (index + (escapeCharacter character).length) rest

/-- The opening quote and the content, which is copied if nothing is escaped. -/
def printContentTo (content : Text) : Printing Unit :=
  if escapeCharacters content = 0 then writeAt 0 (byte '"' :: content)
  else do
    writeAt 0 [byte '"']
    printEscapedTo 1 content

/-- `print_string_ptr`; the string may be NULL. -/
def printStringTo : Option Text → Printing Unit
  | none => emit 3 (text "\"\"" ++ [0]) 0
  | some input => do
      let content := cString input
      let outputLength := content.length + escapeCharacters content
      ensure (outputLength + 3)
      printContentTo content
      writeAt (outputLength + 1) [byte '"', 0]

/-- What depends on `format` and `depth`. -/
def formatted (program : Bool → ℕ → Printing Unit) : Printing Unit :=
  reading fun p => program p.format p.depth

/-- The tabs in front of a name. -/
def printTabsTo : Printing Unit := formatted fun format depth =>
  if format then emit depth (List.replicate depth (byte '\t')) depth
  else pure ()

/-- Between two elements. -/
def printCommaTo (isLast : Bool) : Printing Unit :=
  if isLast then pure ()
  else formatted fun format _ =>
    let separator := byte ',' :: whenFormatted format [byte ' ']
    emit (separator.length + 1) (separator ++ [0]) separator.length

/-- `{` and the line end behind it. -/
def printOpeningTo : Printing Unit := formatted fun format _ =>
  let opening := byte '\x7b' :: whenFormatted format [byte '\n']
  emit (opening.length + 1) opening opening.length

/-- Between a name and its value. -/
def printColonTo : Printing Unit := formatted fun format _ =>
  let colon := byte ':' :: whenFormatted format [byte '\t']
  emit colon.length colon colon.length

/-- Behind a member. -/
def printMemberEndTo (isLast : Bool) : Printing Unit := formatted fun format _ =>
  let ending := (if isLast then [] else [byte ',']) ++
    whenFormatted format [byte '\n']
  emit (ending.length + 1) (ending ++ [0]) ending.length

/-- The tabs and the brace at the end of an object. -/
def printClosingTo : Printing Unit := formatted fun format depth =>
  emit (if format then depth + 1 else 2)
    (tabs format (depth - 1) ++ [byte '\x7d'] ++ [0]) 0

mutual

/-- `print_value` -/
def printValueTo : CJson → Printing Unit
  | .null => emit 5 (text "null" ++ [0]) 0
  | .false => emit 6 (text "false" ++ [0]) 0
  | .true => emit 5 (text "true" ++ [0]) 0
  | .number value => printNumberTo printer value
  | .string valuestring => printStringTo (some valuestring)
  | .array elements => do
      emit 1 [byte '['] 1
      descend
      printElementsTo elements
      emit 2 ([byte ']'] ++ [0]) 0
      ascend
  | .object members => do
      printOpeningTo
      descend
      printMembersTo members
      printClosingTo
      ascend

/-- The loop of `print_array`. -/
def printElementsTo : List CJson → Printing Unit
  | [] => pure ()
  | element :: rest => do
      printValueTo element
      updateOffset
      printCommaTo rest.isEmpty
      printElementsTo rest

/-- The loop of `print_object`. -/
def printMembersTo : List (Text × CJson) → Printing Unit
  | [] => pure ()
  | member :: rest => do
      printTabsTo
      printMemberTo member
      printMemberEndTo rest.isEmpty
      printMembersTo rest

def printMemberTo : Text × CJson → Printing Unit
  | (name, value) => do
      printStringTo (some name)
      updateOffset
      printColonTo
      printValueTo value
      updateOffset

end

end

/-! ## Pieces of the text -/

variable {mode : PrintMode} {depth total : ℕ} {front : Text}
variable {grows : ℕ → Bool} {refused : PrintBuffer → Prop}

theorem triple_formatted {program : Bool → ℕ → Printing Unit}
    {post : Unit → PrintBuffer → Prop}
    (hprogram : Triple grows (Ready mode depth front)
      (program mode.format depth) post refused) :
    Triple grows (Ready mode depth front)
      (formatted program) post refused := by
  refine .of_reading fun p hready => ?_
  rw [hready.format, hready.depth]
  exact hprogram.strengthen fun current hcurrent => hcurrent ▸ hready

theorem triple_descend : Triple grows (Ready mode depth front) descend
    (fun _ => Ready mode (depth + 1) front) refused :=
  .of_update fun _ hready => ⟨⟨hready.noalloc, hready.format, hready.reallocate,
    congrArg (· + 1) hready.depth, hready.live, hready.read, hready.block⟩,
    hready.offset, hready.room⟩

theorem triple_ascend {printed : Text} :
    Triple grows (Printed mode (depth + 1) front printed) ascend
      (fun _ => Printed mode depth front printed) refused :=
  .of_update fun _ hprinted => ⟨⟨hprinted.noalloc, hprinted.format,
    hprinted.reallocate, congrArg (· - 1) hprinted.depth, hprinted.live,
    hprinted.read, hprinted.block⟩, hprinted.front_le, hprinted.le_text, hprinted.room⟩

/-- Two printed texts in a row. -/
theorem Printed.join {first second : Text} {p : PrintBuffer}
    (hprinted : Printed mode depth (front ++ first) second p) :
    Printed mode depth front (first ++ second) p := by
  have htext : front ++ first ++ second = front ++ (first ++ second) :=
    List.append_assoc front first second
  refine ⟨htext ▸ hprinted.toHolds, ?_, htext ▸ hprinted.le_text,
    htext ▸ hprinted.room⟩
  have hle := hprinted.front_le
  rw [List.length_append] at hle
  omega

/-! ## Strings -/

/-- Which characters are copied. -/
theorem plain_iff (character : UInt8) :
    (31 < character ∧ character ≠ byte '"' ∧ character ≠ byte '\\') ↔
      character ∉ shortEscapes ∧ ¬ character < 32 := by
  constructor
  · rintro ⟨hprintable, hquote, hbackslash⟩
    refine ⟨fun hshort => ?_, fun hcontrol => ?_⟩
    · simp only [shortEscapes, List.mem_cons, List.not_mem_nil, or_false]
        at hshort
      rcases hshort with rfl | rfl | rfl | rfl | rfl | rfl | rfl
      · exact hbackslash rfl
      · exact hquote rfl
      all_goals exact absurd hprintable (by decide)
    · exact absurd hprintable (Nat.not_lt.mpr (Nat.le_of_lt_succ hcontrol))
  · rintro ⟨hshort, hprintable⟩
    refine ⟨Nat.lt_of_succ_le (Nat.not_lt.mp hprintable), ?_, ?_⟩ <;>
      rintro rfl <;> exact hshort (by decide)

theorem length_escapeCharacter (character : UInt8) :
    (escapeCharacter character).length = 1 + escapeLength character := by
  by_cases hplain : character ∉ shortEscapes ∧ ¬ character < 32
  · rw [escapeCharacter, if_pos ((plain_iff character).mpr hplain),
      escapeLength, if_neg hplain.1, if_neg hplain.2]
    rfl
  rw [escapeCharacter, if_neg (mt (plain_iff character).mp hplain),
    escapeLength]
  by_cases hshort : character ∈ shortEscapes
  · obtain ⟨escape, hsequence, -⟩ := escapeSequence_short hshort
    rw [hsequence, if_pos hshort]
    rfl
  · have hcontrol : character < 32 := Decidable.not_not.mp fun hprintable =>
      hplain ⟨hshort, hprintable⟩
    rw [escapeSequence_long hshort, if_neg hshort, if_pos hcontrol]
    rfl

theorem escapeCharacter_eq_self {character : UInt8}
    (hnone : escapeLength character = 0) :
    escapeCharacter character = [character] := by
  have hplain : character ∉ shortEscapes ∧ ¬ character < 32 := by
    unfold escapeLength at hnone
    split at hnone
    · simp at hnone
    · split at hnone
      · simp at hnone
      · exact ⟨‹_›, ‹_›⟩
  rw [escapeCharacter, if_pos ((plain_iff character).mpr hplain)]

/-- It counts what the second loop writes. -/
theorem length_escaped (content : Text) :
    (content.flatMap escapeCharacter).length =
      content.length + escapeCharacters content := by
  induction content with
  | nil => rfl
  | cons character rest ih =>
      rw [List.flatMap_cons, List.length_append, length_escapeCharacter, ih,
        List.length_cons, escapeCharacters]
      omega

theorem escaped_eq_self {content : Text}
    (hnone : escapeCharacters content = 0) :
    content.flatMap escapeCharacter = content := by
  induction content with
  | nil => rfl
  | cons character rest ih =>
      rw [escapeCharacters, Nat.add_eq_zero_iff] at hnone
      rw [List.flatMap_cons, escapeCharacter_eq_self hnone.1, ih hnone.2]
      rfl

/-- The NUL that `sprintf` leaves is in front of the closing quote. -/
theorem escapeBytes_prefix (character : UInt8) :
    escapeCharacter character <+: escapeBytes character ∧
      (escapeBytes character).length ≤ (escapeCharacter character).length + 1 := by
  unfold escapeBytes
  split
  · exact ⟨List.prefix_append _ _, by simp⟩
  · exact ⟨List.prefix_refl _, Nat.le_succ _⟩

theorem triple_printEscapedTo {written content : Text} {offset index size : ℕ}
    (hplace : offset + index = written.length)
    (hsize : written.length + (content.flatMap escapeCharacter).length < size) :
    Triple grows (Wrote mode depth written offset size)
      (printEscapedTo index content)
      (fun _ => Wrote mode depth (written ++ content.flatMap escapeCharacter)
        offset size) refused := by
  induction content generalizing written index with
  | nil =>
      rw [List.flatMap_nil, List.append_nil]
      exact .of_pure fun _ hwrote => hwrote
  | cons character rest ih =>
      obtain ⟨hbegins, hlength⟩ := escapeBytes_prefix character
      rw [List.flatMap_cons, List.length_append] at hsize
      refine (triple_writeAt hplace (by omega)).bind fun _ => ?_
      have hnext : offset + (index + (escapeCharacter character).length) =
          (written ++ escapeCharacter character).length := by
        rw [List.length_append]
        omega
      have hroom : (written ++ escapeCharacter character).length +
          (rest.flatMap escapeCharacter).length < size := by
        rw [List.length_append]
        omega
      rw [List.flatMap_cons, ← List.append_assoc]
      refine (ih hnext hroom).strengthen fun p hwrote => ?_
      exact ⟨hwrote.shorter (List.prefix_append_right_inj written |>.mpr hbegins),
        hwrote.offset_eq, hwrote.size_le⟩

theorem triple_printContentTo {content : Text} {size : ℕ}
    (hsize : front.length + 1 + (content.flatMap escapeCharacter).length < size) :
    Triple grows (Wrote mode depth front front.length size)
      (printContentTo content)
      (fun _ => Wrote mode depth
        (front ++ byte '"' :: content.flatMap escapeCharacter) front.length size)
      refused := by
  unfold printContentTo
  by_cases hnone : escapeCharacters content = 0
  · rw [escaped_eq_self hnone] at hsize ⊢
    rw [if_pos hnone]
    exact triple_writeAt rfl (by rw [List.length_cons]; omega)
  · rw [if_neg hnone]
    refine (triple_writeAt rfl (by rw [List.length_singleton]; omega)).bind
      fun _ => ?_
    have hloop : Triple grows
        (Wrote mode depth (front ++ [byte '"']) front.length size)
        (printEscapedTo 1 content)
        (fun _ => Wrote mode depth
          (front ++ [byte '"'] ++ content.flatMap escapeCharacter) front.length
          size) refused :=
      triple_printEscapedTo (by rw [List.length_append]; rfl)
        (by rw [List.length_append]; exact hsize)
    rw [List.append_assoc] at hloop
    exact hloop

/-- `print_string_ptr` writes the quoted string. -/
theorem triple_printStringTo {input : Text}
    (htotal : (front ++ printStringPtr input).length + 2 ≤ total) :
    Triple grows (Ready mode depth front) (printStringTo (some input))
      (fun _ => Printed mode depth front (printStringPtr input))
      (Refused mode grows total) := by
  have hlength := length_escaped (cString input)
  have hquoted : (printStringPtr input).length =
      ((cString input).flatMap escapeCharacter).length + 2 := by
    simp [printStringPtr, quoted]
  rw [List.length_append] at htotal
  refine (triple_ensure (by omega)).bind fun _ => ?_
  refine (triple_printContentTo (by omega)).bind fun _ => ?_
  have hplace : front.length + ((cString input).length +
      escapeCharacters (cString input) + 1) =
      (front ++ byte '"' :: (cString input).flatMap escapeCharacter).length := by
    rw [List.length_append, List.length_cons]
    omega
  refine (triple_writeAt hplace ?_).weaken fun _ p hwrote => ?_
  · rw [List.length_append, List.length_cons, List.length_cons,
      List.length_singleton]
    omega
  · have htext : front ++ byte '"' :: (cString input).flatMap escapeCharacter ++
        [byte '"', 0] = front ++ printStringPtr input ++ [0] := by
      simp [printStringPtr, quoted]
    rw [htext] at hwrote
    refine hwrote.printed le_rfl ?_ ?_ <;> rw [List.length_append] <;> omega

/-! ## Values -/

variable (printer : NumberPrinter)

theorem numberBuffer_length_le (number : Decimal) :
    (numberBuffer printer number).length ≤ 24 := by
  unfold numberBuffer
  split
  · split
    · exact printer.length_le 15 number (by decide)
    · exact printer.length_le 17 number (by decide)
  · decide

theorem triple_printNumberTo {number : Decimal}
    (htotal : (front ++ numberBuffer printer number).length + 2 ≤ total) :
    Triple grows (Ready mode depth front) (printNumberTo printer number)
      (fun _ => Printed mode depth front (numberBuffer printer number))
      (Refused mode grows total) := by
  have hlength := numberBuffer_length_le printer number
  rw [List.length_append] at htotal
  unfold printNumberTo
  rw [if_neg (by omega)]
  exact triple_emit_printed (by omega) le_rfl le_rfl

/-- A piece of text that ends with a NUL, which is overwritten by the next. -/
theorem triple_emit_piece {piece : Text}
    (htotal : front.length + piece.length + 2 ≤ total) :
    Triple grows (Ready mode depth front)
      (emit (piece.length + 1) (piece ++ [0]) piece.length)
      (fun _ => Ready mode depth (front ++ piece)) (Refused mode grows total) := by
  have hlength : (piece ++ [0]).length = piece.length + 1 := List.length_append
  have hemit : Triple grows (Ready mode depth front)
      (emit (piece.length + 1) (piece ++ [0]) piece.length)
      (fun _ => Ready mode depth (front ++ (piece ++ [0]).take piece.length))
      (Refused mode grows total) :=
    triple_emit_ready (by omega) (by omega) (by omega) (Nat.le_succ _)
  rwa [List.take_left' rfl] at hemit

theorem triple_emit_text {piece : Text} {needed : ℕ}
    (htotal : front.length + needed + 1 ≤ total)
    (hneeded : piece.length ≤ needed) :
    Triple grows (Ready mode depth front) (emit needed piece piece.length)
      (fun _ => Ready mode depth (front ++ piece)) (Refused mode grows total) := by
  have hemit : Triple grows (Ready mode depth front)
      (emit needed piece piece.length)
      (fun _ => Ready mode depth (front ++ piece.take piece.length))
      (Refused mode grows total) :=
    triple_emit_ready htotal (by omega) le_rfl hneeded
  rwa [List.take_length] at hemit

theorem triple_printTabsTo
    (htotal : front.length + (tabs mode.format depth).length + 1 ≤ total) :
    Triple grows (Ready mode depth front) printTabsTo
      (fun _ => Ready mode depth (front ++ tabs mode.format depth))
      (Refused mode grows total) := by
  apply triple_formatted
  unfold tabs at htotal ⊢
  by_cases hformat : mode.format
  · rw [if_pos hformat, List.length_replicate] at htotal
    rw [if_pos hformat, if_pos hformat]
    have hemit : Triple grows (Ready mode depth front)
        (emit depth (List.replicate depth (byte '\t'))
          (List.replicate depth (byte '\t')).length) _ (Refused mode grows total) :=
      triple_emit_text htotal (by rw [List.length_replicate])
    rwa [List.length_replicate] at hemit
  · rw [if_neg hformat, if_neg hformat, List.append_nil]
    exact .of_pure fun _ hready => hready

theorem triple_printCommaTo {isLast : Bool} {separator : Text}
    (hseparator : separator = if isLast then []
      else byte ',' :: whenFormatted mode.format [byte ' '])
    (htotal : front.length + separator.length + 2 ≤ total) :
    Triple grows (Ready mode depth front) (printCommaTo isLast)
      (fun _ => Ready mode depth (front ++ separator))
      (Refused mode grows total) := by
  subst hseparator
  unfold printCommaTo
  cases isLast with
  | true =>
      rw [if_pos rfl, if_pos rfl, List.append_nil]
      exact .of_pure fun _ hready => hready
  | false =>
      rw [if_neg Bool.false_ne_true] at htotal ⊢
      rw [if_neg Bool.false_ne_true]
      apply triple_formatted
      exact triple_emit_piece htotal

theorem triple_printOpeningTo
    (htotal : front.length +
      (byte '\x7b' :: whenFormatted mode.format [byte '\n']).length + 2 ≤ total) :
    Triple grows (Ready mode depth front) printOpeningTo
      (fun _ => Ready mode depth
        (front ++ byte '\x7b' :: whenFormatted mode.format [byte '\n']))
      (Refused mode grows total) :=
  triple_formatted (triple_emit_text (by omega) (Nat.le_succ _))

theorem triple_printColonTo
    (htotal : front.length +
      (byte ':' :: whenFormatted mode.format [byte '\t']).length + 1 ≤ total) :
    Triple grows (Ready mode depth front) printColonTo
      (fun _ => Ready mode depth
        (front ++ byte ':' :: whenFormatted mode.format [byte '\t']))
      (Refused mode grows total) :=
  triple_formatted (triple_emit_text htotal le_rfl)

theorem triple_printMemberEndTo {isLast : Bool} {ending : Text}
    (hending : ending = (if isLast then [] else [byte ',']) ++
      whenFormatted mode.format [byte '\n'])
    (htotal : front.length + ending.length + 2 ≤ total) :
    Triple grows (Ready mode depth front) (printMemberEndTo isLast)
      (fun _ => Ready mode depth (front ++ ending)) (Refused mode grows total) := by
  subst hending
  exact triple_formatted (triple_emit_piece htotal)

theorem triple_printClosingTo
    (htotal : front.length + (tabs mode.format depth).length + 3 ≤ total) :
    Triple grows (Ready mode (depth + 1) front) printClosingTo
      (fun _ => Printed mode (depth + 1) front
        (tabs mode.format depth ++ [byte '\x7d'])) (Refused mode grows total) := by
  apply triple_formatted
  rw [Nat.add_sub_cancel]
  unfold tabs at htotal ⊢
  by_cases hformat : mode.format
  · simp only [hformat, if_true, List.length_replicate] at htotal ⊢
    refine triple_emit_printed (by omega) ?_ (Nat.zero_le _)
    rw [List.length_append, List.length_replicate, List.length_singleton]
  · simp only [hformat, Bool.false_eq_true, if_false, List.length_nil] at htotal ⊢
    exact triple_emit_printed (by omega) le_rfl (Nat.zero_le _)

/-- What `print_value` printed has no NUL in it. -/
theorem printValue_nul_not_mem (format : Bool) (value : CJson) :
    (0 : UInt8) ∉ printValue printer format depth value :=
  (spells_printValue printer format depth value le_rfl).nul_not_mem

theorem triple_emit_keyword {keyword : Text} {needed : ℕ}
    (htotal : front.length + keyword.length + 2 ≤ total)
    (hneeded : needed = keyword.length + 1) :
    Triple grows (Ready mode depth front) (emit needed (keyword ++ [0]) 0)
      (fun _ => Printed mode depth front keyword) (Refused mode grows total) :=
  triple_emit_printed (by omega) (Nat.le_of_eq hneeded.symm) (Nat.zero_le _)

/-- The brackets of `print_array`, given its loop. -/
theorem triple_array {loop : Printing Unit} {items : Text}
    (htotal : front.length + items.length + 4 ≤ total)
    (hloop : Triple grows (Ready mode (depth + 1) (front ++ [byte '['])) loop
      (fun _ => Ready mode (depth + 1) (front ++ [byte '['] ++ items))
      (Refused mode grows total)) :
    Triple grows (Ready mode depth front)
      (do
        emit 1 [byte '['] 1
        descend
        loop
        emit 2 ([byte ']'] ++ [0]) 0
        ascend)
      (fun _ => Printed mode depth front (byte '[' :: (items ++ [byte ']'])))
      (Refused mode grows total) := by
  have hopen : Triple grows (Ready mode depth front) (emit 1 [byte '['] 1)
      (fun _ => Ready mode depth (front ++ [byte '['])) (Refused mode grows total) :=
    triple_emit_text (by omega) le_rfl
  have hclose : Triple grows
      (Ready mode (depth + 1) (front ++ [byte '['] ++ items))
      (emit 2 ([byte ']'] ++ [0]) 0)
      (fun _ => Printed mode (depth + 1) (front ++ [byte '['] ++ items)
        [byte ']']) (Refused mode grows total) :=
    triple_emit_printed
      (by simp only [List.length_append, List.length_singleton]; omega) le_rfl
      (Nat.zero_le _)
  refine hopen.bind fun _ => triple_descend.bind fun _ => hloop.bind fun _ =>
    hclose.bind fun _ => triple_ascend.weaken fun _ p hprinted => ?_
  rw [List.append_assoc] at hprinted
  simpa using hprinted.join

/-- The braces of `print_object`, given its loop. -/
theorem triple_object {loop : Printing Unit} {items opening : Text}
    (hopening : opening = byte '\x7b' :: whenFormatted mode.format [byte '\n'])
    (htotal : front.length + opening.length + items.length +
      (tabs mode.format depth).length + 3 ≤ total)
    (hloop : Triple grows (Ready mode (depth + 1) (front ++ opening)) loop
      (fun _ => Ready mode (depth + 1) (front ++ opening ++ items))
      (Refused mode grows total)) :
    Triple grows (Ready mode depth front)
      (do
        printOpeningTo
        descend
        loop
        printClosingTo
        ascend)
      (fun _ => Printed mode depth front
        (opening ++ (items ++ (tabs mode.format depth ++ [byte '\x7d']))))
      (Refused mode grows total) := by
  subst hopening
  refine (triple_printOpeningTo (by omega)).bind fun _ =>
    triple_descend.bind fun _ => hloop.bind fun _ =>
      (triple_printClosingTo ?_).bind fun _ =>
        triple_ascend.weaken fun _ p hprinted => ?_
  · simp only [List.length_append]
    omega
  · rw [List.append_assoc] at hprinted
    simpa using hprinted.join

mutual

/-- `print_value` writes the printed text. -/
theorem triple_printValueTo (value : CJson) {depth : ℕ} {front : Text}
    (htotal : (front ++ printValue printer mode.format depth value).length + 2 ≤
      total) :
    Triple grows (Ready mode depth front) (printValueTo printer value)
      (fun _ => Printed mode depth front
        (printValue printer mode.format depth value))
      (Refused mode grows total) := by
  cases value with
  | null | false | true =>
      rw [printValue, List.length_append] at htotal
      rw [printValue, printValueTo]
      exact triple_emit_keyword htotal rfl
  | number number =>
      rw [printValue] at htotal ⊢
      rw [printValueTo]
      exact triple_printNumberTo printer htotal
  | string valuestring =>
      rw [printValue] at htotal ⊢
      rw [printValueTo]
      exact triple_printStringTo htotal
  | array elements =>
      rw [printValue] at htotal ⊢
      simp only [List.length_append, List.length_cons, List.length_nil] at htotal
      rw [printValueTo]
      refine triple_array (by omega) (triple_printElementsTo elements ?_)
      simp only [List.length_append, List.length_cons, List.length_nil]
      omega
  | object members =>
      obtain ⟨opening, hopening⟩ : ∃ opening, opening =
          byte '\x7b' :: whenFormatted mode.format [byte '\n'] := ⟨_, rfl⟩
      rw [printValue, ← List.cons_append, ← hopening] at htotal ⊢
      simp only [List.length_append, List.length_cons, List.length_nil] at htotal
      rw [printValueTo]
      refine triple_object hopening (by omega) (triple_printMembersTo members ?_)
      simp only [List.length_append]
      omega

theorem triple_printElementsTo (elements : List CJson) {depth : ℕ} {front : Text}
    (htotal : (front ++
      printElements printer mode.format depth elements).length + 2 ≤ total) :
    Triple grows (Ready mode depth front) (printElementsTo printer elements)
      (fun _ => Ready mode depth
        (front ++ printElements printer mode.format depth elements))
      (Refused mode grows total) := by
  cases elements with
  | nil =>
      rw [printElements, List.append_nil, printElementsTo]
      exact .of_pure fun _ hready => hready
  | cons element rest =>
      obtain ⟨separator, hseparator⟩ : ∃ separator, separator =
          if rest.isEmpty then []
          else byte ',' :: whenFormatted mode.format [byte ' '] := ⟨_, rfl⟩
      rw [printElements, ← hseparator] at htotal ⊢
      simp only [List.length_append] at htotal
      rw [printElementsTo]
      refine (triple_printValueTo element ?_).bind fun _ => ?_
      · rw [List.length_append]
        omega
      refine (triple_updateOffset
        (printValue_nul_not_mem printer mode.format element)).bind fun _ => ?_
      refine (triple_printCommaTo hseparator ?_).bind fun _ => ?_
      · rw [List.length_append]
        omega
      rw [← List.append_assoc, ← List.append_assoc]
      refine triple_printElementsTo rest ?_
      simp only [List.length_append]
      omega

theorem triple_printMembersTo (members : List (Text × CJson)) {depth : ℕ}
    {front : Text}
    (htotal : (front ++
      printMembers printer mode.format depth members).length + 2 ≤ total) :
    Triple grows (Ready mode depth front) (printMembersTo printer members)
      (fun _ => Ready mode depth
        (front ++ printMembers printer mode.format depth members))
      (Refused mode grows total) := by
  cases members with
  | nil =>
      rw [printMembers, List.append_nil, printMembersTo]
      exact .of_pure fun _ hready => hready
  | cons member rest =>
      obtain ⟨ending, hending⟩ : ∃ ending, ending =
          (if rest.isEmpty then [] else [byte ',']) ++
            whenFormatted mode.format [byte '\n'] := ⟨_, rfl⟩
      rw [printMembers, ← List.append_assoc (if rest.isEmpty then [] else _),
        ← hending] at htotal ⊢
      simp only [List.length_append] at htotal
      rw [printMembersTo]
      refine (triple_printTabsTo (by omega)).bind fun _ => ?_
      refine (triple_printMemberTo member ?_).bind fun _ => ?_
      · simp only [List.length_append]
        omega
      refine (triple_printMemberEndTo hending ?_).bind fun _ => ?_
      · simp only [List.length_append]
        omega
      rw [← List.append_assoc, ← List.append_assoc, ← List.append_assoc]
      refine triple_printMembersTo rest ?_
      simp only [List.length_append]
      omega

theorem triple_printMemberTo (member : Text × CJson) {depth : ℕ} {front : Text}
    (htotal : (front ++
      printMember printer mode.format depth member).length + 2 ≤ total) :
    Triple grows (Ready mode depth front) (printMemberTo printer member)
      (fun _ => Ready mode depth
        (front ++ printMember printer mode.format depth member))
      (Refused mode grows total) := by
  obtain ⟨name, value⟩ := member
  obtain ⟨colon, hcolon⟩ : ∃ colon, colon =
      byte ':' :: whenFormatted mode.format [byte '\t'] := ⟨_, rfl⟩
  rw [printMember, ← List.cons_append, ← hcolon] at htotal ⊢
  simp only [List.length_append] at htotal
  rw [printMemberTo]
  refine (triple_printStringTo ?_).bind fun _ => ?_
  · rw [List.length_append]
    omega
  have hname : (0 : UInt8) ∉ printStringPtr name :=
    quoted_nul_not_mem (escapes_flatMap (cString name)).nul_not_mem
  refine (triple_updateOffset hname).bind fun _ => ?_
  refine (triple_printColonTo ?_).bind fun _ => ?_
  · rw [List.length_append, ← hcolon]
    omega
  rw [← hcolon, ← List.append_assoc, ← List.append_assoc]
  refine (triple_printValueTo value ?_).bind fun _ =>
    triple_updateOffset (printValue_nul_not_mem printer mode.format value)
  simp only [List.length_append]
  omega

end

end Conveyor.Json
