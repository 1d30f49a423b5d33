import Conveyor.Json.Completeness

/-!
# Printing JSON texts

The text that `print_value` renders a value to, with line breaks and tabs or
without.  How a number is written is up to the C library; that it writes a
number is all that is assumed.  The printed text is in the grammar, so the
parser reads it, and it reads the value up to what printing cuts off: strings
end at their first NUL and numbers have the digits that were printed.
-/

namespace Conveyor.Json

/-- What `print_number` uses of the C library. -/
structure NumberPrinter where
  /-- `sprintf` with the format `%1.15g` or `%1.17g`. -/
  sprintf : ℕ → Decimal → Text
  /-- `sscanf` and `compare_double` recover the number from the text. -/
  recovers : Text → Decimal → Bool
  /-- Neither `isnan` nor `isinf`. -/
  isFinite : Decimal → Bool
  numeral : ∀ precision number, isFinite number →
    ∃ numeral : Numeral, sprintf precision number = numeral.text
  length_le : ∀ precision number, precision ≤ 17 →
    (sprintf precision number).length ≤ 24

section

variable (printer : NumberPrinter)

/-- The content of `number_buffer`. -/
def numberBuffer (number : Decimal) : Text :=
  if printer.isFinite number then
    if printer.recovers (printer.sprintf 15 number) number then
      printer.sprintf 15 number
    else printer.sprintf 17 number
  else text "null"

/-- The number that the printed digits stand for. -/
def rereadNumber (number : Decimal) : CJson :=
  match strtod (numberBuffer printer number) with
  | none => .null
  | some (decimal, _) => .number decimal

/-- A hexadecimal digit as `%x` writes it. -/
def hexCharacter (digit : UInt8) : UInt8 :=
  if digit < 10 then byte '0' + digit else byte 'a' + (digit - 10)

/-- What follows the backslash. -/
def escapeSequence (character : UInt8) : Text :=
  if character = byte '\\' then [byte '\\']
  else if character = byte '"' then [byte '"']
  else if character = 8 then [byte 'b']
  else if character = 12 then [byte 'f']
  else if character = 10 then [byte 'n']
  else if character = 13 then [byte 'r']
  else if character = 9 then [byte 't']
  else [byte 'u', byte '0', byte '0', hexCharacter (character / 16),
    hexCharacter (character % 16)]

def escapeCharacter (character : UInt8) : Text :=
  if 31 < character ∧ character ≠ byte '"' ∧ character ≠ byte '\\' then
    [character]
  else byte '\\' :: escapeSequence character

/-- `print_string_ptr`; the string ends at its first NUL. -/
def printStringPtr (input : Text) : Text :=
  quoted ((cString input).flatMap escapeCharacter)

variable (format : Bool)

def tabs (depth : ℕ) : Text :=
  if format then List.replicate depth (byte '\t') else []

/-- What only formatted text has. -/
def whenFormatted (text : Text) : Text := if format then text else []

mutual

/-- `print_value` at this depth. -/
def printValue (depth : ℕ) : CJson → Text
  | .null => text "null"
  | .false => text "false"
  | .true => text "true"
  | .number value => numberBuffer printer value
  | .string valuestring => printStringPtr valuestring
  | .array elements =>
      byte '[' :: (printElements (depth + 1) elements ++ [byte ']'])
  | .object members =>
      byte '\x7b' :: (whenFormatted format [byte '\n'] ++
        (printMembers (depth + 1) members ++
          (tabs format depth ++ [byte '\x7d'])))

/-- The loop of `print_array`. -/
def printElements (depth : ℕ) : List CJson → Text
  | [] => []
  | element :: rest =>
      printValue depth element ++
        ((if rest.isEmpty then []
          else byte ',' :: whenFormatted format [byte ' ']) ++
            printElements depth rest)

/-- The loop of `print_object`. -/
def printMembers (depth : ℕ) : List (Text × CJson) → Text
  | [] => []
  | member :: rest =>
      tabs format depth ++ (printMember depth member ++
        ((if rest.isEmpty then [] else [byte ',']) ++
          (whenFormatted format [byte '\n'] ++ printMembers depth rest)))

def printMember (depth : ℕ) : Text × CJson → Text
  | (name, value) =>
      printStringPtr name ++ (byte ':' :: (whenFormatted format [byte '\t'] ++
        printValue depth value))

end

end

/-! ## What is read back -/

section

variable (printer : NumberPrinter)

mutual

/-- The value that the printed text stands for. -/
def reread : CJson → CJson
  | .null => .null
  | .false => .false
  | .true => .true
  | .number value => rereadNumber printer value
  | .string valuestring => .string (cString valuestring)
  | .array elements => .array (rereadElements elements)
  | .object members => .object (rereadMembers members)

def rereadElements : List CJson → List CJson
  | [] => []
  | element :: rest => reread element :: rereadElements rest

def rereadMembers : List (Text × CJson) → List (Text × CJson)
  | [] => []
  | member :: rest => rereadMember member :: rereadMembers rest

def rereadMember : Text × CJson → Text × CJson
  | (name, value) => (cString name, reread value)

end

end

mutual

/-- How many arrays and objects are nested in each other. -/
def CJson.nesting : CJson → ℕ
  | .array elements => nestingElements elements + 1
  | .object members => nestingMembers members + 1
  | _ => 0

def nestingElements : List CJson → ℕ
  | [] => 0
  | element :: rest => max element.nesting (nestingElements rest)

def nestingMembers : List (Text × CJson) → ℕ
  | [] => 0
  | member :: rest => max (nestingMember member) (nestingMembers rest)

def nestingMember : Text × CJson → ℕ
  | (_, value) => value.nesting

end

/-! ## Strings -/

theorem hexDigit_hexCharacter {digit : UInt8} (hdigit : digit < 16) :
    hexDigit (hexCharacter digit) = some digit.toNat := by
  have hall : ∀ number : Fin 16,
      hexDigit (hexCharacter (.ofNat number)) = some number.val := by decide
  have hdigit : digit.toNat < 16 := hdigit
  simpa using hall ⟨digit.toNat, hdigit⟩

/-- The digits of `u%04x` are the code of the character. -/
theorem hexCode_character (character : UInt8) :
    HexCode [byte '0', byte '0', hexCharacter (character / 16),
      hexCharacter (character % 16)] character.toNat := by
  have hhigh : hexDigit (hexCharacter (character / 16)) =
      some (character / 16).toNat :=
    hexDigit_hexCharacter (by
      rw [UInt8.lt_iff_toNat_lt, UInt8.toNat_div]
      have hlt := character.toNat_lt
      simp only [UInt8.reduceToNat]
      omega)
  have hlow : hexDigit (hexCharacter (character % 16)) =
      some (character % 16).toNat :=
    hexDigit_hexCharacter (by
      rw [UInt8.lt_iff_toNat_lt, UInt8.toNat_mod]
      simp only [UInt8.reduceToNat]
      omega)
  have hzero : hexDigit (byte '0') = some 0 := by decide
  refine ⟨rfl, ?_, ?_⟩
  · simp [hzero, hhigh, hlow]
  · simp [parseHex4, hzero, hhigh, hlow]
    omega

theorem utf8_toNat {character : UInt8} (hcharacter : character < 128) :
    utf8 character.toNat = [character] := by
  have hlt : character.toNat < 0x80 := hcharacter
  simp [utf8, hlt]

/-- The characters with an escape sequence of one letter. -/
def shortEscapes : Text := [byte '\\', byte '"', 8, 12, 10, 13, 9]

theorem escapeSequence_short {character : UInt8}
    (hshort : character ∈ shortEscapes) :
    ∃ escape, escapeSequence character = [escape] ∧
      escapeValue escape = some character := by
  simp only [shortEscapes, List.mem_cons, List.not_mem_nil, or_false] at hshort
  rcases hshort with rfl | rfl | rfl | rfl | rfl | rfl | rfl
  · exact ⟨byte '\\', rfl, by decide⟩
  · exact ⟨byte '"', rfl, by decide⟩
  · exact ⟨byte 'b', rfl, by decide⟩
  · exact ⟨byte 'f', rfl, by decide⟩
  · exact ⟨byte 'n', rfl, by decide⟩
  · exact ⟨byte 'r', rfl, by decide⟩
  · exact ⟨byte 't', rfl, by decide⟩

theorem escapeSequence_long {character : UInt8}
    (hlong : character ∉ shortEscapes) :
    escapeSequence character = [byte 'u', byte '0', byte '0',
      hexCharacter (character / 16), hexCharacter (character % 16)] := by
  simp only [shortEscapes, List.mem_cons, List.not_mem_nil, or_false, not_or]
    at hlong
  simp only [escapeSequence, hlong, if_false]

/-- An escaped character stands for itself. -/
theorem Escapes.character {character : UInt8} {raw content : Text}
    (hrest : Escapes raw content) :
    Escapes (escapeCharacter character ++ raw) (character :: content) := by
  unfold escapeCharacter
  by_cases hplain : 31 < character ∧ character ≠ byte '"' ∧
      character ≠ byte '\\'
  · rw [if_pos hplain]
    have hprintable : 31 < character.toNat := hplain.1
    exact .plain (show 32 ≤ character.toNat from hprintable) hplain.2.1
      hplain.2.2 hrest
  rw [if_neg hplain]
  by_cases hshort : character ∈ shortEscapes
  · obtain ⟨escape, hsequence, hvalue⟩ := escapeSequence_short hshort
    rw [hsequence]
    exact .short hvalue hrest
  have hcontrol : ¬ 31 < character.toNat := by
    intro hprintable
    refine hplain ⟨hprintable, ?_, ?_⟩ <;> rintro rfl <;>
      exact hshort (by decide)
  rw [escapeSequence_long hshort]
  have hunicode := Escapes.unicode (hexCode_character character)
    (.inl (by omega)) hrest
  rw [utf8_toNat (show character.toNat < 128 by omega)] at hunicode
  exact hunicode

theorem escapes_flatMap (content : Text) :
    Escapes (content.flatMap escapeCharacter) content := by
  induction content with
  | nil => exact .nil
  | cons character rest ih =>
      rw [List.flatMap_cons]
      exact ih.character

/-! ## Values -/

theorem spells_scalar {body : Text} {value : CJson} (levels : ℕ)
    (hscalar : ∀ nested, SpellsWith IsBlank nested body value) :
    Spells IsBlank levels body value := by
  cases levels with
  | zero => exact hscalar none
  | succ levels => exact hscalar (some (Spells IsBlank levels))

theorem isBlank_tabs (format : Bool) (depth : ℕ) :
    IsBlank (tabs format depth) := by
  unfold tabs
  split
  · exact fun character hmem => .inr (.inl (List.eq_of_mem_replicate hmem))
  · exact isBlank_nil

theorem isBlank_whenFormatted (format : Bool) {blank : Text}
    (hblank : IsBlank blank) : IsBlank (whenFormatted format blank) := by
  unfold whenFormatted
  split
  · exact hblank
  · exact isBlank_nil

theorem isBlank_append {first second : Text} (hfirst : IsBlank first)
    (hsecond : IsBlank second) : IsBlank (first ++ second) :=
  List.forall_mem_append.mpr ⟨hfirst, hsecond⟩

theorem isBlank_singleton {character : UInt8}
    (hblank : character = byte ' ' ∨ character = byte '\t' ∨
      character = byte '\n') : IsBlank [character] :=
  List.forall_mem_singleton.mpr (hblank.imp_right (.imp_right .inl))

variable (printer : NumberPrinter) (format : Bool)

theorem spells_number (levels : ℕ) (number : Decimal) :
    Spells IsBlank levels (numberBuffer printer number) (rereadNumber printer number) := by
  apply spells_scalar
  intro nested
  unfold rereadNumber
  by_cases hfinite : printer.isFinite number
  · have hnumeral : ∃ numeral : Numeral,
        numberBuffer printer number = numeral.text ∧
          numeral.text.length ≤ 24 := by
      unfold numberBuffer
      rw [if_pos hfinite]
      split
      · obtain ⟨numeral, htext⟩ := printer.numeral 15 number hfinite
        exact ⟨numeral, htext, htext ▸ printer.length_le 15 number (by omega)⟩
      · obtain ⟨numeral, htext⟩ := printer.numeral 17 number hfinite
        exact ⟨numeral, htext, htext ▸ printer.length_le 17 number (by omega)⟩
    obtain ⟨numeral, htext, hlength⟩ := hnumeral
    rw [htext, numeral.strtod_text]
    exact .number numeral (by omega)
  · have hnull : strtod (text "null") = none := by decide
    rw [numberBuffer, if_neg hfinite, hnull]
    exact .null

theorem spells_member {levels : ℕ} {body : Text} {value : CJson} (name : Text)
    (hvalue : Spells IsBlank levels body value) :
    SpellsMember IsBlank (Spells IsBlank levels) (printStringPtr name ++
        (byte ':' :: (whenFormatted format [byte '\t'] ++ body)))
      (cString name, value) := by
  have hmember := SpellsMember.intro (escapes_flatMap (cString name)) isBlank_nil
    (isBlank_whenFormatted format (isBlank_singleton (.inr (.inl rfl)))) hvalue
  exact hmember

mutual

/-- The printed text is in the grammar. -/
theorem spells_printValue (depth : ℕ) {levels : ℕ} (value : CJson)
    (hnesting : value.nesting ≤ levels) :
    Spells IsBlank levels (printValue printer format depth value)
      (reread printer value) := by
  cases value with
  | null => exact spells_scalar levels fun _ => .null
  | false => exact spells_scalar levels fun _ => .false
  | true => exact spells_scalar levels fun _ => .true
  | number number => exact spells_number printer levels number
  | string valuestring =>
      exact spells_scalar levels fun _ =>
        .string (escapes_flatMap (cString valuestring))
  | array elements =>
      rw [CJson.nesting] at hnesting
      obtain ⟨levels, rfl⟩ := Nat.exists_eq_add_of_le' (Nat.one_le_of_lt hnesting)
      refine .array rfl ?_
      cases elements with
      | nil => exact .empty isBlank_nil
      | cons element rest =>
          have helements := spells_printElements (depth + 1) element rest
            (Nat.le_of_succ_le_succ hnesting) isBlank_nil
          exact .items helements
  | object members =>
      rw [CJson.nesting] at hnesting
      obtain ⟨levels, rfl⟩ := Nat.exists_eq_add_of_le' (Nat.one_le_of_lt hnesting)
      have hopen : IsBlank (whenFormatted format [byte '\n']) :=
        isBlank_whenFormatted format (isBlank_singleton (.inr (.inr rfl)))
      refine .object rfl ?_
      cases members with
      | nil =>
          have hempty : Enclosed IsBlank (SpellsMember IsBlank (Spells IsBlank levels)) (byte '\x7b')
              (byte '\x7d') _ [] :=
            .empty (isBlank_append hopen (isBlank_tabs format depth))
          simpa [printValue, printMembers, rereadMembers] using hempty
      | cons member rest =>
          have hmembers := spells_printMembers (depth + 1) member rest
            (Nat.le_of_succ_le_succ hnesting) hopen (isBlank_tabs format depth)
          have hitems : Enclosed IsBlank (SpellsMember IsBlank (Spells IsBlank levels)) (byte '\x7b')
              (byte '\x7d') _ _ := .items hmembers
          simpa [printValue] using hitems

theorem spells_printElements (depth : ℕ) {levels : ℕ} (element : CJson)
    (rest : List CJson) (hnesting : nestingElements (element :: rest) ≤ levels)
    {before : Text} (hbefore : IsBlank before) :
    Separated IsBlank (Spells IsBlank levels)
      (before ++ printElements printer format depth (element :: rest))
      (rereadElements printer (element :: rest)) := by
  rw [nestingElements, Nat.max_le] at hnesting
  have helement := spells_printValue depth element hnesting.1
  cases rest with
  | nil =>
      have hone := Separated.one hbefore isBlank_nil helement
      simpa [printElements, rereadElements] using hone
  | cons second rest =>
      have hspace : IsBlank (whenFormatted format [byte ' ']) :=
        isBlank_whenFormatted format (isBlank_singleton (.inl rfl))
      have hrest := spells_printElements depth second rest hnesting.2 hspace
      have hmore := Separated.more hbefore isBlank_nil helement hrest
      simpa [printElements, rereadElements] using hmore

theorem spells_printMembers (depth : ℕ) {levels : ℕ} (member : Text × CJson)
    (rest : List (Text × CJson))
    (hnesting : nestingMembers (member :: rest) ≤ levels)
    {before after : Text} (hbefore : IsBlank before) (hafter : IsBlank after) :
    Separated IsBlank (SpellsMember IsBlank (Spells IsBlank levels))
      (before ++ (printMembers printer format depth (member :: rest) ++ after))
      (rereadMembers printer (member :: rest)) := by
  obtain ⟨name, value⟩ := member
  rw [nestingMembers, Nat.max_le, nestingMember] at hnesting
  have hvalue := spells_printValue depth value hnesting.1
  have hmember := spells_member format name hvalue
  have hstart := isBlank_append hbefore (isBlank_tabs format depth)
  have hbreak : IsBlank (whenFormatted format [byte '\n']) :=
    isBlank_whenFormatted format (isBlank_singleton (.inr (.inr rfl)))
  cases rest with
  | nil =>
      have hone := Separated.one hstart (isBlank_append hbreak hafter) hmember
      simpa [printMembers, printMember, rereadMembers, rereadMember] using hone
  | cons second rest =>
      have hrest := spells_printMembers depth second rest hnesting.2 hbreak hafter
      have hmore := Separated.more hstart isBlank_nil hmember hrest
      simpa [printMembers, printMember, rereadMembers, rereadMember] using hmore

end

end Conveyor.Json
