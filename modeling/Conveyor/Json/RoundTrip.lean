import Conveyor.Json.Integers
import Conveyor.Json.Print

/-!
# Printing what was read

A text in the grammar contains no NUL, so a printed text ends where its C string
does.  What the parser returns nests no deeper than the parser goes.  So every
value that was read can be printed and read again.
-/

namespace Conveyor.Json

variable {Item : Type}

/-! ## No NUL in a text -/

theorem IsBlank.nul_not_mem {blank : Text} (hblank : IsBlank blank) :
    (0 : UInt8) ∉ blank := by
  intro hmem
  rcases hblank 0 hmem with h | h | h | h <;> exact absurd h (by decide)

theorem digits_nul_not_mem {digits : Text}
    (hdigits : ∀ digit ∈ digits, isDigit digit) : (0 : UInt8) ∉ digits :=
  fun hmem => absurd (hdigits 0 hmem) (by decide)

theorem Exponent.nul_not_mem (exponent : Exponent) :
    (0 : UInt8) ∉ exponent.text := by
  have hsign : (0 : UInt8) ∉ exponent.sign := by
    rcases exponent.signed with hsign | hsign | hsign <;> rw [hsign] <;> decide
  have hmarker : (0 : UInt8) ≠ exponent.marker := by
    rcases exponent.marked with hmarker | hmarker <;> rw [hmarker] <;> decide
  simp only [Exponent.text, List.mem_cons, List.mem_append, not_or]
  exact ⟨hmarker, hsign, digits_nul_not_mem exponent.isDigits⟩

theorem Numeral.nul_not_mem (numeral : Numeral) : (0 : UInt8) ∉ numeral.text := by
  have hdigits := digits_nul_not_mem numeral.isDigits
  rw [List.mem_append, not_or] at hdigits
  have hsign : (0 : UInt8) ∉ numeral.signText := by
    unfold signText
    split <;> decide
  have hfraction : (0 : UInt8) ∉ numeral.fractionText := by
    unfold fractionText
    split
    · exact List.not_mem_nil
    · exact List.not_mem_cons_of_ne_of_not_mem (by decide) hdigits.2
  have hexponent : (0 : UInt8) ∉ numeral.exponentText := by
    unfold exponentText
    cases numeral.exponent with
    | none => exact List.not_mem_nil
    | some exponent => exact exponent.nul_not_mem
  simp only [Numeral.text, List.mem_append, not_or]
  exact ⟨hsign, hdigits.1, hfraction, hexponent⟩

theorem HexCode.nul_not_mem {digits : Text} {code : ℕ}
    (hcode : HexCode digits code) : (0 : UInt8) ∉ digits :=
  fun hmem => absurd (hcode.isHex 0 hmem) (by decide)

theorem Escapes.nul_not_mem {raw content : Text}
    (hescapes : Escapes raw content) : (0 : UInt8) ∉ raw := by
  have hbackslash : (0 : UInt8) ≠ byte '\\' := by decide
  have hletter : (0 : UInt8) ≠ byte 'u' := by decide
  induction hescapes with
  | nil => exact List.not_mem_nil
  | plain hprintable hquote hslash hrest ih =>
      refine List.not_mem_cons_of_ne_of_not_mem ?_ ih
      rintro rfl
      exact absurd hprintable (by decide)
  | short hvalue hrest ih =>
      refine List.not_mem_cons_of_ne_of_not_mem hbackslash
        (List.not_mem_cons_of_ne_of_not_mem ?_ ih)
      rintro rfl
      exact absurd hvalue (by simp [show escapeValue 0 = none by decide])
  | unicode hcode hsurrogate hrest ih =>
      simp only [List.mem_cons, List.mem_append, not_or]
      exact ⟨hbackslash, hletter, hcode.nul_not_mem, ih⟩
  | pair hhigh hlow hhighRange hlowRange hrest ih =>
      simp only [List.mem_cons, List.mem_append, not_or]
      exact ⟨hbackslash, hletter, hhigh.nul_not_mem, hbackslash, hletter,
        hlow.nul_not_mem, ih⟩

theorem quoted_nul_not_mem {raw : Text} (hraw : (0 : UInt8) ∉ raw) :
    (0 : UInt8) ∉ quoted raw := by
  simp only [quoted, List.mem_cons, List.mem_append, List.not_mem_nil, not_or,
    or_false]
  exact ⟨by decide, hraw, by decide⟩

theorem Separated.nul_not_mem {spells : Text → Item → Prop} {body : Text}
    {items : List Item} (hitems : Separated IsBlank spells body items)
    (hspells : ∀ body item, spells body item → (0 : UInt8) ∉ body) :
    (0 : UInt8) ∉ body := by
  induction hitems with
  | one hbefore hafter hitem =>
      simp only [List.mem_append, not_or]
      exact ⟨hbefore.nul_not_mem, hspells _ _ hitem, hafter.nul_not_mem⟩
  | more hbefore hafter hitem hrest ih =>
      simp only [List.mem_append, List.mem_cons, not_or]
      exact ⟨hbefore.nul_not_mem, hspells _ _ hitem, hafter.nul_not_mem,
        by decide, ih⟩

theorem Enclosed.nul_not_mem {spells : Text → Item → Prop}
    {opening closing : UInt8} {body : Text} {items : List Item}
    (hitems : Enclosed IsBlank spells opening closing body items)
    (hspells : ∀ body item, spells body item → (0 : UInt8) ∉ body)
    (hopening : 0 ≠ opening) (hclosing : 0 ≠ closing) : (0 : UInt8) ∉ body := by
  cases hitems with
  | empty hblank =>
      simp only [List.mem_cons, List.mem_append, List.not_mem_nil, or_false,
        not_or]
      exact ⟨hopening, hblank.nul_not_mem, hclosing⟩
  | items hitems =>
      simp only [List.mem_cons, List.mem_append, List.not_mem_nil, or_false,
        not_or]
      exact ⟨hopening, hitems.nul_not_mem hspells, hclosing⟩

theorem SpellsMember.nul_not_mem {spells : Text → CJson → Prop} {body : Text}
    {member : Text × CJson} (hmember : SpellsMember IsBlank spells body member)
    (hspells : ∀ body item, spells body item → (0 : UInt8) ∉ body) :
    (0 : UInt8) ∉ body := by
  obtain ⟨hname, hbefore, hafter, hvalue⟩ := hmember
  simp only [List.mem_append, List.mem_cons, not_or]
  exact ⟨quoted_nul_not_mem hname.nul_not_mem, hbefore.nul_not_mem, by decide,
    hafter.nul_not_mem, hspells _ _ hvalue⟩

theorem SpellsWith.nul_not_mem {nested : Option (Text → CJson → Prop)}
    {body : Text} {value : CJson} (hvalue : SpellsWith IsBlank nested body value)
    (hnested : ∀ spells, nested = some spells →
      ∀ body item, spells body item → (0 : UInt8) ∉ body) :
    (0 : UInt8) ∉ body := by
  cases hvalue with
  | null | false | true => decide
  | number numeral hlength => exact numeral.nul_not_mem
  | string hcontent => exact quoted_nul_not_mem hcontent.nul_not_mem
  | array hspells helements =>
      exact helements.nul_not_mem (hnested _ hspells) (by decide) (by decide)
  | object hspells hmembers =>
      exact hmembers.nul_not_mem
        (fun body member hmember => hmember.nul_not_mem (hnested _ hspells))
        (by decide) (by decide)

theorem Spells.nul_not_mem {levels : ℕ} {body : Text} {value : CJson}
    (hvalue : Spells IsBlank levels body value) : (0 : UInt8) ∉ body := by
  induction levels generalizing body value with
  | zero => exact SpellsWith.nul_not_mem hvalue (by simp)
  | succ levels ih =>
      refine SpellsWith.nul_not_mem hvalue fun spells hspells body item hitem => ?_
      obtain rfl := Option.some.inj hspells
      exact ih hitem

/-! ## How deep a value nests -/

theorem nestingElements_le {levels : ℕ} {elements : List CJson}
    (helements : ∀ element ∈ elements, element.nesting ≤ levels) :
    nestingElements elements ≤ levels := by
  induction elements with
  | nil => exact Nat.zero_le levels
  | cons element rest ih =>
      obtain ⟨helement, hrest⟩ := List.forall_mem_cons.mp helements
      exact Nat.max_le.mpr ⟨helement, ih hrest⟩

theorem nestingMembers_le {levels : ℕ} {members : List (Text × CJson)}
    (hmembers : ∀ member ∈ members, member.2.nesting ≤ levels) :
    nestingMembers members ≤ levels := by
  induction members with
  | nil => exact Nat.zero_le levels
  | cons member rest ih =>
      obtain ⟨name, value⟩ := member
      obtain ⟨hmember, hrest⟩ := List.forall_mem_cons.mp hmembers
      exact Nat.max_le.mpr ⟨hmember, ih hrest⟩

theorem nesting_parseByFirstByte {nested : Option (Parser CJson)} {levels : ℕ}
    (hnested : ∀ parse, nested = some parse → 0 < levels ∧
      ∀ input item rest, parse input = some (item, rest) → item.nesting < levels)
    {input rest : Text} {item : CJson}
    (hparse : parseByFirstByte nested input = some (item, rest)) :
    item.nesting ≤ levels := by
  cases input with
  | nil => simp [parseByFirstByte] at hparse
  | cons first later =>
      rw [parseByFirstByte_cons] at hparse
      by_cases hquote : first = byte '"'
      · simp only [hquote, if_true, Option.map_eq_some_iff] at hparse
        obtain ⟨parsed, -, hitem⟩ := hparse
        obtain ⟨rfl, -⟩ := Prod.mk.inj hitem
        exact Nat.zero_le levels
      rw [if_neg hquote] at hparse
      by_cases hnumber : first = byte '-' ∨ isDigit first
      · rw [if_pos hnumber, parseNumber] at hparse
        split at hparse
        · simp at hparse
        · obtain ⟨rfl, -⟩ := Prod.mk.inj (Option.some.inj hparse)
          exact Nat.zero_le levels
      rw [if_neg hnumber, Option.bind_eq_some_iff] at hparse
      obtain ⟨parse, hsome, hparse⟩ := hparse
      obtain ⟨hlevels, hparsed⟩ := hnested parse hsome
      split at hparse
      · rw [parseArray, Option.map_eq_some_iff] at hparse
        obtain ⟨⟨elements, after⟩, helements, hitem⟩ := hparse
        obtain ⟨rfl, -⟩ := Prod.mk.inj hitem
        refine Nat.le_of_lt_add_one (Nat.succ_lt_succ
          (Nat.lt_of_le_pred hlevels (nestingElements_le fun element hmem => ?_)))
        obtain ⟨start, after, hparse⟩ := mem_of_parseEnclosed helements element hmem
        exact Nat.le_pred_of_lt (hparsed start element after hparse)
      · split at hparse
        · rw [parseObject, Option.map_eq_some_iff] at hparse
          obtain ⟨⟨members, after⟩, hmembers, hitem⟩ := hparse
          obtain ⟨rfl, -⟩ := Prod.mk.inj hitem
          refine Nat.le_of_lt_add_one (Nat.succ_lt_succ
            (Nat.lt_of_le_pred hlevels (nestingMembers_le fun member hmem => ?_)))
          obtain ⟨start, after, hparse⟩ := mem_of_parseEnclosed hmembers member hmem
          obtain ⟨start, after, hvalue⟩ := parseMember_value hparse
          exact Nat.le_pred_of_lt (hparsed start member.2 after hvalue)
        · simp at hparse

theorem nesting_parseValueWith {nested : Option (Parser CJson)} {levels : ℕ}
    (hnested : ∀ parse, nested = some parse → 0 < levels ∧
      ∀ input item rest, parse input = some (item, rest) → item.nesting < levels)
    {input rest : Text} {item : CJson}
    (hparse : parseValueWith nested input = some (item, rest)) :
    item.nesting ≤ levels := by
  unfold parseValueWith at hparse
  split at hparse
  · obtain ⟨rfl, -⟩ := Prod.mk.inj (Option.some.inj hparse)
    exact Nat.zero_le levels
  · split at hparse
    · obtain ⟨rfl, -⟩ := Prod.mk.inj (Option.some.inj hparse)
      exact Nat.zero_le levels
    · split at hparse
      · obtain ⟨rfl, -⟩ := Prod.mk.inj (Option.some.inj hparse)
        exact Nat.zero_le levels
      · exact nesting_parseByFirstByte hnested hparse

theorem nesting_parseValue {levels : ℕ} {input rest : Text} {item : CJson}
    (hparse : parseValue levels input = some (item, rest)) :
    item.nesting ≤ levels := by
  induction levels generalizing input rest item with
  | zero => exact nesting_parseValueWith (by simp) hparse
  | succ levels ih =>
      refine nesting_parseValueWith (fun parse hparse => ?_) hparse
      obtain rfl := Option.some.inj hparse
      exact ⟨Nat.succ_pos levels, fun input item rest hparse =>
        Nat.lt_succ_of_le (ih hparse)⟩

theorem nesting_cJSONParse {value : Text} {item : CJson}
    (hparse : cJSONParse value = some item) : item.nesting ≤ nestingLimit := by
  unfold cJSONParse at hparse
  rw [Option.map_eq_some_iff] at hparse
  obtain ⟨⟨parsed, rest⟩, hvalue, rfl⟩ := hparse
  exact nesting_parseValue hvalue

/-! ## Printing and reading -/

theorem cString_append_nul {bytes : Text} (hnul : (0 : UInt8) ∉ bytes)
    (more : Text) : cString (bytes ++ 0 :: more) = bytes := by
  rw [cString, List.takeWhile_append_of_pos, List.takeWhile_cons]
  · simp
  · intro character hmem
    have hne : character ≠ 0 := fun heq => hnul (heq ▸ hmem)
    simpa using hne

theorem cJSONParse_printValue (printer : NumberPrinter) (format : Bool)
    {value : CJson} (hnesting : value.nesting ≤ nestingLimit) (more : Text) :
    cJSONParse (printValue printer format 0 value ++ 0 :: more) =
      some (reread printer value) := by
  have hspells := spells_printValue printer format 0 value hnesting
  have hstring := cString_append_nul hspells.nul_not_mem more
  have hvalue : cString (printValue printer format 0 value ++ 0 :: more) =
      [] ++ ([] ++ (printValue printer format 0 value ++ [])) := by
    simpa using hstring
  have hends : Ends [] := by simp [Ends]
  exact cJSONParse_spelled hvalue (.inl rfl) isBlank_nil hspells hends

/-- What was read can be printed, formatted or not, and read again. -/
theorem printed_reads_back (printer : NumberPrinter) (format : Bool)
    {content : Text} {value : CJson} (hparse : cJSONParse content = some value)
    (more : Text) :
    cJSONParse (printValue printer format 0 value ++ 0 :: more) =
      some (reread printer value) :=
  cJSONParse_printValue printer format (nesting_cJSONParse hparse) more

/-- A C library that can print one number. -/
def Numeral.printer (numeral : Numeral) (hlength : numeral.text.length ≤ 24) :
    NumberPrinter where
  sprintf _ _ := numeral.text
  recovers _ number := number = numeral.decimal
  isFinite number := number = numeral.decimal
  numeral _ _ _ := ⟨numeral, rfl⟩
  length_le _ _ _ := hlength

def answer : Decimal := { negative := false, mantissa := 42, exponent := 0 }

def answerNumeral : Numeral where
  negative := false
  whole := text "42"
  fraction := []
  exponent := none
  nonempty := by decide
  isDigits := List.all_eq_true.mp (by decide)
  noLeadingZero := by decide

def answerPrinter : NumberPrinter := answerNumeral.printer (by decide)

def answerArray : CJson := .array [.number answer, .true]

theorem reread_answerArray : reread answerPrinter answerArray = answerArray := by
  simp only [answerArray, reread, rereadElements]
  rfl

theorem printed_reads_back_answer :
    cJSONParse (text "[42,true]" ++ [0]) = some answerArray := by
  have hformatted : printValue answerPrinter true 0 answerArray =
      text "[42, true]" := by decide
  have hparse : cJSONParse (text "[42, true]" ++ [0]) = some answerArray := by
    rw [← hformatted]
    have hread := cJSONParse_printValue answerPrinter true
      (show answerArray.nesting ≤ nestingLimit by decide) []
    rwa [reread_answerArray] at hread
  have hprinted : printValue answerPrinter false 0 answerArray =
      text "[42,true]" := by decide
  have hagain := printed_reads_back answerPrinter false hparse []
  rwa [hprinted, reread_answerArray] at hagain

end Conveyor.Json
