import Conveyor.Json.Append
import Conveyor.Json.Grammar

/-!
# JSON texts are accepted

The parser reads every text of the grammar as its value, whatever follows that
cannot belong to a number.
-/

namespace Conveyor.Json

variable {Item : Type}

/-- What follows a value cannot belong to a number. -/
def Ends (rest : Text) : Prop :=
  ∀ next ∈ rest.head?, isNumberByte next = false

/-- The parser reads what is spelled. -/
def Reads (parse : Parser Item) (spells : Text → Item → Prop) : Prop :=
  ∀ body item rest, spells body item → Ends rest →
    parse (body ++ rest) = some (item, rest)

theorem takeWhile_append_stop {property : UInt8 → Bool} {front rest : Text}
    (hfront : ∀ character ∈ front, property character)
    (hrest : ∀ next ∈ rest.head?, property next = false) :
    (front ++ rest).takeWhile property = front ∧
      (front ++ rest).dropWhile property = rest := by
  rw [List.takeWhile_append_of_pos hfront, List.dropWhile_append_of_pos hfront]
  cases rest with
  | nil => simp
  | cons next more =>
      have hnext := hrest next rfl
      simp [hnext]

/-! ## Numbers -/

theorem isDigit_ne_sign {digit : UInt8} (hdigit : isDigit digit) :
    digit ≠ byte '-' ∧ digit ≠ byte '+' ∧ digit ≠ byte '.' := by
  refine ⟨?_, ?_, ?_⟩ <;> rintro rfl <;> revert hdigit <;> decide

theorem splitSign_digits {digits : Text} (hnonempty : digits ≠ [])
    (hdigits : ∀ digit ∈ digits, isDigit digit) (rest : Text) :
    splitSign (digits ++ rest) = (false, digits ++ rest) := by
  obtain ⟨digit, more, rfl⟩ := List.exists_cons_of_ne_nil hnonempty
  obtain ⟨hminus, hplus, -⟩ := isDigit_ne_sign (hdigits digit List.mem_cons_self)
  rw [List.cons_append, splitSign, if_neg hminus, if_neg hplus]

theorem splitExponent_text (exponent : Exponent) :
    splitExponent exponent.text = (exponent.value, []) := by
  have hstop : ∀ next ∈ ([] : Text).head?, isDigit next = false := by simp
  obtain ⟨htake, hdrop⟩ := takeWhile_append_stop exponent.isDigits hstop
  rw [List.append_nil] at htake hdrop
  have hsign : splitSign (exponent.sign ++ exponent.digits) =
      (decide (exponent.sign = [byte '-']), exponent.digits) := by
    have hplain := splitSign_digits exponent.nonempty exponent.isDigits []
    rw [List.append_nil] at hplain
    obtain hnone | hplus | hminus := exponent.signed
    · simp [hnone, hplain]
    · rw [hplus]
      rfl
    · rw [hminus]
      rfl
  simp only [Exponent.text, splitExponent, exponent.marked, if_true, hsign,
    htake, hdrop, exponent.nonempty, if_false, Exponent.value,
    decide_eq_true_eq]

/-- Behind the digits of a numeral stands no further digit. -/
theorem Numeral.tail_not_digit (numeral : Numeral) :
    ∀ next ∈ (numeral.fractionText ++ numeral.exponentText).head?,
      isDigit next = false := by
  intro next hnext
  unfold Numeral.fractionText Numeral.exponentText at hnext
  split at hnext
  · cases hexponent : numeral.exponent with
    | none => simp [hexponent] at hnext
    | some exponent =>
        simp only [hexponent, Option.map_some, Option.getD_some, Exponent.text,
          List.nil_append, List.head?_cons, Option.mem_some] at hnext
        subst hnext
        rcases exponent.marked with hmarker | hmarker <;> rw [hmarker] <;> decide
  · simp only [List.cons_append, List.head?_cons, Option.mem_some] at hnext
    subst hnext
    decide

theorem Numeral.splitExponent_exponentText (numeral : Numeral) :
    splitExponent numeral.exponentText =
      ((numeral.exponent.map Exponent.value).getD 0, []) := by
  unfold Numeral.exponentText
  cases numeral.exponent with
  | none => rfl
  | some exponent => exact splitExponent_text exponent

theorem Numeral.splitFraction_tail (numeral : Numeral) :
    splitFraction (numeral.fractionText ++ numeral.exponentText) =
      (numeral.fraction, numeral.exponentText) := by
  have hstart : ∀ next ∈ numeral.exponentText.head?,
      isDigit next = false ∧ next ≠ byte '.' := by
    intro next hnext
    unfold Numeral.exponentText at hnext
    cases hexponent : numeral.exponent with
    | none => simp [hexponent] at hnext
    | some exponent =>
        simp only [hexponent, Option.map_some, Option.getD_some, Exponent.text,
          List.head?_cons, Option.mem_some] at hnext
        subst hnext
        rcases exponent.marked with hmarker | hmarker <;> rw [hmarker] <;> decide
  unfold Numeral.fractionText
  by_cases hfraction : numeral.fraction = []
  · rw [if_pos hfraction, List.nil_append, hfraction]
    cases htext : numeral.exponentText with
    | nil => rfl
    | cons next more =>
        rw [htext] at hstart
        rw [splitFraction, if_neg (hstart next rfl).2]
  · rw [if_neg hfraction, List.cons_append, splitFraction, if_pos rfl]
    obtain ⟨htake, hdrop⟩ := takeWhile_append_stop
      (fun digit hdigit => numeral.isDigits digit
        (List.mem_append_right _ hdigit)) (fun next hnext => (hstart next hnext).1)
    rw [htake, hdrop]

/-- `strtod` reads a numeral to its end. -/
theorem Numeral.strtod_text (numeral : Numeral) :
    strtod numeral.text = some (numeral.decimal, numeral.text.length) := by
  have hwhole : ∀ digit ∈ numeral.whole, isDigit digit := fun digit hdigit =>
    numeral.isDigits digit (List.mem_append_left _ hdigit)
  have hsign : splitSign numeral.text = (numeral.negative, numeral.whole ++
      (numeral.fractionText ++ numeral.exponentText)) := by
    unfold Numeral.text Numeral.signText
    cases numeral.negative with
    | true => rfl
    | false => exact splitSign_digits numeral.nonempty hwhole _
  obtain ⟨htake, hdrop⟩ := takeWhile_append_stop hwhole numeral.tail_not_digit
  have hnonempty : numeral.whole ++ numeral.fraction ≠ [] := by
    simp [numeral.nonempty]
  simp only [strtod, hsign, htake, hdrop, numeral.splitFraction_tail,
    numeral.splitExponent_exponentText, hnonempty, if_false, List.length_nil,
    Nat.sub_zero]
  rfl

theorem isNumberByte_of_isDigit {digit : UInt8} (hdigit : isDigit digit) :
    isNumberByte digit := by
  simp [isNumberByte, hdigit]

theorem Exponent.isNumberByte_text (exponent : Exponent) :
    ∀ character ∈ exponent.text, isNumberByte character := by
  have hsign : ∀ character ∈ exponent.sign, isNumberByte character := by
    rcases exponent.signed with hsign | hsign | hsign <;> rw [hsign]
    · simp
    · exact List.forall_mem_singleton.mpr (by decide)
    · exact List.forall_mem_singleton.mpr (by decide)
  have hmarker : isNumberByte exponent.marker := by
    rcases exponent.marked with hmarker | hmarker <;> rw [hmarker] <;> decide
  rw [Exponent.text, List.forall_mem_cons, List.forall_mem_append]
  exact ⟨hmarker, hsign, fun digit hdigit =>
    isNumberByte_of_isDigit (exponent.isDigits digit hdigit)⟩

theorem Numeral.isNumberByte_text (numeral : Numeral) :
    ∀ character ∈ numeral.text, isNumberByte character := by
  have hdigits := numeral.isDigits
  rw [List.forall_mem_append] at hdigits
  simp only [Numeral.text, List.forall_mem_append]
  refine ⟨?_, fun digit hdigit => isNumberByte_of_isDigit (hdigits.1 digit hdigit),
    ?_, ?_⟩
  · unfold Numeral.signText
    split
    · exact List.forall_mem_singleton.mpr (by decide)
    · simp
  · unfold Numeral.fractionText
    split
    · simp
    · rw [List.forall_mem_cons]
      exact ⟨by decide, fun digit hdigit =>
        isNumberByte_of_isDigit (hdigits.2 digit hdigit)⟩
  · unfold Numeral.exponentText
    cases numeral.exponent with
    | none => simp
    | some exponent => exact exponent.isNumberByte_text

theorem reads_number (numeral : Numeral) (hlength : numeral.text.length ≤ 63)
    {rest : Text} (hends : Ends rest) :
    parseNumber (numeral.text ++ rest) =
      some (.number numeral.decimal, rest) := by
  obtain ⟨htake, -⟩ := takeWhile_append_stop numeral.isNumberByte_text hends
  rw [parseNumber, htake, List.take_of_length_le hlength, numeral.strtod_text]
  simp

/-! ## Strings -/

theorem hexDigit_ne {digit : UInt8} (hdigit : (hexDigit digit).isSome) :
    digit ≠ byte '"' ∧ digit ≠ byte '\\' := by
  constructor <;> rintro rfl <;> revert hdigit <;> decide

/-- Bytes that are neither quotes nor backslashes go through the literal. -/
theorem splitLiteral_append {front : Text}
    (hfront : ∀ character ∈ front, character ≠ byte '"' ∧
      character ≠ byte '\\') (rest : Text) :
    splitLiteral (front ++ rest) =
      (splitLiteral rest).map fun parsed => (front ++ parsed.1, parsed.2) := by
  induction front with
  | nil => cases hrest : splitLiteral rest <;> simp [hrest]
  | cons first front ih =>
      obtain ⟨⟨hquote, hbackslash⟩, hfront⟩ := List.forall_mem_cons.mp hfront
      rw [List.cons_append, splitLiteral_plain hquote hbackslash, ih hfront,
        Option.map_map]
      rfl

/-- A literal ends at its closing quote. -/
theorem Escapes.splitLiteral_eq {raw content : Text}
    (hescapes : Escapes raw content) (rest : Text) :
    splitLiteral (raw ++ byte '"' :: rest) = some (raw, rest) := by
  induction hescapes with
  | nil => exact splitLiteral_quote rest
  | plain hprintable hquote hbackslash hrest ih =>
      rw [List.cons_append, splitLiteral_plain hquote hbackslash, ih]
      rfl
  | short hvalue hrest ih =>
      rw [List.cons_append, List.cons_append, splitLiteral_escape, ih]
      rfl
  | unicode hcode hsurrogate hrest ih =>
      rw [List.cons_append, List.cons_append, splitLiteral_escape,
        List.append_assoc, splitLiteral_append fun digit hdigit =>
          hexDigit_ne (hcode.isHex digit hdigit), ih]
      rfl
  | pair hhigh hlow hhighRange hlowRange hrest ih =>
      rw [List.cons_append, List.cons_append, splitLiteral_escape,
        List.append_assoc, splitLiteral_append fun digit hdigit =>
          hexDigit_ne (hhigh.isHex digit hdigit), List.cons_append,
        List.cons_append, splitLiteral_escape, List.append_assoc,
        splitLiteral_append fun digit hdigit =>
          hexDigit_ne (hlow.isHex digit hdigit), ih]
      rfl

theorem HexCode.parseHex4_append {digits : Text} {code : ℕ}
    (hcode : HexCode digits code) (rest : Text) :
    parseHex4 (digits ++ rest) = code := by
  rw [← hcode.value]
  unfold parseHex4
  rw [List.take_left' hcode.length, List.take_of_length_le hcode.length.le]

theorem escapeValue_ne_u {escape value : UInt8}
    (hvalue : escapeValue escape = some value) : escape ≠ byte 'u' := by
  rintro rfl
  have hnone : escapeValue (byte 'u') = none := by decide
  rw [hnone] at hvalue
  contradiction

theorem unescape_unicode {later encoded : Text} {consumed fuel : ℕ}
    (hconvert : utf16LiteralToUtf8 (byte '\\' :: byte 'u' :: later) =
      some (encoded, consumed)) :
    unescape (fuel + 1) (byte '\\' :: byte 'u' :: later) =
      (unescape fuel ((byte '\\' :: byte 'u' :: later).drop consumed)).map
        (encoded ++ ·) := by
  simp only [unescape, ne_eq, not_true_eq_false, if_false, if_true, hconvert]

theorem utf16_single {digits : Text} {code : ℕ} (hcode : HexCode digits code)
    (hsurrogate : code < 0xd800 ∨ 0xdfff < code) (rest : Text) :
    utf16LiteralToUtf8 (byte '\\' :: byte 'u' :: (digits ++ rest)) =
      some (utf8 code, 6) := by
  have hlength : ¬ (byte '\\' :: byte 'u' :: (digits ++ rest)).length < 6 := by
    simp [hcode.length]
  unfold utf16LiteralToUtf8
  rw [if_neg hlength]
  simp only [List.drop_succ_cons, List.drop_zero, hcode.parseHex4_append]
  rw [if_neg (by omega), if_neg (by omega)]

theorem utf16_pair {digits lowDigits : Text} {code lowCode : ℕ}
    (hhigh : HexCode digits code) (hlow : HexCode lowDigits lowCode)
    (hhighRange : 0xd800 ≤ code ∧ code ≤ 0xdbff)
    (hlowRange : 0xdc00 ≤ lowCode ∧ lowCode ≤ 0xdfff) (rest : Text) :
    utf16LiteralToUtf8 (byte '\\' :: byte 'u' :: (digits ++
        byte '\\' :: byte 'u' :: (lowDigits ++ rest))) =
      some (utf8 (0x10000 + code % 0x400 * 0x400 + lowCode % 0x400), 12) := by
  have hdrop : (byte '\\' :: byte 'u' :: (digits ++
      byte '\\' :: byte 'u' :: (lowDigits ++ rest))).drop 6 =
      byte '\\' :: byte 'u' :: (lowDigits ++ rest) := by
    simp only [List.drop_succ_cons]
    exact List.drop_left' hhigh.length
  have hlength : ¬ (byte '\\' :: byte 'u' :: (digits ++
      byte '\\' :: byte 'u' :: (lowDigits ++ rest))).length < 6 := by
    simp [hhigh.length]
  have hlater : ¬ (byte '\\' :: byte 'u' :: (lowDigits ++ rest)).length < 6 := by
    simp [hlow.length]
  unfold utf16LiteralToUtf8
  rw [if_neg hlength]
  simp only [hdrop]
  simp only [List.drop_succ_cons, List.drop_zero, hhigh.parseHex4_append,
    hlow.parseHex4_append]
  rw [if_neg (by omega), if_pos hhighRange, if_neg hlater, if_neg (by simp),
    if_neg (by omega)]

/-- A literal decodes to the string it stands for. -/
theorem Escapes.unescape_eq {raw content : Text}
    (hescapes : Escapes raw content) {fuel : ℕ} (hfuel : raw.length ≤ fuel) :
    unescape fuel raw = some content := by
  induction hescapes generalizing fuel with
  | nil => cases fuel <;> rfl
  | plain hprintable hquote hbackslash hrest ih =>
      rw [List.length_cons] at hfuel
      obtain ⟨fuel, rfl⟩ := Nat.exists_eq_add_of_le' (Nat.one_le_of_lt hfuel)
      simp only [unescape, ne_eq, hbackslash, not_false_eq_true, if_true]
      rw [ih (by omega)]
      rfl
  | short hvalue hrest ih =>
      simp only [List.length_cons] at hfuel
      obtain ⟨fuel, rfl⟩ := Nat.exists_eq_add_of_le' (Nat.one_le_of_lt hfuel)
      simp only [unescape, ne_eq, not_true_eq_false, if_false,
        escapeValue_ne_u hvalue, hvalue]
      rw [ih (by omega)]
      rfl
  | @unicode digits code raw content hcode hsurrogate hrest ih =>
      have hlength := hcode.length
      simp only [List.length_cons, List.length_append] at hfuel
      obtain ⟨fuel, rfl⟩ := Nat.exists_eq_add_of_le' (Nat.one_le_of_lt hfuel)
      have hdrop : (byte '\\' :: byte 'u' :: (digits ++ raw)).drop 6 = raw := by
        simp only [List.drop_succ_cons]
        exact List.drop_left' hlength
      rw [unescape_unicode (utf16_single hcode hsurrogate raw), hdrop,
        ih (by omega)]
      rfl
  | @pair digits code lowDigits lowCode raw content hhigh hlow hhighRange
      hlowRange hrest ih =>
      have hlength := hhigh.length
      have hlowLength := hlow.length
      simp only [List.length_cons, List.length_append] at hfuel
      obtain ⟨fuel, rfl⟩ := Nat.exists_eq_add_of_le' (Nat.one_le_of_lt hfuel)
      have hdrop : (byte '\\' :: byte 'u' :: (digits ++
          byte '\\' :: byte 'u' :: (lowDigits ++ raw))).drop 12 = raw := by
        have hfront : digits ++ byte '\\' :: byte 'u' :: (lowDigits ++ raw) =
            (digits ++ byte '\\' :: byte 'u' :: lowDigits) ++ raw := by
          simp
        simp only [List.drop_succ_cons]
        rw [hfront]
        exact List.drop_left' (by simp [hlength, hlowLength])
      rw [unescape_unicode (utf16_pair hhigh hlow hhighRange hlowRange raw),
        hdrop, ih (by omega)]
      rfl

theorem reads_string {raw content : Text} (hescapes : Escapes raw content)
    (rest : Text) : parseString (quoted raw ++ rest) = some (content, rest) := by
  rw [quoted, List.cons_append, List.append_assoc, List.singleton_append,
    parseString]
  simp only [if_true, hescapes.splitLiteral_eq, hescapes.unescape_eq le_rfl]
  rfl

/-! ## Lists of items -/

/-- Nothing that is spelled starts with a blank or with a closing byte. -/
def Starts (spells : Text → Item → Prop) (closing : UInt8) : Prop :=
  ∀ body item, spells body item →
    ∃ first more, body = first :: more ∧ 32 < first ∧ first ≠ closing

theorem isBlank_nil : IsBlank [] := by
  simp [IsBlank]

theorem bufferSkipWhitespace_blank {blank : Text} (hblank : IsBlank blank)
    (rest : Text) : bufferSkipWhitespace (blank ++ rest) =
      bufferSkipWhitespace rest := by
  refine List.dropWhile_append_of_pos fun character hcharacter => ?_
  rcases hblank character hcharacter with rfl | rfl | rfl | rfl <;> decide

theorem bufferSkipWhitespace_start {first : UInt8} (hfirst : 32 < first)
    (rest : Text) : bufferSkipWhitespace (first :: rest) = first :: rest :=
  List.dropWhile_cons_of_neg (by simpa using hfirst)

theorem bufferSkipWhitespace_spelled {spells : Text → Item → Prop}
    {closing : UInt8} (hstarts : Starts spells closing) {blank body : Text}
    {item : Item} (hblank : IsBlank blank) (hitem : spells body item)
    (rest : Text) :
    bufferSkipWhitespace (blank ++ (body ++ rest)) = body ++ rest := by
  obtain ⟨first, more, rfl, hfirst, -⟩ := hstarts body item hitem
  rw [bufferSkipWhitespace_blank hblank, List.cons_append,
    bufferSkipWhitespace_start hfirst]

theorem ends_blank {blank rest : Text} (hblank : IsBlank blank)
    (hrest : Ends rest) : Ends (blank ++ rest) := by
  cases blank with
  | nil => exact hrest
  | cons first more =>
      intro next hnext
      obtain rfl : first = next := Option.some.inj hnext
      rcases hblank first List.mem_cons_self with rfl | rfl | rfl | rfl <;> decide

/-- The loop reads the items up to the closing byte. -/
theorem Separated.parseItems_eq {parse : Parser Item}
    {spells : Text → Item → Prop} {closing : UInt8}
    (hreads : Reads parse spells) (hstarts : Starts spells closing)
    (hclosing : 32 < closing ∧ closing ≠ byte ',' ∧
      isNumberByte closing = false)
    {body : Text} {items : List Item} (hitems : Separated IsBlank spells body items)
    {fuel : ℕ} (hfuel : body.length ≤ fuel) (rest : Text) :
    parseItems parse fuel (body ++ closing :: rest) =
      some (items, closing :: rest) := by
  induction hitems generalizing fuel with
  | @one before after body item hbefore hafter hitem =>
      have hends : Ends (after ++ closing :: rest) :=
        ends_blank hafter fun next hnext => by
          obtain rfl : closing = next := Option.some.inj hnext
          exact hclosing.2.2
      obtain ⟨first, more, hbody, -⟩ := hstarts body item hitem
      simp only [hbody, List.length_append, List.length_cons] at hfuel
      obtain ⟨fuel, rfl⟩ := Nat.exists_eq_add_of_le' (show 1 ≤ fuel by omega)
      rw [List.append_assoc, List.append_assoc, parseItems,
        bufferSkipWhitespace_spelled hstarts hbefore hitem,
        hreads body item _ hitem hends]
      simp only [bufferSkipWhitespace_blank hafter,
        bufferSkipWhitespace_start hclosing.1, hclosing.2.1, if_false]
  | @more before after body item later items hbefore hafter hitem hrest ih =>
      have hends : Ends (after ++ byte ',' :: (later ++ closing :: rest)) :=
        ends_blank hafter fun next hnext => by
          obtain rfl : byte ',' = next := Option.some.inj hnext
          decide
      obtain ⟨first, more, hbody, -⟩ := hstarts body item hitem
      simp only [hbody, List.length_append, List.length_cons] at hfuel
      obtain ⟨fuel, rfl⟩ := Nat.exists_eq_add_of_le' (show 1 ≤ fuel by omega)
      rw [List.append_assoc, List.append_assoc, List.append_assoc,
        List.cons_append, parseItems,
        bufferSkipWhitespace_spelled hstarts hbefore hitem,
        hreads body item _ hitem hends]
      simp only [bufferSkipWhitespace_blank hafter]
      rw [bufferSkipWhitespace_start (by decide)]
      simp only [if_true]
      rw [ih (by omega)]

/-- Blanks in front of a list do not matter. -/
theorem Separated.skip {spells : Text → Item → Prop} {closing : UInt8}
    (hstarts : Starts spells closing) {body : Text} {items : List Item}
    (hitems : Separated IsBlank spells body items) :
    ∃ first more, Separated IsBlank spells (first :: more) items ∧ first ≠ closing ∧
      ∀ rest, bufferSkipWhitespace (body ++ rest) = first :: (more ++ rest) := by
  cases hitems with
  | @one before after body item hbefore hafter hitem =>
      obtain ⟨first, more, rfl, hfirst, hne⟩ := hstarts body item hitem
      refine ⟨first, more ++ after, ?_, hne, fun rest => ?_⟩
      · exact .one isBlank_nil hafter hitem
      · rw [List.append_assoc, bufferSkipWhitespace_blank hbefore,
          List.cons_append, List.cons_append, bufferSkipWhitespace_start hfirst]
  | @more before after body item later items hbefore hafter hitem hrest =>
      obtain ⟨first, more, rfl, hfirst, hne⟩ := hstarts body item hitem
      refine ⟨first, more ++ (after ++ byte ',' :: later), ?_, hne,
        fun rest => ?_⟩
      · exact .more isBlank_nil hafter hitem hrest
      · rw [List.append_assoc, bufferSkipWhitespace_blank hbefore,
          List.cons_append, List.cons_append, bufferSkipWhitespace_start hfirst]

theorem Enclosed.parseEnclosed_eq {parse : Parser Item}
    {spells : Text → Item → Prop} {opening closing : UInt8}
    (hreads : Reads parse spells) (hstarts : Starts spells closing)
    (hclosing : 32 < closing ∧ closing ≠ byte ',' ∧
      isNumberByte closing = false)
    {body : Text} {items : List Item}
    (hitems : Enclosed IsBlank spells opening closing body items) (rest : Text) :
    parseEnclosed parse opening closing (body ++ rest) =
      some (items, rest) := by
  cases hitems with
  | @empty blank hblank =>
      rw [List.cons_append, List.append_assoc, List.singleton_append,
        parseEnclosed, if_pos rfl, bufferSkipWhitespace_blank hblank,
        bufferSkipWhitespace_start hclosing.1]
      simp only [if_true]
  | @items body items hitems =>
      rw [List.cons_append, List.append_assoc, List.singleton_append,
        parseEnclosed, if_pos rfl]
      obtain ⟨first, more, hitems, hfirst, hskip⟩ := hitems.skip hstarts
      have hlength : (first :: more).length ≤
          (first :: (more ++ closing :: rest)).length := by
        simp only [List.length_cons, List.length_append]
        omega
      have hparse := hitems.parseItems_eq hreads hstarts hclosing hlength rest
      rw [List.cons_append] at hparse
      simp only [hskip, hfirst, if_false, hparse, if_true]

/-! ## Values -/

theorem starts_member (spells : Text → CJson → Prop) :
    Starts (SpellsMember IsBlank spells) (byte '\x7d') := by
  rintro body member ⟨hname, hbefore, hafter, hvalue⟩
  exact ⟨_, _, rfl, by decide, by decide⟩

theorem reads_member {parse : Parser CJson} {spells : Text → CJson → Prop}
    {closing : UInt8} (hreads : Reads parse spells)
    (hstarts : Starts spells closing) :
    Reads (parseMember parse) (SpellsMember IsBlank spells) := by
  rintro body member rest ⟨hname, hbefore, hafter, hvalue⟩ hends
  rw [List.append_assoc, List.append_assoc, List.cons_append, List.append_assoc,
    parseMember, reads_string hname]
  simp only [bufferSkipWhitespace_blank hbefore]
  rw [bufferSkipWhitespace_start (by decide)]
  simp only [if_true, bufferSkipWhitespace_spelled hstarts hafter hvalue,
    hreads _ _ rest hvalue hends]

/-- A value starts neither with a blank nor with a closing bracket nor with a
byte order mark. -/
def StartsValue (body : Text) : Prop :=
  ∃ first more, body = first :: more ∧ 32 < first ∧ first ≠ byte ']' ∧
    first ≠ 0xef

theorem startsValue_cons {first : UInt8} (more : Text)
    (hfirst : 32 < first ∧ first ≠ byte ']' ∧ first ≠ 0xef) :
    StartsValue (first :: more) :=
  ⟨first, more, rfl, hfirst⟩

/-- A numeral starts with a minus or with a digit. -/
theorem Numeral.exists_first (numeral : Numeral) :
    ∃ first more, numeral.text = first :: more ∧
      (first = byte '-' ∨ isDigit first) := by
  unfold Numeral.text Numeral.signText
  cases numeral.negative with
  | true => exact ⟨_, _, rfl, .inl rfl⟩
  | false =>
      obtain ⟨digit, more, hwhole⟩ := List.exists_cons_of_ne_nil numeral.nonempty
      have hdigit : isDigit digit := numeral.isDigits digit (by simp [hwhole])
      rw [hwhole]
      exact ⟨_, _, rfl, .inr hdigit⟩

theorem Enclosed.exists_first {spells : Text → Item → Prop}
    {opening closing : UInt8} {body : Text} {items : List Item}
    (hitems : Enclosed IsBlank spells opening closing body items) :
    ∃ more, body = opening :: more := by
  cases hitems with
  | empty => exact ⟨_, rfl⟩
  | items => exact ⟨_, rfl⟩

theorem isDigit_startsValue {digit : UInt8} (hdigit : isDigit digit) :
    32 < digit ∧ digit ≠ byte ']' ∧ digit ≠ 0xef := by
  refine ⟨?_, ?_, ?_⟩
  · have hlow : byte '0' ≤ digit := by simp_all [isDigit]
    exact UInt8.lt_of_lt_of_le (by decide) hlow
  · rintro rfl
    revert hdigit
    decide
  · rintro rfl
    revert hdigit
    decide

theorem SpellsWith.startsValue {nested : Option (Text → CJson → Prop)}
    {body : Text} {value : CJson} (hvalue : SpellsWith IsBlank nested body value) :
    StartsValue body := by
  cases hvalue with
  | null => exact startsValue_cons _ (by decide)
  | false => exact startsValue_cons _ (by decide)
  | true => exact startsValue_cons _ (by decide)
  | number numeral =>
      obtain ⟨first, more, htext, rfl | hdigit⟩ := numeral.exists_first
      · exact htext ▸ startsValue_cons more (by decide)
      · exact htext ▸ startsValue_cons more (isDigit_startsValue hdigit)
  | string => exact startsValue_cons _ (by decide)
  | array hnested helements =>
      obtain ⟨more, rfl⟩ := helements.exists_first
      exact startsValue_cons _ (by decide)
  | object hnested hmembers =>
      obtain ⟨more, rfl⟩ := hmembers.exists_first
      exact startsValue_cons _ (by decide)

/-- Text that is read by its first byte starts no keyword. -/
theorem parseValueWith_of_first {nested : Option (Parser CJson)}
    {input rest : Text} {value : CJson}
    (hparse : parseByFirstByte nested input = some (value, rest)) :
    parseValueWith nested input = some (value, rest) := by
  obtain ⟨hnull, hfalse, htrue⟩ := not_isPrefixOf_append hparse []
  rw [List.append_nil] at hnull hfalse htrue
  rw [parseValueWith, if_neg hnull, if_neg hfalse, if_neg htrue, hparse]

theorem parseByFirstByte_number (nested : Option (Parser CJson)) {first : UInt8}
    (more : Text) (hfirst : first = byte '-' ∨ isDigit first) :
    parseByFirstByte nested (first :: more) = parseNumber (first :: more) := by
  have hquote : first ≠ byte '"' := by
    rcases hfirst with rfl | hdigit
    · decide
    · rintro rfl
      revert hdigit
      decide
  rw [parseByFirstByte_cons, if_neg hquote, if_pos hfirst]

theorem parseByFirstByte_string (nested : Option (Parser CJson)) (more : Text) :
    parseByFirstByte nested (byte '"' :: more) =
      (parseString (byte '"' :: more)).map
        fun parsed => (.string parsed.1, parsed.2) := by
  rw [parseByFirstByte_cons, if_pos rfl]

theorem parseByFirstByte_array (parse : Parser CJson) (more : Text) :
    parseByFirstByte (some parse) (byte '[' :: more) =
      parseArray parse (byte '[' :: more) := by
  rw [parseByFirstByte_cons, if_neg (by decide), if_neg (by decide),
    Option.bind_some, if_pos rfl]

theorem parseByFirstByte_brace (parse : Parser CJson) (more : Text) :
    parseByFirstByte (some parse) (byte '\x7b' :: more) =
      parseObject parse (byte '\x7b' :: more) := by
  rw [parseByFirstByte_cons, if_neg (by decide), if_neg (by decide),
    Option.bind_some, if_neg (by decide), if_pos rfl]

theorem reads_null (nested : Option (Parser CJson)) (rest : Text) :
    parseValueWith nested (text "null" ++ rest) = some (.null, rest) := by
  rw [parseValueWith, if_pos (isPrefixOf_append (by decide) rest)]
  rfl

theorem reads_false (nested : Option (Parser CJson)) (rest : Text) :
    parseValueWith nested (text "false" ++ rest) = some (.false, rest) := by
  have hfalse : (text "false").isPrefixOf (text "false") := by decide
  rw [parseValueWith,
    if_neg (not_isPrefixOf_other (text "null") hfalse (by decide) rest),
    if_pos (isPrefixOf_append hfalse rest)]
  rfl

theorem reads_true (nested : Option (Parser CJson)) (rest : Text) :
    parseValueWith nested (text "true" ++ rest) = some (.true, rest) := by
  have htrue : (text "true").isPrefixOf (text "true") := by decide
  rw [parseValueWith,
    if_neg (not_isPrefixOf_other (text "null") htrue (by decide) rest),
    if_neg (not_isPrefixOf_other (text "false") htrue (by decide) rest),
    if_pos (isPrefixOf_append htrue rest)]
  rfl

/-- The values are read if those nested in them are. -/
theorem reads_valueWith {parser : Option (Parser CJson)}
    {nested : Option (Text → CJson → Prop)}
    (hnested : ∀ spells, nested = some spells → ∃ parse, parser = some parse ∧
      Reads parse spells ∧ Starts spells (byte ']')) :
    Reads (parseValueWith parser) (SpellsWith IsBlank nested) := by
  intro body value rest hvalue hends
  cases hvalue with
  | null => exact reads_null parser rest
  | false => exact reads_false parser rest
  | true => exact reads_true parser rest
  | number numeral hlength =>
      apply parseValueWith_of_first
      have hnumber := reads_number numeral hlength hends
      obtain ⟨first, more, htext, hfirst⟩ := numeral.exists_first
      rw [htext, List.cons_append] at hnumber ⊢
      rw [parseByFirstByte_number parser _ hfirst, hnumber]
  | string hcontent =>
      apply parseValueWith_of_first
      have hstring := reads_string hcontent rest
      rw [quoted, List.cons_append] at hstring ⊢
      rw [parseByFirstByte_string, hstring]
      rfl
  | array hspells helements =>
      apply parseValueWith_of_first
      obtain ⟨parse, rfl, hreads, hstarts⟩ := hnested _ hspells
      have hparse := helements.parseEnclosed_eq hreads hstarts (by decide) rest
      obtain ⟨more, rfl⟩ := helements.exists_first
      rw [List.cons_append] at hparse ⊢
      rw [parseByFirstByte_array, parseArray, hparse]
      rfl
  | object hspells hmembers =>
      apply parseValueWith_of_first
      obtain ⟨parse, rfl, hreads, hstarts⟩ := hnested _ hspells
      have hparse := hmembers.parseEnclosed_eq (reads_member hreads hstarts)
        (starts_member _) (by decide) rest
      obtain ⟨more, rfl⟩ := hmembers.exists_first
      rw [List.cons_append] at hparse ⊢
      rw [parseByFirstByte_brace, parseObject, hparse]
      rfl

theorem Spells.startsValue {levels : ℕ} {body : Text} {value : CJson}
    (hvalue : Spells IsBlank levels body value) : StartsValue body := by
  cases levels with
  | zero => exact SpellsWith.startsValue hvalue
  | succ levels => exact SpellsWith.startsValue hvalue

theorem reads_value (levels : ℕ) : Reads (parseValue levels) (Spells IsBlank levels) := by
  induction levels with
  | zero => exact reads_valueWith (by simp)
  | succ levels ih =>
      refine reads_valueWith fun spells hspells => ?_
      obtain rfl := Option.some.inj hspells
      refine ⟨_, rfl, ih, fun body value hvalue => ?_⟩
      obtain ⟨first, more, hbody, hfirst, hclosing, -⟩ := hvalue.startsValue
      exact ⟨first, more, hbody, hfirst, hclosing⟩

/-! ## Whole texts -/

/-- A text may start with a byte order mark. -/
def IsByteOrderMark (mark : Text) : Prop := mark = [] ∨ mark = [0xef, 0xbb, 0xbf]

theorem skipUtf8Bom_mark {mark rest : Text} (hmark : IsByteOrderMark mark)
    (hrest : ∃ first more, rest = first :: more ∧ first ≠ 0xef) :
    skipUtf8Bom (mark ++ rest) = rest := by
  obtain ⟨first, more, rfl, hfirst⟩ := hrest
  rcases hmark with rfl | rfl
  · rw [List.nil_append, skipUtf8Bom, if_neg]
    rintro ⟨-, htake⟩
    rw [List.take_succ_cons, List.cons.injEq] at htake
    exact hfirst htake.1
  · rw [skipUtf8Bom, if_pos ⟨by simp, rfl⟩]
    rfl

/-- `cJSON_Parse` accepts a value with blanks in front of it, whatever ends it. -/
theorem cJSONParse_spelled {value mark blank body rest : Text} {item : CJson}
    (hvalue : cString value = mark ++ (blank ++ (body ++ rest)))
    (hmark : IsByteOrderMark mark) (hblank : IsBlank blank)
    (hitem : Spells IsBlank nestingLimit body item) (hrest : Ends rest) :
    cJSONParse value = some item := by
  obtain ⟨first, more, hbody, hfirst, -, hbom⟩ := hitem.startsValue
  have hstart : ∃ first more, blank ++ (body ++ rest) = first :: more ∧
      first ≠ 0xef := by
    cases blank with
    | nil => exact ⟨first, more ++ rest, by simp [hbody], hbom⟩
    | cons space blank =>
        refine ⟨space, _, rfl, ?_⟩
        rcases hblank space List.mem_cons_self with rfl | rfl | rfl | rfl <;>
          decide
  have hread := reads_value nestingLimit body item rest hitem hrest
  unfold cJSONParse
  rw [hvalue, skipUtf8Bom_mark hmark hstart, bufferSkipWhitespace_blank hblank]
  rw [hbody, List.cons_append] at hread ⊢
  rw [bufferSkipWhitespace_start hfirst, hread]
  rfl

end Conveyor.Json
