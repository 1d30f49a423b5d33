import Conveyor.Json.Append

/-!
# Numbers with integer values

The decimal of a parsed number may have an integer value however it is written.
`valueint` is then this value, saturated: the text of a number is too short for
its digits to reach past the exponents at which the conversion cuts off.
-/

namespace Conveyor.Json

/-- The decimal is this integer: `± mantissa * 10 ^ exponent = value`. -/
def Decimal.HasValue (decimal : Decimal) (value : ℤ) : Prop :=
  (if decimal.negative then -(decimal.mantissa : ℤ) else decimal.mantissa) *
      10 ^ decimal.exponent.toNat =
    value * 10 ^ (-decimal.exponent).toNat

instance (decimal : Decimal) (value : ℤ) :
    Decidable (decimal.HasValue value) :=
  inferInstanceAs (Decidable (_ = _))

def cJSONIsNumber : CJson → Bool
  | .number _ => true
  | _ => false

/-- `mantissa * 10 ^ exponent = magnitude`. -/
def Decimal.HasMagnitude (decimal : Decimal) (magnitude : ℕ) : Prop :=
  decimal.mantissa * 10 ^ decimal.exponent.toNat =
    magnitude * 10 ^ (-decimal.exponent).toNat

/-- `parse_number` copies at most 63 bytes. -/
def mantissaBound : ℕ := 10 ^ 63

/-! ## The conversion is exact on integers -/

/-- A multiple of the denominator is not rounded. -/
theorem truncated_of_multiple {magnitude denominator scale : ℕ}
    (hdenominator : 0 < denominator) (hscale : 0 < scale) :
    (let quotient := magnitude * denominator * scale / denominator
      let remainder := magnitude * denominator * scale % denominator
      (if 2 * remainder < denominator ∨
          2 * remainder = denominator ∧ quotient % 2 = 0 then quotient
        else quotient + 1) / scale) = magnitude := by
  have hproduct : magnitude * denominator * scale =
      magnitude * scale * denominator := Nat.mul_right_comm ..
  simp only [hproduct, Nat.mul_div_cancel _ hdenominator, Nat.mul_mod_left]
  rw [if_pos (.inl hdenominator), Nat.mul_div_cancel _ hscale]

/-- Too small an exponent leaves no integer but 0. -/
theorem neg_exponent_le {decimal : Decimal} {magnitude : ℕ}
    (hvalue : decimal.HasMagnitude magnitude)
    (hbound : decimal.mantissa < mantissaBound)
    (hmantissa : decimal.mantissa ≠ 0) : -400 ≤ decimal.exponent := by
  by_contra hsmall
  have hexponent : decimal.exponent.toNat = 0 := by omega
  rw [Decimal.HasMagnitude, hexponent, Nat.pow_zero, Nat.mul_one] at hvalue
  have hpositive : 0 < magnitude := by
    rcases Nat.eq_zero_or_pos magnitude with rfl | hpositive
    · rw [Nat.zero_mul] at hvalue
      contradiction
    · exact hpositive
  have hlarge : mantissaBound ≤ decimal.mantissa :=
    calc mantissaBound
        ≤ 10 ^ (-decimal.exponent).toNat :=
          Nat.pow_le_pow_right (by decide) (by omega)
      _ ≤ magnitude * 10 ^ (-decimal.exponent).toNat :=
          Nat.le_mul_of_pos_left _ hpositive
      _ = decimal.mantissa := hvalue.symm
  omega

/-- Too large an exponent saturates. -/
theorem le_of_exponent_lt {decimal : Decimal} {magnitude : ℕ}
    (hvalue : decimal.HasMagnitude magnitude)
    (hmantissa : decimal.mantissa ≠ 0) (hlarge : 400 < decimal.exponent) :
    2 ^ 31 ≤ magnitude := by
  have hexponent : (-decimal.exponent).toNat = 0 := by omega
  rw [Decimal.HasMagnitude, hexponent, Nat.pow_zero, Nat.mul_one] at hvalue
  calc 2 ^ 31
      ≤ 10 ^ 31 := by decide
    _ ≤ 10 ^ decimal.exponent.toNat :=
        Nat.pow_le_pow_right (by decide) (by omega)
    _ ≤ decimal.mantissa * 10 ^ decimal.exponent.toNat :=
        Nat.le_mul_of_pos_left _ (Nat.pos_of_ne_zero hmantissa)
    _ = magnitude := hvalue

theorem truncated_of_hasMagnitude {decimal : Decimal} {magnitude : ℕ}
    (hvalue : decimal.HasMagnitude magnitude)
    (hbound : decimal.mantissa < mantissaBound) :
    decimal.truncated = min magnitude (2 ^ 31) := by
  have hten : 0 < 10 ^ (-decimal.exponent).toNat := Nat.pow_pos (by decide)
  by_cases hmantissa : decimal.mantissa = 0
  · have hzero : magnitude = 0 := by
      rw [Decimal.HasMagnitude, hmantissa, Nat.zero_mul] at hvalue
      exact (Nat.mul_eq_zero.mp hvalue.symm).resolve_right hten.ne'
    rw [Decimal.truncated, if_pos (.inl hmantissa), hzero]
    rfl
  · have hsmall := neg_exponent_le hvalue hbound hmantissa
    rw [Decimal.truncated, if_neg (by omega)]
    by_cases hlarge : 400 < decimal.exponent
    · rw [if_pos hlarge,
        Nat.min_eq_right (le_of_exponent_lt hvalue hmantissa hlarge)]
    · rw [if_neg hlarge]
      unfold Decimal.HasMagnitude at hvalue
      simp only [hvalue, Nat.mul_div_cancel _ hten]
      by_cases hsaturated : 2 ^ 31 ≤ magnitude
      · rw [if_pos hsaturated, Nat.min_eq_right hsaturated]
      · rw [if_neg hsaturated,
          truncated_of_multiple hten (Nat.pow_pos (by decide)),
          Nat.min_eq_left (Nat.le_of_not_le hsaturated)]

theorem Decimal.HasValue.hasMagnitude {decimal : Decimal} {value : ℤ}
    (hvalue : decimal.HasValue value) :
    decimal.HasMagnitude value.natAbs := by
  have habs := congrArg Int.natAbs hvalue
  rw [Int.natAbs_mul, Int.natAbs_mul, Int.natAbs_pow, Int.natAbs_pow] at habs
  cases hnegative : decimal.negative <;>
    simpa [hnegative, HasMagnitude] using habs

/-- The sign of a value is that of its decimal. -/
theorem Decimal.HasValue.eq_natAbs {decimal : Decimal} {value : ℤ}
    (hvalue : decimal.HasValue value) :
    value = if decimal.negative then -(value.natAbs : ℤ) else value.natAbs := by
  have hscaled : (0 : ℤ) < 10 ^ (-decimal.exponent).toNat :=
    Int.pow_pos (by decide)
  have hproduct : (0 : ℤ) ≤ decimal.mantissa * 10 ^ decimal.exponent.toNat :=
    Int.mul_nonneg (Int.natCast_nonneg _) (Int.pow_nonneg (by decide))
  unfold Decimal.HasValue at hvalue
  cases hnegative : decimal.negative with
  | true =>
      have hnonpos : ¬ 0 < value := fun hpositive => by
        have hright := Int.mul_pos hpositive hscaled
        rw [hnegative, if_pos rfl, Int.neg_mul] at hvalue
        omega
      simp only [if_true]
      omega
  | false =>
      have hnonneg : ¬ value < 0 := fun hneg => by
        have hright := Int.mul_neg_of_neg_of_pos hneg hscaled
        rw [hnegative, if_neg Bool.false_ne_true] at hvalue
        omega
      simp only [Bool.false_eq_true, if_false]
      omega

/-- An integer is converted to itself, saturated. -/
theorem valueint_of_hasValue {decimal : Decimal} {value : ℤ}
    (hvalue : decimal.HasValue value)
    (hbound : decimal.mantissa < mantissaBound) :
    decimal.valueint = max (-2 ^ 31) (min value (2 ^ 31 - 1)) := by
  have hsign := hvalue.eq_natAbs
  rw [Decimal.valueint, truncated_of_hasMagnitude hvalue.hasMagnitude hbound]
  split at hsign
  case isTrue hnegative =>
    rw [if_pos hnegative]
    omega
  case isFalse hnegative =>
    rw [if_neg hnegative]
    omega

/-! ## The digits of a parsed number -/

theorem toNat_digit_le {digit : UInt8} (hdigit : isDigit digit = true) :
    (digit - byte '0').toNat ≤ 9 := by
  simp only [isDigit, Bool.and_eq_true, decide_eq_true_eq] at hdigit
  rw [UInt8.toNat_sub_of_le _ _ hdigit.1]
  have hhigh : digit.toNat ≤ (byte '9').toNat :=
    UInt8.le_iff_toNat_le.mp hdigit.2
  have hnine : (byte '9').toNat = (byte '0').toNat + 9 := by decide
  omega

private theorem foldl_digits_lt {digits : Text}
    (hdigits : ∀ digit ∈ digits, isDigit digit = true) (start : ℕ) :
    digits.foldl (fun value digit => 10 * value + (digit - byte '0').toNat)
        start < (start + 1) * 10 ^ digits.length := by
  induction digits generalizing start with
  | nil => simp
  | cons digit digits ih =>
      rw [List.forall_mem_cons] at hdigits
      have hdigit := toNat_digit_le hdigits.1
      refine (ih hdigits.2 _).trans_le ?_
      calc (10 * start + (digit - byte '0').toNat + 1) * 10 ^ digits.length
          ≤ ((start + 1) * 10) * 10 ^ digits.length :=
            Nat.mul_le_mul_right _ (by omega)
        _ = (start + 1) * 10 ^ (digit :: digits).length := by
            rw [List.length_cons, Nat.pow_succ', Nat.mul_assoc]

theorem digitsValue_lt {digits : Text}
    (hdigits : ∀ digit ∈ digits, isDigit digit = true) :
    digitsValue digits < 10 ^ digits.length := by
  simpa [digitsValue] using foldl_digits_lt hdigits 0

theorem length_splitSign_le (number : Text) :
    (splitSign number).2.length ≤ number.length := by
  cases number with
  | nil => rfl
  | cons first rest =>
      rw [splitSign]
      by_cases hminus : first = byte '-'
      · simp [hminus]
      · rw [if_neg hminus]
        by_cases hplus : first = byte '+' <;> simp [hplus]

/-- The fraction is made of digits that stand in the text. -/
theorem splitFraction_spec (number : Text) :
    (∀ digit ∈ (splitFraction number).1, isDigit digit = true) ∧
      (splitFraction number).1.length ≤ number.length := by
  cases number with
  | nil => simp [splitFraction]
  | cons first rest =>
      by_cases hpoint : first = byte '.'
      · rw [splitFraction, if_pos hpoint]
        refine ⟨fun digit hdigit => List.mem_takeWhile_imp hdigit, ?_⟩
        exact (List.takeWhile_sublist _).length_le.trans (Nat.le_succ _)
      · simp [splitFraction, hpoint]

theorem strtod_mantissa_lt {number : Text} {decimal : Decimal} {consumed : ℕ}
    (hstrtod : strtod number = some (decimal, consumed)) :
    decimal.mantissa < 10 ^ number.length := by
  unfold strtod at hstrtod
  simp only [Option.ite_none_left_eq_some, Option.some.injEq,
    Prod.mk.injEq] at hstrtod
  obtain ⟨-, rfl, -⟩ := hstrtod
  obtain ⟨hfraction, hlength⟩ :=
    splitFraction_spec ((splitSign number).2.dropWhile isDigit)
  have hdigits : ∀ digit ∈ (splitSign number).2.takeWhile isDigit ++
      (splitFraction ((splitSign number).2.dropWhile isDigit)).1,
      isDigit digit = true := by
    intro digit hdigit
    rcases List.mem_append.mp hdigit with hwhole | hrest
    · exact List.mem_takeWhile_imp hwhole
    · exact hfraction digit hrest
  refine (digitsValue_lt hdigits).trans_le (Nat.pow_le_pow_right (by decide) ?_)
  have hsplit := congrArg List.length
    (List.takeWhile_append_dropWhile (p := isDigit) (l := (splitSign number).2))
  have hunsigned := length_splitSign_le number
  rw [List.length_append] at hsplit ⊢
  omega

/-! ## The numbers of a parsed tree -/

theorem parseNumber_mantissa_lt {input rest : Text} {decimal : Decimal}
    (hparse : parseNumber input = some (.number decimal, rest)) :
    decimal.mantissa < mantissaBound := by
  unfold parseNumber at hparse
  cases hstrtod : strtod ((input.takeWhile isNumberByte).take 63) with
  | none => simp [hstrtod] at hparse
  | some parsed =>
      simp only [hstrtod, Option.some.injEq, Prod.mk.injEq,
        CJson.number.injEq] at hparse
      obtain ⟨rfl, -⟩ := hparse
      calc parsed.1.mantissa
          < 10 ^ ((input.takeWhile isNumberByte).take 63).length :=
            strtod_mantissa_lt hstrtod
        _ ≤ mantissaBound :=
            Nat.pow_le_pow_right (by decide) (List.length_take_le _ _)

/-- A value that is a number was read by `parse_number`. -/
theorem parseValueWith_number {nested : Option (Parser CJson)}
    {input rest : Text} {decimal : Decimal}
    (hparse : parseValueWith nested input = some (.number decimal, rest)) :
    parseNumber input = some (.number decimal, rest) := by
  unfold parseValueWith at hparse
  split at hparse
  · simp at hparse
  · split at hparse
    · simp at hparse
    · split at hparse
      · simp at hparse
      · cases input with
        | nil => simp [parseByFirstByte] at hparse
        | cons first later =>
            rw [parseByFirstByte_cons] at hparse
            by_cases hquote : first = byte '"'
            · simp [hquote] at hparse
            · rw [if_neg hquote] at hparse
              by_cases hnumber : first = byte '-' ∨ isDigit first
              · rwa [if_pos hnumber] at hparse
              · rw [if_neg hnumber, Option.bind_eq_some_iff] at hparse
                obtain ⟨parse, -, hparse⟩ := hparse
                split at hparse
                · simp [parseArray] at hparse
                · split at hparse <;> simp [parseObject] at hparse

theorem parseValue_mantissa_lt {levels : ℕ} {input rest : Text}
    {decimal : Decimal}
    (hparse : parseValue levels input = some (.number decimal, rest)) :
    decimal.mantissa < mantissaBound := by
  cases levels with
  | zero => exact parseNumber_mantissa_lt (parseValueWith_number hparse)
  | succ levels => exact parseNumber_mantissa_lt (parseValueWith_number hparse)

/-- Every item of the loop was parsed as one. -/
theorem mem_of_parseItems {Item : Type} {parseItem : Parser Item} {fuel : ℕ}
    {input rest : Text} {items : List Item}
    (hparse : parseItems parseItem fuel input = some (items, rest)) :
    ∀ item ∈ items, ∃ start after, parseItem start = some (item, after) := by
  fun_induction parseItems parseItem fuel input generalizing items rest with
  | case1 | case2 | case4 => simp at hparse
  | case3 fuel input item after hitem hend =>
      simp only [Option.some.injEq, Prod.mk.injEq] at hparse
      obtain ⟨rfl, -⟩ := hparse
      simpa using ⟨_, _, hitem⟩
  | case5 fuel input item after hitem more others final hloop hnext ih =>
      simp only [Option.some.injEq, Prod.mk.injEq] at hparse
      obtain ⟨rfl, -⟩ := hparse
      exact List.forall_mem_cons.mpr ⟨⟨_, _, hitem⟩, ih hloop⟩
  | case6 fuel input item after hitem next more hnext hcomma =>
      simp only [Option.some.injEq, Prod.mk.injEq] at hparse
      obtain ⟨rfl, -⟩ := hparse
      simpa using ⟨_, _, hitem⟩

theorem mem_of_parseEnclosed {Item : Type} {parseItem : Parser Item}
    {opening closing : UInt8} {input rest : Text} {items : List Item}
    (hparse : parseEnclosed parseItem opening closing input =
      some (items, rest)) :
    ∀ item ∈ items, ∃ start after, parseItem start = some (item, after) := by
  cases input with
  | nil => simp [parseEnclosed] at hparse
  | cons first inner =>
      rw [parseEnclosed] at hparse
      split at hparse
      · cases hskip : bufferSkipWhitespace inner with
        | nil => simp [hskip] at hparse
        | cons next later =>
            simp only [hskip] at hparse
            split at hparse
            · simp only [Option.some.injEq, Prod.mk.injEq] at hparse
              obtain ⟨rfl, -⟩ := hparse
              exact fun _ hnone => absurd hnone (List.not_mem_nil)
            · split at hparse
              · rename_i hitems
                split at hparse
                · simp only [Option.some.injEq, Prod.mk.injEq] at hparse
                  obtain ⟨rfl, -⟩ := hparse
                  exact mem_of_parseItems hitems
                · simp at hparse
              · simp at hparse
      · simp at hparse

/-- The value of a member was parsed as one. -/
theorem parseMember_value {parse : Parser CJson} {input rest : Text}
    {member : Text × CJson}
    (hparse : parseMember parse input = some (member, rest)) :
    ∃ start after, parse start = some (member.2, after) := by
  unfold parseMember at hparse
  cases hname : parseString input with
  | none => simp [hname] at hparse
  | some parsed =>
      cases hskip : bufferSkipWhitespace parsed.2 with
      | nil => simp [hname, hskip] at hparse
      | cons colon more =>
          simp only [hname, hskip] at hparse
          split at hparse
          · cases hvalue : parse (bufferSkipWhitespace more) with
            | none => simp [hvalue] at hparse
            | some found =>
                simp only [hvalue, Option.some.injEq, Prod.mk.injEq] at hparse
                obtain ⟨rfl, rfl⟩ := hparse
                exact ⟨_, _, hvalue⟩
          · simp at hparse

/-- A value that is an object was read by `parse_object`, one level down. -/
theorem parseObject_of_parseValue {levels : ℕ} {input rest : Text}
    {members : List (Text × CJson)}
    (hparse : parseValue levels input = some (.object members, rest)) :
    ∃ nested, parseObject (parseValue nested) input =
      some (.object members, rest) := by
  cases input with
  | nil =>
      rw [(stableBefore_parseValue levels).nil] at hparse
      simp at hparse
  | cons first later =>
      cases levels with
      | zero =>
          obtain ⟨-, parse, hnone, -⟩ :=
            parseByFirstByte_object (parseValueWith_object hparse)
          simp at hnone
      | succ nested =>
          obtain ⟨-, parse, hparser, hfound⟩ :=
            parseByFirstByte_object (parseValueWith_object hparse)
          obtain rfl : parseValue nested = parse := Option.some.inj hparser
          exact ⟨nested, hfound⟩

/-- The members of a parsed object were parsed as values. -/
theorem parseValue_members {levels : ℕ} {input rest : Text}
    {members : List (Text × CJson)}
    (hparse : parseValue levels input = some (.object members, rest)) :
    ∀ member ∈ members, ∃ nested start after,
      parseValue nested start = some (member.2, after) := by
  obtain ⟨nested, hfound⟩ := parseObject_of_parseValue hparse
  obtain ⟨found, henclosed, hitem⟩ := Option.map_eq_some_iff.mp hfound
  simp only [Prod.mk.injEq, CJson.object.injEq] at hitem
  obtain ⟨rfl, -⟩ := hitem
  intro member hmember
  obtain ⟨start, after, hparsed⟩ :=
    mem_of_parseEnclosed henclosed member hmember
  obtain ⟨valueStart, valueAfter, hvalue⟩ := parseMember_value hparsed
  exact ⟨nested, valueStart, valueAfter, hvalue⟩

/-- The numbers found by name in a parsed tree have at most as many digits as
`parse_number` copies. -/
theorem member_mantissa_lt {data name : Text} {root : CJson}
    {decimal : Decimal} (hparse : cJSONParse data = some root)
    (hitem : cJSONGetObjectItem root name = some (.number decimal)) :
    decimal.mantissa < mantissaBound := by
  cases root with
  | object members =>
      obtain ⟨⟨value, rest⟩, hvalue, hroot⟩ := Option.map_eq_some_iff.mp hparse
      obtain rfl : value = .object members := hroot
      obtain ⟨member, hfind, hnumber⟩ := Option.map_eq_some_iff.mp hitem
      obtain ⟨nested, start, after, hmember⟩ :=
        parseValue_members hvalue member (List.mem_of_find?_eq_some hfind)
      rw [hnumber] at hmember
      exact parseValue_mantissa_lt hmember
  | _ => simp [cJSONGetObjectItem] at hitem

end Conveyor.Json
