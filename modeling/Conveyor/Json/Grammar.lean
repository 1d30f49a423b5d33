import Conveyor.Json.Parse

/-!
# The grammar of JSON texts

What it means for a text to be written as JSON and which value it then is,
without reference to a parser.  The grammar is the strict one: no leading zeros,
no control characters in strings, no commas without an item.  Values nest at
most so many levels deep.
-/

namespace Conveyor.Json

/-- Spaces, tabs and line ends. -/
def IsBlank (blank : Text) : Prop :=
  ∀ character ∈ blank, character = byte ' ' ∨ character = byte '\t' ∨
    character = byte '\n' ∨ character = byte '\r'

/-! ## Numbers -/

/-- The part of a number behind `e` or `E`. -/
structure Exponent where
  marker : UInt8
  sign : Text
  digits : Text
  marked : marker = byte 'e' ∨ marker = byte 'E'
  signed : sign = [] ∨ sign = [byte '+'] ∨ sign = [byte '-']
  nonempty : digits ≠ []
  isDigits : ∀ digit ∈ digits, isDigit digit

/-- A number as it is written. -/
structure Numeral where
  negative : Bool
  whole : Text
  fraction : Text
  exponent : Option Exponent
  nonempty : whole ≠ []
  isDigits : ∀ digit ∈ whole ++ fraction, isDigit digit
  noLeadingZero : whole.head? = some (byte '0') → whole = [byte '0']

def Exponent.text (exponent : Exponent) : Text :=
  exponent.marker :: (exponent.sign ++ exponent.digits)

def Exponent.value (exponent : Exponent) : ℤ :=
  if exponent.sign = [byte '-'] then -digitsValue exponent.digits
  else digitsValue exponent.digits

namespace Numeral

def signText (numeral : Numeral) : Text :=
  if numeral.negative then [byte '-'] else []

def fractionText (numeral : Numeral) : Text :=
  if numeral.fraction = [] then [] else byte '.' :: numeral.fraction

def exponentText (numeral : Numeral) : Text :=
  (numeral.exponent.map Exponent.text).getD []

def text (numeral : Numeral) : Text :=
  numeral.signText ++
    (numeral.whole ++ (numeral.fractionText ++ numeral.exponentText))

def decimal (numeral : Numeral) : Decimal where
  negative := numeral.negative
  mantissa := digitsValue (numeral.whole ++ numeral.fraction)
  exponent := (numeral.exponent.map Exponent.value).getD 0 -
    numeral.fraction.length

end Numeral

/-! ## Strings -/

/-- Four hexadecimal digits of a code. -/
structure HexCode (digits : Text) (code : ℕ) : Prop where
  length : digits.length = 4
  isHex : ∀ digit ∈ digits, (hexDigit digit).isSome
  value : parseHex4 digits = code

/-- A raw literal and the string it stands for. -/
inductive Escapes : Text → Text → Prop
  | nil : Escapes [] []
  | plain {character raw content} (hprintable : 32 ≤ character)
      (hquote : character ≠ byte '"') (hbackslash : character ≠ byte '\\')
      (hrest : Escapes raw content) :
      Escapes (character :: raw) (character :: content)
  | short {escape value raw content} (hvalue : escapeValue escape = some value)
      (hrest : Escapes raw content) :
      Escapes (byte '\\' :: escape :: raw) (value :: content)
  | unicode {digits code raw content} (hcode : HexCode digits code)
      (hsurrogate : code < 0xd800 ∨ 0xdfff < code)
      (hrest : Escapes raw content) :
      Escapes (byte '\\' :: byte 'u' :: (digits ++ raw)) (utf8 code ++ content)
  | pair {digits code lowDigits lowCode raw content}
      (hhigh : HexCode digits code) (hlow : HexCode lowDigits lowCode)
      (hhighRange : 0xd800 ≤ code ∧ code ≤ 0xdbff)
      (hlowRange : 0xdc00 ≤ lowCode ∧ lowCode ≤ 0xdfff)
      (hrest : Escapes raw content) :
      Escapes (byte '\\' :: byte 'u' :: (digits ++
          byte '\\' :: byte 'u' :: (lowDigits ++ raw)))
        (utf8 (0x10000 + code % 0x400 * 0x400 + lowCode % 0x400) ++ content)

/-- A literal between its quotes. -/
def quoted (raw : Text) : Text := byte '"' :: (raw ++ [byte '"'])

/-! ## Values -/

section

-- `gap` says what may stand between two tokens.
variable (gap : Text → Prop)

/-- Items with commas between them and gaps around them. -/
inductive Separated {Item : Type} (spells : Text → Item → Prop) :
    Text → List Item → Prop
  | one {before after body item} (hbefore : gap before)
      (hafter : gap after) (hitem : spells body item) :
      Separated spells (before ++ (body ++ after)) [item]
  | more {before after body item rest items} (hbefore : gap before)
      (hafter : gap after) (hitem : spells body item)
      (hrest : Separated spells rest items) :
      Separated spells (before ++ (body ++ (after ++ byte ',' :: rest)))
        (item :: items)

/-- A name, a colon and a value. -/
inductive SpellsMember (spells : Text → CJson → Prop) :
    Text → Text × CJson → Prop
  | intro {raw name before after body value} (hname : Escapes raw name)
      (hbefore : gap before) (hafter : gap after)
      (hvalue : spells body value) :
      SpellsMember spells
        (quoted raw ++ (before ++ byte ':' :: (after ++ body))) (name, value)

/-- Items between brackets or braces. -/
inductive Enclosed {Item : Type} (spells : Text → Item → Prop)
    (opening closing : UInt8) : Text → List Item → Prop
  | empty {blank} (hblank : gap blank) :
      Enclosed spells opening closing (opening :: (blank ++ [closing])) []
  | items {body items} (hitems : Separated gap spells body items) :
      Enclosed spells opening closing (opening :: (body ++ [closing])) items

/-- A text and its value, given the values that may be nested in it, if any. -/
inductive SpellsWith (nested : Option (Text → CJson → Prop)) :
    Text → CJson → Prop
  | null : SpellsWith nested (text "null") .null
  | false : SpellsWith nested (text "false") .false
  | true : SpellsWith nested (text "true") .true
  | number (numeral : Numeral) (hlength : numeral.text.length ≤ 63) :
      SpellsWith nested numeral.text (.number numeral.decimal)
  | string {raw content} (hcontent : Escapes raw content) :
      SpellsWith nested (quoted raw) (.string content)
  | array {spells body elements} (hnested : nested = some spells)
      (helements : Enclosed gap spells (byte '[') (byte ']') body elements) :
      SpellsWith nested body (.array elements)
  | object {spells body members} (hnested : nested = some spells)
      (hmembers : Enclosed gap (SpellsMember gap spells) (byte '\x7b')
        (byte '\x7d') body members) :
      SpellsWith nested body (.object members)

/-- A text and its value, which nests at most this many levels deep. -/
def Spells : ℕ → Text → CJson → Prop
  | 0 => SpellsWith gap none
  | levels + 1 => SpellsWith gap (some (Spells levels))

end

end Conveyor.Json
