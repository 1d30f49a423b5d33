import Conveyor.Json.Number

/-!
# The JSON parser

What the firmware uses of `cJSON.c`: `cJSON_Parse` and `cJSON_GetObjectItem`.
A `parse_buffer` is the text from its offset on.  Its end stands for the
terminating NUL, which belongs to no token: `buffer_skip_whitespace` runs over
it and steps back.  Allocations succeed.
-/

namespace Conveyor.Json

/-- A `cJSON` node with what is read of it. -/
inductive CJson
  | null
  | false
  | true
  | number (value : Decimal)
  | string (valuestring : Text)
  | array (elements : List CJson)
  | object (members : List (Text × CJson))

/-- A parser takes a value off a text; `none` is a parse failure. -/
abbrev Parser (Item : Type) := Text → Option (Item × Text)

def bufferSkipWhitespace (input : Text) : Text := input.dropWhile (· ≤ 32)

def skipUtf8Bom (input : Text) : Text :=
  if 4 ≤ input.length ∧ input.take 3 = [0xef, 0xbb, 0xbf] then input.drop 3
  else input

/-! ## Numbers and strings -/

def parseNumber : Parser CJson := fun input =>
  match strtod ((input.takeWhile isNumberByte).take 63) with
  | none => none
  | some (decimal, consumed) => some (.number decimal, input.drop consumed)

def hexDigit (digit : UInt8) : Option ℕ :=
  if byte '0' ≤ digit ∧ digit ≤ byte '9' then some (digit - byte '0').toNat
  else if byte 'A' ≤ digit ∧ digit ≤ byte 'F' then
    some (10 + (digit - byte 'A').toNat)
  else if byte 'a' ≤ digit ∧ digit ≤ byte 'f' then
    some (10 + (digit - byte 'a').toNat)
  else none

/-- `parse_hex4`: 0 unless all four digits are valid. -/
def parseHex4 (digits : Text) : ℕ :=
  ((digits.take 4).foldl
    (fun value digit => do return 16 * (← value) + (← hexDigit digit))
    (some 0)).getD 0

/-- The UTF-8 encoding of a code point. -/
def utf8 (codepoint : ℕ) : Text :=
  let continuation (bits : ℕ) : UInt8 := (0x80 + codepoint / bits % 64).toUInt8
  if codepoint < 0x80 then [codepoint.toUInt8]
  else if codepoint < 0x800 then
    [(0xc0 + codepoint / 0x40).toUInt8, continuation 1]
  else if codepoint < 0x10000 then
    [(0xe0 + codepoint / 0x1000).toUInt8, continuation 0x40, continuation 1]
  else
    [(0xf0 + codepoint / 0x40000).toUInt8, continuation 0x1000,
      continuation 0x40, continuation 1]

/-- `utf16_literal_to_utf8`: the encoded bytes and the length of the literal,
which is one sequence or a surrogate pair. -/
def utf16LiteralToUtf8 (input : Text) : Option (Text × ℕ) :=
  if input.length < 6 then none
  else
    let firstCode := parseHex4 (input.drop 2)
    if 0xdc00 ≤ firstCode ∧ firstCode ≤ 0xdfff then none
    else if 0xd800 ≤ firstCode ∧ firstCode ≤ 0xdbff then
      let second := input.drop 6
      if second.length < 6 then none
      else if second.take 2 ≠ [byte '\\', byte 'u'] then none
      else
        let secondCode := parseHex4 (second.drop 2)
        if secondCode < 0xdc00 ∨ 0xdfff < secondCode then none
        else some (utf8 (0x10000 + firstCode % 0x400 * 0x400 +
          secondCode % 0x400), 12)
    else some (utf8 firstCode, 6)

/-- The raw literal up to the closing quote and the text after that. -/
def splitLiteral : Parser Text
  | [] => none
  | first :: rest =>
      if first = byte '"' then some ([], rest)
      else if first = byte '\\' then
        match rest with
        | [] => none
        | escaped :: later =>
            match splitLiteral later with
            | none => none
            | some (raw, after) => some (first :: escaped :: raw, after)
      else
        match splitLiteral rest with
        | none => none
        | some (raw, after) => some (first :: raw, after)

/-- What an escape sequence other than `\u` stands for. -/
def escapeValue (escape : UInt8) : Option UInt8 :=
  if escape = byte 'b' then some 8
  else if escape = byte 'f' then some 12
  else if escape = byte 'n' then some 10
  else if escape = byte 'r' then some 13
  else if escape = byte 't' then some 9
  else if escape = byte '"' ∨ escape = byte '\\' ∨ escape = byte '/' then
    some escape
  else none

/-- The loop through the literal.  A `\u` sequence may end inside another
escape sequence; a backslash left over at the end takes the closing quote. -/
def unescape : ℕ → Text → Option Text
  | _, [] => some []
  | 0, _ :: _ => none
  | fuel + 1, first :: rest =>
      if first ≠ byte '\\' then (unescape fuel rest).map (first :: ·)
      else
        match rest with
        | [] => some [byte '"']
        | escape :: later =>
            if escape = byte 'u' then
              match utf16LiteralToUtf8 (first :: rest) with
              | none => none
              | some (encoded, sequenceLength) =>
                  (unescape fuel ((first :: rest).drop sequenceLength)).map
                    (encoded ++ ·)
            else
              match escapeValue escape with
              | none => none
              | some value => (unescape fuel later).map (value :: ·)

def parseString : Parser Text
  | [] => none
  | first :: rest =>
      if first = byte '"' then
        match splitLiteral rest with
        | none => none
        | some (raw, after) => (unescape raw.length raw).map (·, after)
      else none

/-! ## Values -/

/-- The loop over the items of an array or object, which stops in front of the
first byte that is not a comma; `fuel` bounds the number of items. -/
def parseItems {Item : Type} (parseItem : Parser Item) :
    ℕ → Parser (List Item)
  | 0, _ => none
  | fuel + 1, input =>
      match parseItem (bufferSkipWhitespace input) with
      | none => none
      | some (item, rest) =>
          match bufferSkipWhitespace rest with
          | [] => some ([item], [])
          | next :: more =>
              if next = byte ',' then
                match parseItems parseItem fuel more with
                | none => none
                | some (items, after) => some (item :: items, after)
              else some ([item], next :: more)

/-- What `parse_array` and `parse_object` share: the items between an opening
and a closing byte. -/
def parseEnclosed {Item : Type} (parseItem : Parser Item)
    (opening closing : UInt8) : Parser (List Item)
  | [] => none
  | first :: rest =>
      if first = opening then
        match bufferSkipWhitespace rest with
        | [] => none
        | next :: more =>
            if next = closing then some ([], more)
            else
              match parseItems parseItem (next :: more).length
                  (next :: more) with
              | some (items, last :: after) =>
                  if last = closing then some (items, after) else none
              | _ => none
      else none

/-- A name, a colon and a value. -/
def parseMember (parse : Parser CJson) : Parser (Text × CJson) := fun input =>
  match parseString input with
  | none => none
  | some (name, rest) =>
      match bufferSkipWhitespace rest with
      | [] => none
      | colon :: more =>
          if colon = byte ':' then
            match parse (bufferSkipWhitespace more) with
            | none => none
            | some (value, after) => some ((name, value), after)
          else none

def parseArray (parse : Parser CJson) : Parser CJson := fun input =>
  (parseEnclosed parse (byte '[') (byte ']') input).map
    fun parsed => (.array parsed.1, parsed.2)

def parseObject (parse : Parser CJson) : Parser CJson := fun input =>
  (parseEnclosed (parseMember parse) (byte '\x7b') (byte '\x7d') input).map
    fun parsed => (.object parsed.1, parsed.2)

/-- The values told apart by their first byte; there is a parser for nested
values unless the nesting limit is reached. -/
def parseByFirstByte (nested : Option (Parser CJson)) : Parser CJson
  | [] => none
  | first :: rest =>
      if first = byte '"' then
        (parseString (first :: rest)).map
          fun parsed => (.string parsed.1, parsed.2)
      else if first = byte '-' ∨ isDigit first then parseNumber (first :: rest)
      else
        match nested with
        | none => none
        | some parse =>
            if first = byte '[' then parseArray parse (first :: rest)
            else if first = byte '\x7b' then parseObject parse (first :: rest)
            else none

/-- `parse_value`: the keywords are tried first. -/
def parseValueWith (nested : Option (Parser CJson)) : Parser CJson :=
  fun input =>
    if (text "null").isPrefixOf input then some (.null, input.drop 4)
    else if (text "false").isPrefixOf input then some (.false, input.drop 5)
    else if (text "true").isPrefixOf input then some (.true, input.drop 4)
    else parseByFirstByte nested input

/-- `parse_value` with this many levels of nesting left. -/
def parseValue : ℕ → Parser CJson
  | 0 => parseValueWith none
  | levels + 1 => parseValueWith (some (parseValue levels))

/-- `CJSON_NESTING_LIMIT`. -/
def nestingLimit : ℕ := 1000

def cJSONParse (value : Text) : Option CJson :=
  (parseValue nestingLimit
    (bufferSkipWhitespace (skipUtf8Bom (cString value)))).map Prod.fst

/-! ## Reading a tree -/

def tolower (character : UInt8) : UInt8 :=
  if byte 'A' ≤ character ∧ character ≤ byte 'Z' then character + 32
  else character

/-- `case_insensitive_strcmp` finds no difference. -/
def sameName (left right : Text) : Bool :=
  (cString left).map tolower = (cString right).map tolower

/-- The first member with the name; only objects have named children. -/
def cJSONGetObjectItem : CJson → Text → Option CJson
  | .object members, name =>
      (members.find? fun member => sameName name member.1).map Prod.snd
  | _, _ => none

def cJSONIsObject : CJson → Bool
  | .object _ => true
  | _ => false

/-- `valueint`, which stays 0 in a node that is neither a number nor true. -/
def CJson.valueint : CJson → ℤ
  | .number value => value.valueint
  | .true => 1
  | _ => 0

theorem CJson.valueint_range (item : CJson) :
    -2 ^ 31 ≤ item.valueint ∧ item.valueint < 2 ^ 31 := by
  cases item with
  | number value => exact value.valueint_range
  | true => simp [valueint]
  | _ => simp [valueint]

/-- The `valueint` of the first member with the name. -/
def memberValueint (root : CJson) (name : String) : Option ℤ :=
  (cJSONGetObjectItem root (text name)).map CJson.valueint

theorem memberValueint_range {root : CJson} {name : String} {value : ℤ}
    (hvalue : memberValueint root name = some value) :
    -2 ^ 31 ≤ value ∧ value < 2 ^ 31 := by
  obtain ⟨item, -, rfl⟩ := Option.map_eq_some_iff.mp hvalue
  exact item.valueint_range

end Conveyor.Json
