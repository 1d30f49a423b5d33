import Conveyor.Json.Literals
import Conveyor.JsonHeap.Delete

/-!
# Parsing into memory

The parser of `cJSON.c` with its allocations.  A parser fills an item; it
returns the text that is left, or `none` where the source returns `false`.
-/

namespace Conveyor.JsonHeap

open Conveyor.Separation Conveyor.Json Assertion

/-! ## The parser -/

def parseNumber (item : Ptr) (input : Text) : Prog Block (Option Text) :=
  match strtod ((input.takeWhile isNumberByte).take 63) with
  | none => pure none
  | some (number, consumed) => do
      update item fun content =>
        { content with
          valuedouble := number
          valueint := number.valueint
          type := .number }
      pure (some (input.drop consumed))

/-- The loop through the literal, which writes what it decodes at once; `false`
where the source gives up, with what was written until then. -/
def unescapeInto (output : Ptr) : ℕ → Text → Prog Block Bool
  | _, [] => pure true
  | 0, _ :: _ => pure false
  | fuel + 1, first :: rest =>
      if first ≠ byte '\\' then do
        appendBytes output [first]
        unescapeInto output fuel rest
      else
        match rest with
        | [] => do
            appendBytes output [byte '"']
            pure true
        | escape :: later =>
            if escape = byte 'u' then
              match utf16LiteralToUtf8 (first :: rest) with
              | none => pure false
              | some (encoded, sequenceLength) => do
                  appendBytes output encoded
                  unescapeInto output fuel ((first :: rest).drop sequenceLength)
            else
              match escapeValue escape with
              | none => pure false
              | some value => do
                  appendBytes output [value]
                  unescapeInto output fuel later

def parseString (item : Ptr) : Text → Prog Block (Option Text)
  | [] => pure none
  | first :: rest =>
      if first = byte '"' then
        match splitLiteral rest with
        | none => pure none
        | some (raw, after) => do
            let output ← Prog.malloc (.unfinished (allocationLength raw + 1) [])
            if output = none then pure none
            else if ← unescapeInto output raw.length raw then do
              terminate output
              update item fun content =>
                { content with type := .string, valuestring := output }
              pure (some after)
            else do
              Prog.free output
              pure none
      else pure none

/-- A new item after the current one; the head of the list is returned. -/
def attach (head current newItem : Ptr) : Prog Block Ptr :=
  if head = none then pure newItem
  else do
    update current fun content => { content with next := newItem }
    update newItem fun content => { content with prev := current }
    pure head

/-- The loop of `parse_array` and `parse_object`, which stops in front of the
first byte that is not a comma.  It returns the head of the list and the item it
came to. -/
def parseItems (parseItem : Ptr → Text → Prog Block (Option Text)) :
    ℕ → Ptr → Ptr → Text → Prog Block (Ptr × Ptr × Option Text)
  | 0, head, current, _ => pure (head, current, none)
  | fuel + 1, head, current, input => do
      let newItem ← cJSONNewItem
      if newItem = none then pure (head, current, none)
      else
        let head ← attach head current newItem
        match ← parseItem newItem (bufferSkipWhitespace input) with
        | none => pure (head, newItem, none)
        | some rest =>
            match bufferSkipWhitespace rest with
            | [] => pure (head, newItem, some [])
            | next :: more =>
                if next = byte ',' then
                  parseItems parseItem fuel head newItem more
                else pure (head, newItem, some (next :: more))

/-- The label `success`. -/
def succeed (type : Kind) (item head current : Ptr) : Prog Block Unit := do
  whenOwned true head fun head =>
    update head fun content => { content with prev := current }
  update item fun content => { content with type := type, child := head }

/-- The items and the closing byte behind them; a list that is given up is
deleted. -/
def parseClosed (parseItem : Ptr → Text → Prog Block (Option Text))
    (closing : UInt8) (type : Kind) (item : Ptr) (fuel : ℕ) (input : Text) :
    Prog Block (Option Text) := do
  match ← parseItems parseItem fuel none none input with
  | (head, current, some (last :: after)) =>
      if last = closing then do
        succeed type item head current
        pure (some after)
      else do
        whenOwned true head cJSONDelete
        pure none
  | (head, _, _) => do
      whenOwned true head cJSONDelete
      pure none

/-- At the end of the text, too, there is an item to begin with. -/
def parseEnclosed (parseItem : Ptr → Text → Prog Block (Option Text))
    (opening closing : UInt8) (type : Kind) (item : Ptr) :
    Text → Prog Block (Option Text)
  | [] => pure none
  | first :: rest =>
      if first = opening then
        match bufferSkipWhitespace rest with
        | [] => parseClosed parseItem closing type item 1 []
        | next :: more =>
            if next = closing then do
              succeed type item none none
              pure (some more)
            else parseClosed parseItem closing type item (next :: more).length
              (next :: more)
      else pure none

/-- The name goes from `valuestring` to `string` before the value is parsed. -/
def parseMember (parse : Ptr → Text → Prog Block (Option Text)) (item : Ptr)
    (input : Text) : Prog Block (Option Text) := do
  match ← parseString item input with
  | none => pure none
  | some rest => do
      update item fun content =>
        { content with string := content.valuestring, valuestring := none }
      match bufferSkipWhitespace rest with
      | [] => pure none
      | colon :: more =>
          if colon = byte ':' then parse item (bufferSkipWhitespace more)
          else pure none

def parseArray (parse : Ptr → Text → Prog Block (Option Text)) :
    Ptr → Text → Prog Block (Option Text) :=
  parseEnclosed parse (byte '[') (byte ']') .array

def parseObject (parse : Ptr → Text → Prog Block (Option Text)) :
    Ptr → Text → Prog Block (Option Text) :=
  parseEnclosed (parseMember parse) (byte '\x7b') (byte '\x7d') .object

/-- `item->type = ...` for a keyword of this length. -/
def parseKeyword (change : Item → Item) (length : ℕ) (item : Ptr)
    (input : Text) : Prog Block (Option Text) := do
  update item change
  pure (some (input.drop length))

def parseByFirstByte
    (nested : Option (Ptr → Text → Prog Block (Option Text))) (item : Ptr) :
    Text → Prog Block (Option Text)
  | [] => pure none
  | first :: rest =>
      if first = byte '"' then parseString item (first :: rest)
      else if first = byte '-' ∨ isDigit first then
        parseNumber item (first :: rest)
      else
        match nested with
        | none => pure none
        | some parse =>
            if first = byte '[' then parseArray parse item (first :: rest)
            else if first = byte '\x7b' then
              parseObject parse item (first :: rest)
            else pure none

def parseValueWith (nested : Option (Ptr → Text → Prog Block (Option Text)))
    (item : Ptr) (input : Text) : Prog Block (Option Text) :=
  if (text "null").isPrefixOf input then
    parseKeyword (fun content => { content with type := .null }) 4 item input
  else if (text "false").isPrefixOf input then
    parseKeyword (fun content => { content with type := .false }) 5 item input
  else if (text "true").isPrefixOf input then
    parseKeyword (fun content => { content with type := .true, valueint := 1 })
      4 item input
  else parseByFirstByte nested item input

/-- `parse_value` with this many levels of nesting left. -/
def parseValue : ℕ → Ptr → Text → Prog Block (Option Text)
  | 0 => parseValueWith none
  | levels + 1 => parseValueWith (some (parseValue levels))

/-- `cJSON_ParseWithOpts`, without `return_parse_end`. -/
def cJSONParseWithOpts (value : Text) (requireNullTerminated : Bool) :
    Prog Block Ptr := do
  let item ← cJSONNewItem
  if item = none then pure none
  else
    match ← parseValue nestingLimit item
        (bufferSkipWhitespace (skipUtf8Bom (cString value))) with
    | none => do
        cJSONDelete item
        pure none
    | some rest =>
        if requireNullTerminated ∧ bufferSkipWhitespace rest ≠ [] then do
          cJSONDelete item
          pure none
        else pure item

def cJSONParse (value : Text) : Prog Block Ptr :=
  cJSONParseWithOpts value false

end Conveyor.JsonHeap
