import Conveyor.Json.Parse

/-!
# Text after a value

The parser reads the first value of a text.  Nothing that follows a closed
object can change it; only a number at the very end of a text goes on into what
is appended.
-/

namespace Conveyor.Json

variable {Item : Type}

/-- What follows a parsed item does not matter. -/
def Stable (parse : Parser Item) : Prop :=
  ∀ input item rest more, parse input = some (item, rest) →
    parse (input ++ more) = some (item, rest ++ more)

/-- What follows does not matter as long as some byte after the item cannot
belong to a number. -/
structure StableBefore (parse : Parser Item) : Prop where
  nil : parse [] = none
  append : ∀ input item rest more, parse input = some (item, rest) →
    (∃ next ∈ rest, isNumberByte next = false) →
      parse (input ++ more) = some (item, rest ++ more)

theorem bufferSkipWhitespace_append {input rest : Text} {next : UInt8}
    (hskip : bufferSkipWhitespace input = next :: rest) (more : Text) :
    bufferSkipWhitespace (input ++ more) = next :: (rest ++ more) := by
  unfold bufferSkipWhitespace at hskip ⊢
  rw [List.dropWhile_append, hskip]
  rfl

theorem mem_of_bufferSkipWhitespace {input rest : Text} {next : UInt8}
    (hskip : bufferSkipWhitespace input = next :: rest) : next ∈ input :=
  (List.dropWhile_sublist _).subset (hskip ▸ List.mem_cons_self)

/-! ## Numbers and strings -/

theorem strtod_consumed_le {number : Text} {decimal : Decimal} {consumed : ℕ}
    (hstrtod : strtod number = some (decimal, consumed)) :
    consumed ≤ number.length := by
  unfold strtod at hstrtod
  simp only [Option.ite_none_left_eq_some, Option.some.injEq,
    Prod.mk.injEq] at hstrtod
  exact hstrtod.2.2 ▸ Nat.sub_le _ _

theorem stableBefore_parseNumber : StableBefore parseNumber where
  nil := rfl
  append := by
    rintro input item rest more hparse ⟨next, hnext, hother⟩
    unfold parseNumber at hparse ⊢
    cases hstrtod : strtod ((input.takeWhile isNumberByte).take 63) with
    | none => simp [hstrtod] at hparse
    | some parsed =>
        obtain ⟨decimal, consumed⟩ := parsed
        simp only [hstrtod, Option.some.injEq, Prod.mk.injEq] at hparse
        obtain ⟨rfl, rfl⟩ := hparse
        have hle : consumed ≤ input.length :=
          calc consumed
              ≤ ((input.takeWhile isNumberByte).take 63).length :=
                strtod_consumed_le hstrtod
            _ ≤ (input.takeWhile isNumberByte).length :=
                List.length_take_le' ..
            _ ≤ input.length := (List.takeWhile_sublist _).length_le
        have hends : (input.takeWhile isNumberByte).length ≠ input.length := by
          intro hlength
          have hall := List.takeWhile_eq_self_iff.mp
            ((List.takeWhile_sublist _).eq_of_length hlength)
          have hnumber := hall next (List.mem_of_mem_drop hnext)
          rw [hother] at hnumber
          exact absurd hnumber (by decide)
        rw [List.takeWhile_append, if_neg hends, hstrtod]
        simp only [List.drop_append_of_le_length hle]

theorem splitLiteral_quote (rest : Text) :
    splitLiteral (byte '"' :: rest) = some ([], rest) := by
  cases rest <;> rfl

theorem splitLiteral_escape (escaped : UInt8) (later : Text) :
    splitLiteral (byte '\\' :: escaped :: later) =
      (splitLiteral later).map fun parsed =>
        (byte '\\' :: escaped :: parsed.1, parsed.2) := by
  cases hlater : splitLiteral later <;>
    simp [splitLiteral, hlater, show byte '\\' ≠ byte '"' by decide]

theorem splitLiteral_plain {first : UInt8} (hquote : first ≠ byte '"')
    (hescape : first ≠ byte '\\') (rest : Text) :
    splitLiteral (first :: rest) =
      (splitLiteral rest).map fun parsed =>
        (first :: parsed.1, parsed.2) := by
  cases hrest : splitLiteral rest <;>
    cases rest <;> simp_all [splitLiteral]

theorem stable_splitLiteral : Stable splitLiteral := by
  intro input raw rest more hsplit
  fun_induction splitLiteral input generalizing raw rest with
  | case1 | case3 | case4 | case6 => simp at hsplit
  | case2 later =>
      simp only [Option.some.injEq, Prod.mk.injEq] at hsplit
      obtain ⟨rfl, rfl⟩ := hsplit
      exact splitLiteral_quote _
  | case5 escaped later inner after hlater hescape ih =>
      simp only [Option.some.injEq, Prod.mk.injEq] at hsplit
      obtain ⟨rfl, rfl⟩ := hsplit
      rw [List.cons_append, List.cons_append, splitLiteral_escape,
        ih inner after hlater]
      rfl
  | case7 first later hquote hescape inner after hlater ih =>
      simp only [Option.some.injEq, Prod.mk.injEq] at hsplit
      obtain ⟨rfl, rfl⟩ := hsplit
      rw [List.cons_append, splitLiteral_plain hquote hescape,
        ih inner after hlater]
      rfl

theorem stable_parseString : Stable parseString := by
  intro input item rest more hparse
  cases input with
  | nil => simp [parseString] at hparse
  | cons first later =>
      rw [parseString] at hparse
      rw [List.cons_append, parseString]
      by_cases hquote : first = byte '"'
      · rw [if_pos hquote] at hparse ⊢
        cases hsplit : splitLiteral later with
        | none => simp [hsplit] at hparse
        | some parsed =>
            obtain ⟨raw, after⟩ := parsed
            rw [stable_splitLiteral later raw after more hsplit]
            simp only [hsplit, Option.map_eq_some_iff, Prod.mk.injEq] at hparse ⊢
            obtain ⟨value, hvalue, rfl, rfl⟩ := hparse
            exact ⟨value, hvalue, rfl, rfl⟩
      · simp [hquote] at hparse

/-! ## Members, arrays and objects -/

/-- A byte that separates or closes cannot belong to a number. -/
theorem exists_not_number {input rest : Text} {next : UInt8}
    (hskip : bufferSkipWhitespace input = next :: rest)
    (hnext : isNumberByte next = false) :
    ∃ other ∈ input, isNumberByte other = false :=
  ⟨next, mem_of_bufferSkipWhitespace hskip, hnext⟩

theorem StableBefore.member {parse : Parser CJson} (hparse : StableBefore parse) :
    StableBefore (parseMember parse) where
  nil := rfl
  append := by
    intro input item rest more hmember hother
    unfold parseMember at hmember ⊢
    cases hname : parseString input with
    | none => simp [hname] at hmember
    | some named =>
        obtain ⟨name, afterName⟩ := named
        rw [stable_parseString input name afterName more hname]
        cases hskip : bufferSkipWhitespace afterName with
        | nil => simp [hname, hskip] at hmember
        | cons colon later =>
            simp only [hname, hskip] at hmember
            simp only [bufferSkipWhitespace_append hskip]
            by_cases hcolon : colon = byte ':'
            · rw [if_pos hcolon] at hmember ⊢
              cases hbody : bufferSkipWhitespace later with
              | nil => simp [hbody, hparse.nil] at hmember
              | cons first body =>
                  rw [hbody] at hmember
                  rw [bufferSkipWhitespace_append hbody]
                  cases hvalue : parse (first :: body) with
                  | none => simp [hvalue] at hmember
                  | some parsed =>
                      obtain ⟨value, after⟩ := parsed
                      simp only [hvalue, Option.some.injEq,
                        Prod.mk.injEq] at hmember
                      obtain ⟨rfl, rfl⟩ := hmember
                      have happend := hparse.append _ value after more hvalue
                        hother
                      rw [List.cons_append] at happend
                      rw [happend]
            · simp [hcolon] at hmember

/-- The loop over the items stops at the same closing byte, with at least as
much fuel. -/
theorem StableBefore.items {parse : Parser Item} (hparse : StableBefore parse)
    {closing : UInt8} (hclosing : isNumberByte closing = false) {fuel : ℕ}
    {input after : Text} {items : List Item}
    (hitems : parseItems parse fuel input = some (items, closing :: after))
    (more : Text) {larger : ℕ} (hle : fuel ≤ larger) :
    parseItems parse larger (input ++ more) =
      some (items, closing :: (after ++ more)) := by
  induction fuel generalizing input items larger with
  | zero => simp [parseItems] at hitems
  | succ fuel ih =>
      obtain ⟨larger, rfl⟩ : ∃ other, larger = other + 1 :=
        ⟨larger - 1, by omega⟩
      rw [parseItems] at hitems ⊢
      cases hskip : bufferSkipWhitespace input with
      | nil => simp [hskip, hparse.nil] at hitems
      | cons first body =>
          rw [hskip] at hitems
          rw [bufferSkipWhitespace_append hskip]
          cases hitem : parse (first :: body) with
          | none => simp [hitem] at hitems
          | some parsed =>
              obtain ⟨item, rest⟩ := parsed
              simp only [hitem] at hitems
              cases hnext : bufferSkipWhitespace rest with
              | nil => simp [hnext] at hitems
              | cons next later =>
                  simp only [hnext] at hitems
                  by_cases hcomma : next = byte ','
                  · have happend := hparse.append _ item rest more hitem
                      (exists_not_number hnext (by rw [hcomma]; decide))
                    rw [List.cons_append] at happend
                    simp only [happend, bufferSkipWhitespace_append hnext]
                    rw [if_pos hcomma] at hitems ⊢
                    cases hloop : parseItems parse fuel later with
                    | none => simp [hloop] at hitems
                    | some looped =>
                        obtain ⟨others, final⟩ := looped
                        simp only [hloop, Option.some.injEq,
                          Prod.mk.injEq] at hitems
                        obtain ⟨rfl, rfl⟩ := hitems
                        rw [ih hloop (by omega)]
                  · rw [if_neg hcomma] at hitems
                    simp only [Option.some.injEq, Prod.mk.injEq,
                      List.cons.injEq] at hitems
                    obtain ⟨rfl, rfl, rfl⟩ := hitems
                    have happend := hparse.append _ item rest more hitem
                      (exists_not_number hnext hclosing)
                    rw [List.cons_append] at happend
                    simp only [happend, bufferSkipWhitespace_append hnext,
                      if_neg hcomma]

theorem StableBefore.enclosed {parse : Parser Item}
    (hparse : StableBefore parse) (opening closing : UInt8)
    (hclosing : isNumberByte closing = false) :
    Stable (parseEnclosed parse opening closing) := by
  intro input items rest more henclosed
  cases input with
  | nil => simp [parseEnclosed] at henclosed
  | cons first inner =>
      rw [parseEnclosed] at henclosed
      rw [List.cons_append, parseEnclosed]
      by_cases hopening : first = opening
      · rw [if_pos hopening] at henclosed ⊢
        cases hskip : bufferSkipWhitespace inner with
        | nil => simp [hskip] at henclosed
        | cons next later =>
            simp only [hskip] at henclosed
            simp only [bufferSkipWhitespace_append hskip]
            by_cases hempty : next = closing
            · rw [if_pos hempty, Option.some.injEq, Prod.mk.injEq] at henclosed
              obtain ⟨rfl, rfl⟩ := henclosed
              rw [if_pos hempty]
            · rw [if_neg hempty] at henclosed ⊢
              cases hitems : parseItems parse (next :: later).length
                  (next :: later) with
              | none =>
                  rw [hitems] at henclosed
                  simp at henclosed
              | some parsed =>
                  obtain ⟨found, after⟩ := parsed
                  rw [hitems] at henclosed
                  cases after with
                  | nil => simp at henclosed
                  | cons last after =>
                      simp only at henclosed
                      by_cases hlast : last = closing
                      · subst hlast
                        rw [if_pos rfl, Option.some.injEq,
                          Prod.mk.injEq] at henclosed
                        obtain ⟨rfl, rfl⟩ := henclosed
                        have happend := hparse.items hclosing hitems more
                          (show _ ≤ (next :: (later ++ more)).length by simp)
                        rw [List.cons_append] at happend
                        simp only [happend, if_true]
                      · simp [hlast] at henclosed
      · simp [hopening] at henclosed

/-! ## Values -/

theorem Stable.map {Value : Type} {parse : Parser Item} (hparse : Stable parse)
    (make : Item → Value) :
    Stable fun input =>
      (parse input).map fun parsed => (make parsed.1, parsed.2) := by
  intro input value rest more hmap
  simp only [Option.map_eq_some_iff, Prod.mk.injEq] at hmap ⊢
  obtain ⟨⟨item, after⟩, hitem, rfl, rfl⟩ := hmap
  exact ⟨_, hparse input item after more hitem, rfl, rfl⟩

theorem StableBefore.array {parse : Parser CJson} (hparse : StableBefore parse) :
    Stable (parseArray parse) :=
  (hparse.enclosed (byte '[') (byte ']') (by decide)).map CJson.array

theorem StableBefore.object {parse : Parser CJson}
    (hparse : StableBefore parse) : Stable (parseObject parse) :=
  (hparse.member.enclosed (byte '\x7b') (byte '\x7d') (by decide)).map
    CJson.object

/-- A byte that starts a keyword starts no other value. -/
theorem parseByFirstByte_keyword (nested : Option (Parser CJson))
    {first : UInt8} (rest : Text)
    (hfirst : first = byte 'n' ∨ first = byte 'f' ∨ first = byte 't') :
    parseByFirstByte nested (first :: rest) = none := by
  rcases hfirst with rfl | rfl | rfl <;> cases nested <;> rfl

theorem parseByFirstByte_cons (nested : Option (Parser CJson)) (first : UInt8)
    (rest : Text) :
    parseByFirstByte nested (first :: rest) =
      if first = byte '"' then
        (parseString (first :: rest)).map
          fun parsed => (.string parsed.1, parsed.2)
      else if first = byte '-' ∨ isDigit first then parseNumber (first :: rest)
      else nested.bind fun parse =>
        if first = byte '[' then parseArray parse (first :: rest)
        else if first = byte '\x7b' then parseObject parse (first :: rest)
        else none := by
  cases nested <;> rfl

theorem stableBefore_parseByFirstByte {nested : Option (Parser CJson)}
    (hnested : ∀ parse, nested = some parse → StableBefore parse) :
    StableBefore (parseByFirstByte nested) where
  nil := rfl
  append := by
    intro input item rest more hparse hother
    cases input with
    | nil => simp [parseByFirstByte] at hparse
    | cons first later =>
        rw [parseByFirstByte_cons] at hparse
        rw [List.cons_append, parseByFirstByte_cons]
        by_cases hquote : first = byte '"'
        · rw [if_pos hquote] at hparse ⊢
          exact stable_parseString.map CJson.string _ item rest more hparse
        · rw [if_neg hquote] at hparse ⊢
          by_cases hnumber : first = byte '-' ∨ isDigit first
          · rw [if_pos hnumber] at hparse ⊢
            exact stableBefore_parseNumber.append _ item rest more hparse hother
          · rw [if_neg hnumber] at hparse ⊢
            rw [Option.bind_eq_some_iff] at hparse ⊢
            obtain ⟨parse, hparser, hparse⟩ := hparse
            have hstable := hnested parse hparser
            refine ⟨parse, hparser, ?_⟩
            by_cases harray : first = byte '['
            · rw [if_pos harray] at hparse ⊢
              exact hstable.array _ item rest more hparse
            · rw [if_neg harray] at hparse ⊢
              by_cases hobject : first = byte '\x7b'
              · rw [if_pos hobject] at hparse ⊢
                exact hstable.object _ item rest more hparse
              · simp [hobject] at hparse

/-- A keyword begins with its first byte. -/
theorem eq_of_isPrefixOf (keyword : Text) {rest : Text} {head first : UInt8}
    (hinitial : (head :: keyword).isPrefixOf (first :: rest)) : first = head := by
  rw [List.isPrefixOf_iff_prefix, List.cons_prefix_cons] at hinitial
  exact hinitial.1.symm

theorem isPrefixOf_append {keyword input : Text}
    (hinitial : keyword.isPrefixOf input) (more : Text) :
    keyword.isPrefixOf (input ++ more) := by
  rw [List.isPrefixOf_iff_prefix] at hinitial ⊢
  exact hinitial.trans (List.prefix_append input more)

theorem drop_append_of_isPrefixOf {keyword input : Text} {count : ℕ}
    (hinitial : keyword.isPrefixOf input) (hcount : count = keyword.length)
    (more : Text) :
    (input ++ more).drop count = input.drop count ++ more := by
  rw [List.isPrefixOf_iff_prefix] at hinitial
  exact List.drop_append_of_le_length (hcount ▸ hinitial.length_le)

/-- Text that starts no keyword and still parses does not start one when more
text follows. -/
theorem not_isPrefixOf_append {nested : Option (Parser CJson)}
    {input rest : Text} {item : CJson}
    (hparse : parseByFirstByte nested input = some (item, rest)) (more : Text) :
    ¬ (text "null").isPrefixOf (input ++ more) ∧
      ¬ (text "false").isPrefixOf (input ++ more) ∧
      ¬ (text "true").isPrefixOf (input ++ more) := by
  cases input with
  | nil => simp [parseByFirstByte] at hparse
  | cons first later =>
      have hother : ¬(first = byte 'n' ∨ first = byte 'f' ∨ first = byte 't') :=
        fun hfirst => by simp [parseByFirstByte_keyword _ _ hfirst] at hparse
      refine ⟨fun hnull => hother (.inl ?_), fun hfalse => hother (.inr (.inl ?_)),
        fun htrue => hother (.inr (.inr ?_))⟩
      · exact eq_of_isPrefixOf (text "ull") hnull
      · exact eq_of_isPrefixOf (text "alse") hfalse
      · exact eq_of_isPrefixOf (text "rue") htrue

/-- Text starts at most one of two keywords with different first bytes. -/
theorem not_isPrefixOf_other {left input : Text} (right : Text)
    (hinitial : left.isPrefixOf input)
    (hheads : ∃ first ∈ left.head?, ∃ other ∈ right.head?, first ≠ other)
    (more : Text) : ¬ right.isPrefixOf (input ++ more) := by
  intro hright
  obtain ⟨first, hfirst, other, hother, hne⟩ := hheads
  rw [List.isPrefixOf_iff_prefix] at hinitial hright
  rw [Option.mem_def, List.head?_eq_some_iff] at hfirst hother
  obtain ⟨lefts, rfl⟩ := hfirst
  obtain ⟨rights, rfl⟩ := hother
  obtain ⟨rest, rfl⟩ := hinitial
  rw [List.cons_append, List.cons_append, List.cons_prefix_cons] at hright
  exact hne hright.1.symm

/-- Whatever `parseByFirstByte` does with more text, `parseValueWith` does. -/
theorem parseValueWith_append {nested : Option (Parser CJson)}
    {input rest : Text} {item : CJson} {more : Text}
    (hparse : parseValueWith nested input = some (item, rest))
    (hfirst : parseByFirstByte nested input = some (item, rest) →
      parseByFirstByte nested (input ++ more) = some (item, rest ++ more)) :
    parseValueWith nested (input ++ more) = some (item, rest ++ more) := by
  unfold parseValueWith at hparse ⊢
  by_cases hnull : (text "null").isPrefixOf input
  · rw [if_pos hnull, Option.some.injEq, Prod.mk.injEq] at hparse
    obtain ⟨rfl, rfl⟩ := hparse
    rw [if_pos (isPrefixOf_append hnull more),
      drop_append_of_isPrefixOf hnull (by decide)]
  · rw [if_neg hnull] at hparse
    by_cases hfalse : (text "false").isPrefixOf input
    · rw [if_pos hfalse, Option.some.injEq, Prod.mk.injEq] at hparse
      obtain ⟨rfl, rfl⟩ := hparse
      rw [if_neg (not_isPrefixOf_other (text "null") hfalse
          (by decide) more),
        if_pos (isPrefixOf_append hfalse more),
        drop_append_of_isPrefixOf hfalse (by decide)]
    · rw [if_neg hfalse] at hparse
      by_cases htrue : (text "true").isPrefixOf input
      · rw [if_pos htrue, Option.some.injEq, Prod.mk.injEq] at hparse
        obtain ⟨rfl, rfl⟩ := hparse
        rw [if_neg (not_isPrefixOf_other (text "null") htrue
            (by decide) more),
          if_neg (not_isPrefixOf_other (text "false") htrue
            (by decide) more),
          if_pos (isPrefixOf_append htrue more),
          drop_append_of_isPrefixOf htrue (by decide)]
      · rw [if_neg htrue] at hparse
        obtain ⟨hnotNull, hnotFalse, hnotTrue⟩ :=
          not_isPrefixOf_append hparse more
        rw [if_neg hnotNull, if_neg hnotFalse, if_neg hnotTrue]
        exact hfirst hparse

theorem stableBefore_parseValueWith {nested : Option (Parser CJson)}
    (hnested : ∀ parse, nested = some parse → StableBefore parse) :
    StableBefore (parseValueWith nested) where
  nil := rfl
  append := fun input item rest more hparse hother =>
    parseValueWith_append hparse fun hfirst =>
      (stableBefore_parseByFirstByte hnested).append input item rest more hfirst
        hother

theorem stableBefore_parseValue (levels : ℕ) :
    StableBefore (parseValue levels) := by
  induction levels with
  | zero => exact stableBefore_parseValueWith (by simp)
  | succ levels ih =>
      refine stableBefore_parseValueWith fun parse hparse => ?_
      rw [Option.some.injEq] at hparse
      exact hparse ▸ ih

/-! ## Objects -/

/-- An object starts with its opening brace. -/
theorem parseByFirstByte_object {nested : Option (Parser CJson)}
    {first : UInt8} {later rest : Text} {members : List (Text × CJson)}
    (hparse : parseByFirstByte nested (first :: later) =
      some (.object members, rest)) :
    first = byte '\x7b' ∧ ∃ parse, nested = some parse ∧
      parseObject parse (first :: later) = some (.object members, rest) := by
  rw [parseByFirstByte_cons] at hparse
  by_cases hquote : first = byte '"'
  · simp [hquote] at hparse
  · rw [if_neg hquote] at hparse
    by_cases hnumber : first = byte '-' ∨ isDigit first
    · rw [if_pos hnumber, parseNumber] at hparse
      split at hparse <;> simp at hparse
    · rw [if_neg hnumber, Option.bind_eq_some_iff] at hparse
      obtain ⟨parse, hparser, hparse⟩ := hparse
      by_cases harray : first = byte '['
      · simp [harray, parseArray] at hparse
      · rw [if_neg harray] at hparse
        by_cases hobject : first = byte '\x7b'
        · rw [if_pos hobject] at hparse
          exact ⟨hobject, parse, hparser, hparse⟩
        · simp [hobject] at hparse

/-- What a value that is an object looks like to the parser. -/
theorem parseValueWith_object {nested : Option (Parser CJson)}
    {input rest : Text} {members : List (Text × CJson)}
    (hparse : parseValueWith nested input = some (.object members, rest)) :
    parseByFirstByte nested input = some (.object members, rest) := by
  unfold parseValueWith at hparse
  split at hparse
  · simp at hparse
  · split at hparse
    · simp at hparse
    · split at hparse
      · simp at hparse
      · exact hparse

/-- Nothing that follows an object changes it. -/
theorem parseValue_object_append {levels : ℕ} {input rest : Text}
    {members : List (Text × CJson)} (more : Text)
    (hparse : parseValue levels input = some (.object members, rest)) :
    parseValue levels (input ++ more) =
      some (.object members, rest ++ more) := by
  cases levels with
  | zero =>
      have hfirst := parseValueWith_object hparse
      cases input with
      | nil => simp [parseByFirstByte] at hfirst
      | cons first later =>
          obtain ⟨-, parse, hnone, -⟩ := parseByFirstByte_object hfirst
          simp at hnone
  | succ levels =>
      refine parseValueWith_append hparse fun hfirst => ?_
      cases input with
      | nil => simp [parseByFirstByte] at hfirst
      | cons first later =>
          obtain ⟨hopening, parse, hparser, hobject⟩ :=
            parseByFirstByte_object hfirst
          rw [Option.some.injEq] at hparser
          subst hparser
          have happend := (stableBefore_parseValue levels).object
            (first :: later) _ rest more hobject
          rw [List.cons_append] at happend
          have hplain : first ≠ byte '"' ∧
              ¬(first = byte '-' ∨ isDigit first) ∧ first ≠ byte '[' := by
            rw [hopening]
            decide
          rw [List.cons_append, parseByFirstByte_cons, if_neg hplain.1,
            if_neg hplain.2.1, Option.bind_some, if_neg hplain.2.2,
            if_pos hopening, happend]

theorem parseValue_object_first {levels : ℕ} {input rest : Text}
    {members : List (Text × CJson)}
    (hparse : parseValue levels input = some (.object members, rest)) :
    ∃ later, input = byte '\x7b' :: later := by
  cases input with
  | nil =>
      rw [(stableBefore_parseValue levels).nil] at hparse
      simp at hparse
  | cons first later =>
      have hfirst : ∃ nested, parseByFirstByte nested (first :: later) =
          some (.object members, rest) := by
        cases levels with
        | zero => exact ⟨_, parseValueWith_object hparse⟩
        | succ levels => exact ⟨_, parseValueWith_object hparse⟩
      obtain ⟨nested, hfirst⟩ := hfirst
      exact ⟨later, by rw [(parseByFirstByte_object hfirst).1]⟩

/-- A byte order mark stays one, and text that starts an object has none. -/
theorem skipUtf8Bom_append {input later : Text}
    (hskip : bufferSkipWhitespace (skipUtf8Bom input) = byte '\x7b' :: later)
    (more : Text) :
    skipUtf8Bom (input ++ more) = skipUtf8Bom input ++ more := by
  unfold skipUtf8Bom at hskip ⊢
  by_cases hmark : 4 ≤ input.length ∧ input.take 3 = [0xef, 0xbb, 0xbf]
  · have hlength : 3 ≤ input.length := by omega
    have hlonger : 4 ≤ (input ++ more).length := by
      rw [List.length_append]
      omega
    rw [if_pos hmark, if_pos ⟨hlonger, by
      rw [List.take_append_of_le_length hlength, hmark.2]⟩,
      List.drop_append_of_le_length hlength]
  · rw [if_neg hmark] at hskip ⊢
    refine if_neg fun hlonger => ?_
    cases input with
    | nil => simp [bufferSkipWhitespace] at hskip
    | cons first rest =>
        have hfirst : first = 0xef := by
          have htake := hlonger.2
          rw [List.cons_append, List.take_succ_cons, List.cons.injEq] at htake
          exact htake.1
        rw [bufferSkipWhitespace, hfirst, List.dropWhile_cons_of_neg (by decide),
          List.cons.injEq] at hskip
        exact absurd hskip.1 (by decide)

/-- A message that is a whole object is read as that object whatever follows
it. -/
theorem cJSONParse_append {message : Text} {members : List (Text × CJson)}
    (hnul : (0 : UInt8) ∉ message)
    (hparse : cJSONParse message = some (.object members)) (more : Text) :
    cJSONParse (message ++ more) = some (.object members) := by
  have hstring : cString (message ++ more) = message ++ cString more := by
    unfold cString
    refine List.takeWhile_append_of_pos fun other hmem => ?_
    exact decide_eq_true fun hzero => hnul (hzero ▸ hmem)
  unfold cJSONParse at hparse ⊢
  rw [cString_eq_self hnul] at hparse
  rw [hstring]
  obtain ⟨⟨root, rest⟩, hvalue, hroot⟩ := Option.map_eq_some_iff.mp hparse
  obtain rfl : root = .object members := hroot
  obtain ⟨later, hskip⟩ := parseValue_object_first hvalue
  rw [skipUtf8Bom_append hskip, bufferSkipWhitespace_append hskip,
    ← List.cons_append, ← hskip, parseValue_object_append _ hvalue]
  rfl

end Conveyor.Json
