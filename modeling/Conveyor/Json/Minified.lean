import Conveyor.Json.Minify
import Conveyor.Json.RoundTrip

/-!
# Minifying JSON texts

Minifying a JSON text, also one with comments between its tokens, leaves the text
of the same value without anything between the tokens.  The exception are strings
that end in a backslash: `minify_string` takes the closing quote for an escaped
one.
-/

namespace Conveyor.Json

/-! ## Blanks and comments -/

/-- Blanks and comments. -/
inductive IsPadding : Text → Prop
  | nil : IsPadding []
  | blank {character rest} (hblank : isBlankByte character)
      (hrest : IsPadding rest) : IsPadding (character :: rest)
  | oneline {comment rest} (hcomment : byte '\n' ∉ comment)
      (hrest : IsPadding rest) :
      IsPadding (byte '/' :: byte '/' :: (comment ++ byte '\n' :: rest))
  | multiline {comment rest} (hcomment : ¬[byte '*', byte '/'] <:+: comment)
      (hrest : IsPadding rest) :
      IsPadding (byte '/' :: byte '*' ::
        (comment ++ byte '*' :: byte '/' :: rest))

theorem isPadding_blank {blank : Text} (hblank : IsBlank blank) :
    IsPadding blank := by
  induction blank with
  | nil => exact .nil
  | cons character rest ih =>
      obtain ⟨hfirst, hrest⟩ := List.forall_mem_cons.mp hblank
      refine .blank ?_ (ih hrest)
      rcases hfirst with rfl | rfl | rfl | rfl <;> decide

/-! ## Equations of `minify` -/

theorem minify_blank {character : UInt8} {rest : Text}
    (hblank : isBlankByte character) :
    minify (character :: rest) = minify rest := by
  rw [minify, List.length_cons, minifyWith, if_pos hblank, minify]

theorem minify_slash (rest : Text) :
    minify (byte '/' :: rest) = minify (skipComment rest) := by
  have hblank : ¬isBlankByte (byte '/') := by decide
  rw [minify, List.length_cons, minifyWith, if_neg hblank, if_pos rfl, minify,
    minifyWith_enough (length_skipComment rest) le_rfl]

theorem minify_quote (rest : Text) : minify (byte '"' :: rest) =
    byte '"' :: ((minifyString rest).1 ++ minify (minifyString rest).2) := by
  have hblank : ¬isBlankByte (byte '"') := by decide
  have hslash : byte '"' ≠ byte '/' := by decide
  rw [minify, List.length_cons, minifyWith, if_neg hblank, if_neg hslash,
    if_pos rfl, minify, minifyWith_enough (length_minifyString rest) le_rfl]

/-- A byte that is copied as it is. -/
def isKept (character : UInt8) : Bool :=
  !(isBlankByte character || character = byte '/' || character = byte '"')

theorem minify_kept {character : UInt8} {rest : Text} (hkept : isKept character) :
    minify (character :: rest) = character :: minify rest := by
  simp only [isKept, Bool.not_eq_true', Bool.or_eq_false_iff,
    decide_eq_false_iff_not] at hkept
  obtain ⟨⟨hblank, hslash⟩, hquote⟩ := hkept
  rw [minify, List.length_cons, minifyWith, hblank, if_neg Bool.false_ne_true,
    if_neg hslash, if_neg hquote, minify]

theorem minify_append {front rest : Text}
    (hkept : ∀ character ∈ front, isKept character) :
    minify (front ++ rest) = front ++ minify rest := by
  induction front with
  | nil => rfl
  | cons character front ih =>
      obtain ⟨hfirst, hfront⟩ := List.forall_mem_cons.mp hkept
      rw [List.cons_append, minify_kept hfirst, ih hfront]
      rfl

/-! ## Padding is left out -/

theorem skipOnelineComment_end {comment : Text} (rest : Text)
    (hcomment : byte '\n' ∉ comment) :
    skipOnelineComment (comment ++ byte '\n' :: rest) = rest := by
  induction comment with
  | nil => rw [List.nil_append, skipOnelineComment, if_pos rfl]
  | cons first comment ih =>
      obtain ⟨hfirst, hlater⟩ := List.ne_and_not_mem_of_not_mem_cons hcomment
      rw [List.cons_append, skipOnelineComment, if_neg hfirst.symm, ih hlater]

theorem skipMultilineComment_end {comment : Text} (rest : Text)
    (hcomment : ¬[byte '*', byte '/'] <:+: comment) :
    skipMultilineComment (comment ++ byte '*' :: byte '/' :: rest) = rest := by
  induction comment with
  | nil => rw [List.nil_append, skipMultilineComment, if_pos ⟨rfl, rfl⟩]; rfl
  | cons first comment ih =>
      have hlater : ¬[byte '*', byte '/'] <:+: comment := fun hoccurs =>
        hcomment (hoccurs.trans (List.suffix_cons first comment).isInfix)
      have hopen : ¬(first = byte '*' ∧
          (comment ++ byte '*' :: byte '/' :: rest).head? =
            some (byte '/')) := by
        rintro ⟨rfl, hhead⟩
        cases comment with
        | nil => exact absurd hhead (by simp; decide)
        | cons second comment =>
            rw [List.cons_append, List.head?_cons, Option.some.injEq] at hhead
            exact hcomment (hhead ▸ (List.prefix_append [_, _] comment).isInfix)
      rw [List.cons_append, skipMultilineComment, if_neg hopen, ih hlater]

theorem skipComment_oneline (rest : Text) :
    skipComment (byte '/' :: rest) = skipOnelineComment rest := rfl

theorem skipComment_multiline (rest : Text) :
    skipComment (byte '*' :: rest) = skipMultilineComment rest := rfl

theorem minify_padding {padding : Text} (rest : Text)
    (hpadding : IsPadding padding) : minify (padding ++ rest) = minify rest := by
  induction hpadding with
  | nil => rfl
  | blank hblank hrest ih => rw [List.cons_append, minify_blank hblank, ih]
  | oneline hcomment hrest ih =>
      rw [List.cons_append, List.cons_append, List.append_assoc, minify_slash,
        skipComment_oneline, List.cons_append, skipOnelineComment_end _ hcomment,
        ih]
  | multiline hcomment hrest ih =>
      rw [List.cons_append, List.cons_append, List.append_assoc, minify_slash,
        skipComment_multiline, List.cons_append, List.cons_append,
        skipMultilineComment_end _ hcomment, ih]

/-- What may stand behind the last token: padding, and a comment that the text
ends in. -/
def IsEnding (ending : Text) : Prop :=
  ∃ padding comment, ending = padding ++ comment ∧ IsPadding padding ∧
    (comment = [] ∨ ∃ words, comment = byte '/' :: byte '/' :: words ∧
      byte '\n' ∉ words)

theorem skipOnelineComment_unended {comment : Text}
    (hcomment : byte '\n' ∉ comment) : skipOnelineComment comment = [] := by
  induction comment with
  | nil => rfl
  | cons first comment ih =>
      obtain ⟨hfirst, hlater⟩ := List.ne_and_not_mem_of_not_mem_cons hcomment
      rw [skipOnelineComment, if_neg hfirst.symm, ih hlater]

theorem minify_ending {ending : Text} (hending : IsEnding ending) :
    minify ending = [] := by
  obtain ⟨padding, comment, rfl, hpadding, hcomment⟩ := hending
  rw [minify_padding _ hpadding]
  rcases hcomment with rfl | ⟨words, rfl, hwords⟩
  · rfl
  · rw [minify_slash, skipComment_oneline, skipOnelineComment_unended hwords]
    rfl

/-! ## Strings are copied -/

/-- Not the last byte of a string. -/
def EndsPlainly (content : Text) : Prop := content.getLast? ≠ some (byte '\\')

theorem EndsPlainly.of_append {front content : Text}
    (hends : EndsPlainly (front ++ content)) : EndsPlainly content := by
  unfold EndsPlainly at hends ⊢
  rw [List.getLast?_append] at hends
  cases hlast : content.getLast? with
  | none => simp
  | some last => simpa [hlast] using hends

theorem EndsPlainly.of_cons {first : UInt8} {content : Text}
    (hends : EndsPlainly (first :: content)) : EndsPlainly content :=
  of_append (show EndsPlainly ([first] ++ content) from hends)

/-- What `minify_string` makes of a literal: it finds its closing quote. -/
def Closes (raw rest : Text) : Prop :=
  minifyString (raw ++ byte '"' :: rest) = (raw ++ [byte '"'], rest)

theorem closes_nil (rest : Text) : Closes [] rest := by
  cases rest <;> simp [Closes, minifyString]

theorem Closes.plain {first : UInt8} {raw rest : Text} (hquote : first ≠ byte '"')
    (hpair : first = byte '\\' →
      (raw ++ byte '"' :: rest).head? ≠ some (byte '"'))
    (hraw : Closes raw rest) : Closes (first :: raw) rest := by
  obtain ⟨second, tail, htail⟩ : ∃ second tail, raw ++ byte '"' :: rest =
      second :: tail := List.exists_cons_of_ne_nil (by simp)
  have hescaped : ¬(first = byte '\\' ∧ second = byte '"') := by
    rintro ⟨hfirst, hsecond⟩
    exact hpair hfirst (by rw [htail, hsecond]; rfl)
  unfold Closes at hraw ⊢
  rw [htail] at hraw
  rw [List.cons_append, htail, minifyString, if_neg hquote, if_neg hescaped, hraw]
  rfl

theorem Closes.escaped {raw rest : Text} (hraw : Closes raw rest) :
    Closes (byte '\\' :: byte '"' :: raw) rest := by
  have hquote : byte '\\' ≠ byte '"' := by decide
  unfold Closes at hraw ⊢
  rw [List.cons_append, List.cons_append, minifyString, if_neg hquote,
    if_pos ⟨rfl, rfl⟩, hraw]
  rfl

theorem Closes.digits {digits raw rest : Text}
    (hdigits : ∀ digit ∈ digits, (hexDigit digit).isSome)
    (hraw : Closes raw rest) : Closes (digits ++ raw) rest := by
  induction digits with
  | nil => exact hraw
  | cons digit digits ih =>
      obtain ⟨hdigit, hlater⟩ := List.forall_mem_cons.mp hdigits
      refine (ih hlater).plain ?_ ?_
      · rintro rfl
        exact absurd hdigit (by decide)
      · rintro rfl
        exact absurd hdigit (by decide)

theorem Closes.unicode {digits raw rest : Text} {code : ℕ}
    (hcode : HexCode digits code) (hraw : Closes raw rest) :
    Closes (byte '\\' :: byte 'u' :: (digits ++ raw)) rest := by
  have hletter : byte 'u' ≠ byte '"' ∧ byte 'u' ≠ byte '\\' := by decide
  refine .plain (by decide) (fun _ hhead => ?_) (.plain hletter.1
    (fun hslash => absurd hslash hletter.2) (hraw.digits hcode.isHex))
  exact hletter.1 (Option.some.inj hhead)

/-- A literal does not start with its closing quote. -/
theorem Escapes.head_ne {raw content : Text} (hescapes : Escapes raw content) :
    raw.head? ≠ some (byte '"') := by
  cases hescapes with
  | nil => simp
  | plain hprintable hquote hbackslash hrest => simpa using hquote
  | short hvalue hrest => rw [List.head?_cons]; decide
  | unicode hcode hsurrogate hrest => rw [List.head?_cons]; decide
  | pair hhigh hlow hhighRange hlowRange hrest => rw [List.head?_cons]; decide

theorem Escapes.closes {raw content : Text} (hescapes : Escapes raw content)
    (hends : EndsPlainly content) (rest : Text) : Closes raw rest := by
  induction hescapes with
  | nil => exact closes_nil rest
  | plain hprintable hquote hbackslash hrest ih =>
      exact (ih hends.of_cons).plain hquote fun hslash => absurd hslash hbackslash
  | @short escape value raw content hvalue hrest ih =>
      have hlater := ih hends.of_cons
      by_cases hquote : escape = byte '"'
      · subst hquote
        exact hlater.escaped
      have hsecond : Closes (escape :: raw) rest := by
        refine hlater.plain hquote fun hslash hhead => ?_
        subst hslash
        cases raw with
        | nil =>
            -- an escaped backslash would be the last byte
            cases hrest
            have hbackslash : value = byte '\\' := by
              have hsome : escapeValue (byte '\\') = some (byte '\\') := by decide
              exact Option.some.inj (hvalue.symm.trans hsome)
            exact hends (by rw [hbackslash]; rfl)
        | cons first raw => exact hrest.head_ne hhead
      refine hsecond.plain (by decide) fun _ hhead => ?_
      exact hquote (Option.some.inj hhead)
  | unicode hcode hsurrogate hrest ih => exact (ih hends.of_append).unicode hcode
  | pair hhigh hlow hhighRange hlowRange hrest ih =>
      exact ((ih hends.of_append).unicode hlow).unicode hhigh

theorem minify_quoted {raw content : Text} (hescapes : Escapes raw content)
    (hends : EndsPlainly content) (rest : Text) :
    minify (quoted raw ++ rest) = quoted raw ++ minify rest := by
  have hcloses : minifyString (raw ++ byte '"' :: rest) = _ :=
    hescapes.closes hends rest
  rw [quoted, List.cons_append, List.append_assoc, minify_quote]
  rw [List.singleton_append, hcloses]
  rfl

/-! ## Values -/

mutual

/-- No string and no name in the value ends in a backslash. -/
def CJson.EndsPlainly : CJson → Prop
  | .string content => Json.EndsPlainly content
  | .array elements => elementsEndPlainly elements
  | .object members => membersEndPlainly members
  | _ => True

def elementsEndPlainly : List CJson → Prop
  | [] => True
  | element :: rest => element.EndsPlainly ∧ elementsEndPlainly rest

def membersEndPlainly : List (Text × CJson) → Prop
  | [] => True
  | member :: rest => memberEndsPlainly member ∧ membersEndPlainly rest

def memberEndsPlainly : Text × CJson → Prop
  | (name, value) => Json.EndsPlainly name ∧ value.EndsPlainly

end

theorem elementsEndPlainly_iff {elements : List CJson} :
    elementsEndPlainly elements ↔ ∀ element ∈ elements, element.EndsPlainly := by
  induction elements with
  | nil => simp [elementsEndPlainly]
  | cons element rest ih => simp [elementsEndPlainly, ih]

theorem membersEndPlainly_iff {members : List (Text × CJson)} :
    membersEndPlainly members ↔ ∀ member ∈ members, memberEndsPlainly member := by
  induction members with
  | nil => simp [membersEndPlainly]
  | cons member rest ih => simp [membersEndPlainly, ih]

/-- Nothing between two tokens. -/
def IsNothing (gap : Text) : Prop := gap = []

variable {Item : Type} {tidy : Item → Prop}

/-- Minifying the text of an item leaves another text of it. -/
def Shrinks (spells tight : Text → Item → Prop) (tidy : Item → Prop) : Prop :=
  ∀ body item, spells body item → tidy item →
    ∃ short, tight short item ∧ ∀ rest, minify (body ++ rest) = short ++ minify rest

theorem shrinks_separated {spells tight : Text → Item → Prop}
    (hspells : Shrinks spells tight tidy) :
    Shrinks (Separated IsPadding spells) (Separated IsNothing tight)
      (fun items => ∀ item ∈ items, tidy item) := by
  intro body items hitems htidy
  induction hitems with
  | one hbefore hafter hitem =>
      obtain ⟨short, htight, hminify⟩ :=
        hspells _ _ hitem (htidy _ List.mem_cons_self)
      refine ⟨_, .one rfl rfl htight, fun rest => ?_⟩
      rw [List.append_assoc, minify_padding _ hbefore, List.append_assoc, hminify,
        minify_padding _ hafter]
      simp
  | more hbefore hafter hitem hrest ih =>
      obtain ⟨short, htight, hminify⟩ :=
        hspells _ _ hitem (htidy _ List.mem_cons_self)
      obtain ⟨later, hlater, hmore⟩ :=
        ih fun item hmem => htidy item (List.mem_cons_of_mem _ hmem)
      refine ⟨_, .more rfl rfl htight hlater, fun rest => ?_⟩
      have hcomma : isKept (byte ',') := by decide
      rw [List.append_assoc, minify_padding _ hbefore, List.append_assoc, hminify,
        List.append_assoc, minify_padding _ hafter, List.cons_append,
        minify_kept hcomma, hmore]
      simp

theorem shrinks_member {spells tight : Text → CJson → Prop}
    (hspells : Shrinks spells tight CJson.EndsPlainly) :
    Shrinks (SpellsMember IsPadding spells) (SpellsMember IsNothing tight)
      memberEndsPlainly := by
  rintro - - ⟨hname, hbefore, hafter, hvalue⟩ htidy
  rw [memberEndsPlainly] at htidy
  obtain ⟨short, htight, hminify⟩ := hspells _ _ hvalue htidy.2
  refine ⟨_, .intro hname rfl rfl htight, fun rest => ?_⟩
  have hcolon : isKept (byte ':') := by decide
  rw [List.append_assoc, minify_quoted hname htidy.1, List.append_assoc,
    minify_padding _ hbefore, List.cons_append, minify_kept hcolon,
    List.append_assoc, minify_padding _ hafter, hminify]
  simp

theorem shrinks_enclosed {spells tight : Text → Item → Prop}
    {opening closing : UInt8} (hspells : Shrinks spells tight tidy)
    (hopening : isKept opening) (hclosing : isKept closing) :
    Shrinks (Enclosed IsPadding spells opening closing)
      (Enclosed IsNothing tight opening closing)
      (fun items => ∀ item ∈ items, tidy item) := by
  intro body items hitems htidy
  cases hitems with
  | empty hblank =>
      refine ⟨_, .empty rfl, fun rest => ?_⟩
      rw [List.cons_append, minify_kept hopening, List.append_assoc,
        minify_padding _ hblank, List.singleton_append, minify_kept hclosing]
      rfl
  | items hitems =>
      obtain ⟨short, htight, hminify⟩ :=
        shrinks_separated hspells _ _ hitems htidy
      refine ⟨_, .items htight, fun rest => ?_⟩
      rw [List.cons_append, minify_kept hopening, List.append_assoc, hminify,
        List.singleton_append, minify_kept hclosing]
      simp

theorem isKept_of_isNumberByte {character : UInt8}
    (hnumber : isNumberByte character) : isKept character := by
  by_contra hkept
  simp only [isKept, isBlankByte, Bool.not_eq_true, Bool.not_eq_false',
    Bool.or_eq_true, decide_eq_true_eq] at hkept
  rcases hkept with ((((rfl | rfl) | rfl) | rfl) | rfl) | rfl <;>
    exact absurd hnumber (by decide)

theorem shrinks_valueWith {nested tight : Option (Text → CJson → Prop)}
    (hnested : ∀ spells, nested = some spells → ∃ short, tight = some short ∧
      Shrinks spells short CJson.EndsPlainly) :
    Shrinks (SpellsWith IsPadding nested) (SpellsWith IsNothing tight)
      CJson.EndsPlainly := by
  have hkeyword (keyword : Text) (hall : keyword.all isKept = true) (rest : Text) :
      minify (keyword ++ rest) = keyword ++ minify rest :=
    minify_append (List.all_eq_true.mp hall)
  intro body value hvalue htidy
  cases hvalue with
  | null => exact ⟨_, .null, hkeyword _ (by decide)⟩
  | false => exact ⟨_, .false, hkeyword _ (by decide)⟩
  | true => exact ⟨_, .true, hkeyword _ (by decide)⟩
  | number numeral hlength =>
      exact ⟨_, .number numeral hlength, fun rest => minify_append
        fun character hmem =>
          isKept_of_isNumberByte (numeral.isNumberByte_text character hmem)⟩
  | string hcontent =>
      rw [CJson.EndsPlainly] at htidy
      exact ⟨_, .string hcontent, minify_quoted hcontent htidy⟩
  | array hspells helements =>
      rw [CJson.EndsPlainly, elementsEndPlainly_iff] at htidy
      obtain ⟨short, hshort, hshrinks⟩ := hnested _ hspells
      obtain ⟨body, htight, hminify⟩ := shrinks_enclosed hshrinks (by decide)
        (by decide) _ _ helements htidy
      exact ⟨body, .array hshort htight, hminify⟩
  | object hspells hmembers =>
      rw [CJson.EndsPlainly, membersEndPlainly_iff] at htidy
      obtain ⟨short, hshort, hshrinks⟩ := hnested _ hspells
      obtain ⟨body, htight, hminify⟩ := shrinks_enclosed
        (shrinks_member hshrinks) (by decide) (by decide) _ _ hmembers htidy
      exact ⟨body, .object hshort htight, hminify⟩

/-- Minifying takes out what is between the tokens and keeps the value. -/
theorem shrinks_value (levels : ℕ) :
    Shrinks (Spells IsPadding levels) (Spells IsNothing levels)
      CJson.EndsPlainly := by
  induction levels with
  | zero => exact shrinks_valueWith (by simp)
  | succ levels ih =>
      refine shrinks_valueWith fun spells hspells => ?_
      obtain rfl := Option.some.inj hspells
      exact ⟨_, rfl, ih⟩

/-! ## Grammars with more between the tokens -/

section

variable {gap gap' : Text → Prop} {spells spells' : Text → Item → Prop}

theorem Separated.mono (hgap : ∀ blank, gap blank → gap' blank)
    (hspells : ∀ body item, spells body item → spells' body item) {body : Text}
    {items : List Item} (hitems : Separated gap spells body items) :
    Separated gap' spells' body items := by
  induction hitems with
  | one hbefore hafter hitem =>
      exact .one (hgap _ hbefore) (hgap _ hafter) (hspells _ _ hitem)
  | more hbefore hafter hitem hrest ih =>
      exact .more (hgap _ hbefore) (hgap _ hafter) (hspells _ _ hitem) ih

theorem Enclosed.mono (hgap : ∀ blank, gap blank → gap' blank)
    (hspells : ∀ body item, spells body item → spells' body item)
    {opening closing : UInt8} {body : Text} {items : List Item}
    (hitems : Enclosed gap spells opening closing body items) :
    Enclosed gap' spells' opening closing body items := by
  cases hitems with
  | empty hblank => exact .empty (hgap _ hblank)
  | items hitems => exact .items (hitems.mono hgap hspells)

end

theorem Spells.mono {gap gap' : Text → Prop}
    (hgap : ∀ blank, gap blank → gap' blank) {levels : ℕ} {body : Text}
    {value : CJson} (hvalue : Spells gap levels body value) :
    Spells gap' levels body value := by
  have hstep (nested nested' : Option (Text → CJson → Prop))
      (hnested : ∀ spells, nested = some spells → ∃ spells',
        nested' = some spells' ∧ ∀ body item, spells body item →
          spells' body item) (body : Text) (value : CJson)
      (hvalue : SpellsWith gap nested body value) :
      SpellsWith gap' nested' body value := by
    cases hvalue with
    | null => exact .null
    | false => exact .false
    | true => exact .true
    | number numeral hlength => exact .number numeral hlength
    | string hcontent => exact .string hcontent
    | array hspells helements =>
        obtain ⟨spells', hspells', hmono⟩ := hnested _ hspells
        exact .array hspells' (helements.mono hgap hmono)
    | object hspells hmembers =>
        obtain ⟨spells', hspells', hmono⟩ := hnested _ hspells
        refine .object hspells' (hmembers.mono hgap fun body member hmember => ?_)
        obtain ⟨hname, hbefore, hafter, hvalue⟩ := hmember
        exact .intro hname (hgap _ hbefore) (hgap _ hafter) (hmono _ _ hvalue)
  induction levels generalizing body value with
  | zero => exact hstep none none (by simp) body value hvalue
  | succ levels ih =>
      refine hstep _ _ (fun spells hspells => ⟨_, rfl, ?_⟩) body value hvalue
      obtain rfl := Option.some.inj hspells
      exact fun body item hitem => ih hitem

theorem spells_blank {levels : ℕ} {body : Text} {value : CJson}
    (hvalue : Spells IsNothing levels body value) :
    Spells IsBlank levels body value :=
  hvalue.mono fun _ hnothing => hnothing ▸ isBlank_nil

/-! ## In a buffer -/

/-- A JSON text with blanks and comments is minified in place to a text of the
same value with nothing between its tokens, and `cJSON_Parse` then reads it. -/
theorem minified_reads {before body after more : Text} {value : CJson}
    (hbefore : IsPadding before) (hafter : IsEnding after)
    (hvalue : Spells IsPadding nestingLimit body value)
    (hends : value.EndsPlainly)
    (hnul : (0 : UInt8) ∉ before ++ (body ++ after)) :
    ∃ short junk, Spells IsNothing nestingLimit short value ∧
      short.length + junk.length = (before ++ (body ++ after)).length ∧
      cJSONMinify (before ++ (body ++ after) ++ 0 :: more) =
        some (short ++ 0 :: (junk ++ more)) ∧
      cJSONParse (short ++ 0 :: (junk ++ more)) = some value := by
  obtain ⟨short, htight, hminify⟩ := shrinks_value nestingLimit body value hvalue
    hends
  have hshort : minify (before ++ (body ++ after)) = short := by
    rw [minify_padding _ hbefore, hminify, minify_ending hafter, List.append_nil]
  obtain ⟨junk, hlength, hrun⟩ : ∃ junk, _ ∧
      cJSONMinify (before ++ (body ++ after) ++ 0 :: more) = _ := cJSONMinify_eq hnul
  rw [hshort] at hlength hrun
  refine ⟨short, junk, htight, hlength, hrun, ?_⟩
  have hblank := spells_blank htight
  have hstring : cString (short ++ 0 :: (junk ++ more)) =
      [] ++ ([] ++ (short ++ [])) := by
    simpa using cString_append_nul hblank.nul_not_mem (junk ++ more)
  exact cJSONParse_spelled hstring (.inl rfl) isBlank_nil hblank (by simp [Ends])

/-- `[42, // answer` and `true]` on the next line. -/
def commentedArray : Text :=
  byte '[' :: ([] ++ (answerNumeral.text ++ ([] ++ byte ',' ::
    (byte ' ' :: byte '/' :: byte '/' :: (text " answer" ++ [byte '\n']) ++
      (text "true" ++ []))))) ++ [byte ']']

theorem spells_commentedArray :
    Spells IsPadding nestingLimit commentedArray answerArray := by
  have hpadding (body : Text) (value : CJson)
      (hvalue : ∀ nested, SpellsWith IsBlank nested body value) :
      Spells IsPadding 999 body value :=
    (spells_scalar 999 hvalue).mono fun _ => isPadding_blank
  have hcomment : IsPadding (byte ' ' :: byte '/' :: byte '/' ::
      (text " answer" ++ byte '\n' :: [])) :=
    .blank (by decide) (.oneline (by decide) .nil)
  have hanswer := hpadding _ _ fun _ => .number answerNumeral (by decide)
  have htrue := hpadding _ _ fun _ => .true
  exact .array rfl (.items (.more .nil .nil hanswer (.one hcomment .nil htrue)))

theorem minified_reads_commented : ∃ short junk,
    Spells IsNothing nestingLimit short answerArray ∧
      short.length + junk.length = 27 ∧
      cJSONMinify (commentedArray ++ text " // end" ++ [0]) =
        some (short ++ 0 :: (junk ++ [])) ∧
      cJSONParse (short ++ 0 :: (junk ++ [])) = some answerArray := by
  have hafter : IsEnding (text " // end") :=
    ⟨text " ", text "// end", by decide, .blank (by decide) .nil,
      .inr ⟨text " end", by decide, by decide⟩⟩
  exact minified_reads .nil hafter spells_commentedArray
    ⟨trivial, trivial, trivial⟩ (by decide)

/-- The closing quote behind a backslash is overlooked, so a blank in the next
string is lost. -/
example : minify (text "[\"\\\\\", \"a b\"]") = text "[\"\\\\\", \"ab\"]" := by
  decide

end Conveyor.Json
