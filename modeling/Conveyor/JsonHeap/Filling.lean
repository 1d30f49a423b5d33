import Conveyor.JsonHeap.Denotation
import Conveyor.JsonHeap.Parse

/-!
# What the parsers make of an item

Every parser turns an item into the tree of what the parser on texts reads, and
fails beyond that only if an allocation does.  A list of items that is given up
is deleted, so a failure leaves nothing behind.
-/

namespace Conveyor.JsonHeap

open Conveyor.Separation Conveyor.Json Assertion

variable {allocator : Allocator Block} {Value Other : Type}

/-- A parser that fills an item reads what the parser on texts reads, and fails
beyond that only if an allocation does. -/
def Agrees (allocator : Allocator Block) (expected : Option (Value × Text))
    (built : Value → Prop) : Option Text → Prop
  | none => expected = none ∨ allocator.Fails
  | some rest => ∃ value, expected = some (value, rest) ∧ built value

theorem Agrees.map {expected : Option (Value × Text)} {built : Value → Prop}
    {built' : Other → Prop} {convert : Value → Other} {rest : Option Text}
    (hagrees : Agrees allocator expected built rest)
    (hbuilt : ∀ value, built value → built' (convert value)) :
    Agrees allocator
      (expected.map fun parsed => (convert parsed.1, parsed.2)) built' rest := by
  cases rest with
  | none => exact hagrees.imp_left fun hnone => by rw [hnone]; rfl
  | some rest =>
      obtain ⟨value, hexpected, hvalue⟩ := hagrees
      exact ⟨convert value, by rw [hexpected]; rfl, hbuilt value hvalue⟩

/-- An item that a parser was to fill with what the parser on texts reads. -/
def filled (allocator : Allocator Block) (addr : Addr) (name : Option Stored)
    (prev : Ptr) (expected : Option (Value × Text))
    (built : Tree → Value → Prop) (rest : Option Text) : Assertion Block :=
  ⨆ (tree : Tree) (_ : tree.addr = addr ∧ tree.name = name ∧
    Agrees allocator expected (built tree) rest), own tree prev none

/-- What a parser makes of an item that holds nothing but a name and a type. -/
def Fills (allocator : Allocator Block)
    (fill : Ptr → Text → Prog Block (Option Text)) (parse : Parser Value)
    (built : Tree → Value → Prop) : Prop :=
  ∀ addr name type prev input,
    Triple allocator (own (.node addr name (.blank type) []) prev none)
      (fill (some addr) input)
      (filled allocator addr name prev (parse input) built)

/-- What a parser makes of a new item, which may get a name. -/
def FillsNew (allocator : Allocator Block)
    (fill : Ptr → Text → Prog Block (Option Text)) (parse : Parser Value)
    (built : Tree → Value → Prop) : Prop :=
  ∀ addr prev input,
    Triple allocator (own (.node addr none (.blank .invalid) []) prev none)
      (fill (some addr) input) fun rest =>
        ⨆ name, filled allocator addr name prev (parse input) built rest

variable {addr : Addr} {name : Option Stored} {type : Kind} {prev : Ptr}
variable {expected : Option (Value × Text)} {built : Tree → Value → Prop}

theorem own_le_filled {tree : Tree} {rest : Option Text}
    (hagrees : Agrees allocator expected (built tree) rest) :
    own tree prev none ≤
      filled allocator tree.addr tree.name prev expected built rest :=
  le_iSup₂_of_le tree ⟨rfl, rfl, hagrees⟩ le_rfl

theorem filled_map {expected' : Option (Other × Text)}
    {built' : Tree → Other → Prop} (convert : Value → Other) {rest : Option Text}
    (hexpected : expected' =
      expected.map fun parsed => (convert parsed.1, parsed.2))
    (hbuilt : ∀ tree value, tree.name = name → built tree value →
      built' tree (convert value)) :
    filled allocator addr name prev expected built rest ≤
      filled allocator addr name prev expected' built' rest := by
  refine iSup₂_le fun tree htree => ?_
  obtain ⟨rfl, rfl, hagrees⟩ := htree
  rw [hexpected]
  exact own_le_filled (hagrees.map fun value => hbuilt tree value rfl)

/-- A parser that gives up leaves the item as it was. -/
theorem triple_giveUp (hexpected : expected = none ∨ allocator.Fails) :
    Triple allocator (own (.node addr name (.blank type) []) prev none)
      (pure none) (filled allocator addr name prev expected built) :=
  .of_pure (own_le_filled hexpected)

theorem fills_parseNumber :
    Fills allocator parseNumber Json.parseNumber Denotes := by
  intro addr name type prev input
  unfold parseNumber Json.parseNumber
  cases strtod ((input.takeWhile isNumberByte).take 63) with
  | none => exact triple_giveUp (.inl rfl)
  | some parsed =>
      obtain ⟨number, consumed⟩ := parsed
      refine triple_setData ⟨.number, none, number.valueint, number⟩ rfl rfl ?_
      exact .of_pure (own_le_filled ⟨.number number, rfl, .number⟩)

theorem fills_parseKeyword {change : Item → Item} {length : ℕ} (data : Data)
    {value : CJson} (hblank : data.valuestring = none)
    (hchange : ∀ name type prev,
      change (itemOf name (.blank type) [] prev none) =
        itemOf name data [] prev none)
    (hdenotes : ∀ addr name, Denotes (.node addr name data []) value) :
    Fills allocator (parseKeyword change length)
      (fun input => some (value, input.drop length)) Denotes := by
  intro addr name type prev input
  refine triple_setData data (hchange _ _ _) hblank.symm ?_
  exact .of_pure (own_le_filled ⟨value, rfl, hdenotes addr name⟩)

/-! ## Strings -/

/-- What the loop through a literal has written if it came to the end; the parser
on texts comes to the end if this loop does. -/
def Decodes (size : ℕ) (done : Text) (expected : Option Text) (written : Text) :
    Bool → Prop
  | true => ∃ content, expected = some content ∧ written = done ++ content ∧
      written.length < size
  | false => expected = none

theorem Decodes.before {size : ℕ} {done bytes written : Text}
    {expected expected' : Option Text} {finished : Bool}
    (hexpected : expected' = expected.map (bytes ++ ·))
    (hdecodes : Decodes size (done ++ bytes) expected written finished) :
    Decodes size done expected' written finished := by
  subst hexpected
  cases finished with
  | true =>
      obtain ⟨content, rfl, rfl, hlength⟩ := hdecodes
      exact ⟨bytes ++ content, rfl, List.append_assoc _ _ _, hlength⟩
  | false =>
      rw [Decodes] at hdecodes ⊢
      rw [hdecodes, Option.map_none]

/-- A round of the loop that writes some bytes, and the rounds after it. -/
theorem triple_appendDecoded {output : Addr} {size : ℕ} {done bytes : Text}
    (expected : Option Text) {expected' : Option Text} {following : Prog Block Bool}
    (hexpected : expected' = expected.map (bytes ++ ·))
    (hfits : done.length + bytes.length ≤ size)
    (hnext : Triple allocator (cell output (.unfinished size (done ++ bytes)))
      following fun finished => ⨆ (written : Text)
        (_ : Decodes size (done ++ bytes) expected written finished),
        cell output (.unfinished size written)) :
    Triple allocator (cell output (.unfinished size done))
      (appendBytes (some output) bytes >>= fun _ => following)
      fun finished => ⨆ (written : Text)
        (_ : Decodes size done expected' written finished),
        cell output (.unfinished size written) := by
  apply triple_appendBytes 1 (mul_one _).symm hfits
  rw [mul_one]
  apply hnext.weaken
  exact fun finished => iSup₂_mono' fun written hwritten =>
    ⟨written, hwritten.before hexpected, le_rfl⟩

/-- The loop through a literal writes what the parser on texts decodes, and at no
time behind the end of the block. -/
theorem triple_unescapeInto {output : Addr} {size : ℕ} (fuel : ℕ) {done raw : Text}
    (hroom : HasRoom size done raw) :
    Triple allocator (cell output (.unfinished size done))
      (unescapeInto (some output) fuel raw)
      fun finished => ⨆ (written : Text)
        (_ : Decodes size done (unescape fuel raw) written finished),
        cell output (.unfinished size written) := by
  have hstop (finished : Bool) {done : Text} {expected : Option Text}
      (hdecodes : Decodes size done expected done finished) :
      Triple allocator (cell output (.unfinished size done)) (pure finished)
        fun finished => ⨆ (written : Text)
          (_ : Decodes size done expected written finished),
          cell output (.unfinished size written) :=
    .of_pure (le_iSup₂_of_le done hdecodes le_rfl)
  induction fuel generalizing done raw with
  | zero =>
      cases raw with
      | nil =>
          exact hstop true ⟨[], rfl, (List.append_nil done).symm, hroom.length_lt⟩
      | cons first rest => exact hstop false rfl
  | succ fuel ih =>
      have hwrites {bytes rest : Text} {expected' : Option Text}
          (hexpected : expected' = (unescape fuel rest).map (bytes ++ ·))
          (hrest : HasRoom size (done ++ bytes) rest) :
          Triple allocator (cell output (.unfinished size done))
            (appendBytes (some output) bytes >>= fun _ =>
              unescapeInto (some output) fuel rest)
            fun finished => ⨆ (written : Text)
              (_ : Decodes size done expected' written finished),
              cell output (.unfinished size written) := by
        apply triple_appendDecoded _ hexpected ?_ (ih hrest)
        rw [← List.length_append]
        exact hrest.length_lt.le
      cases raw with
      | nil =>
          exact hstop true ⟨[], rfl, (List.append_nil done).symm, hroom.length_lt⟩
      | cons first rest =>
          rw [unescapeInto.eq_def, unescape.eq_def]
          by_cases hfirst : first = byte '\\'
          · subst hfirst
            simp only [ne_eq, not_true_eq_false, if_false]
            cases rest with
            | nil =>
                have hlast := hroom.last (byte '"')
                apply triple_appendDecoded (some []) rfl
                · rw [← List.length_append]
                  exact hlast.length_lt.le
                · exact hstop true ⟨[], rfl, (List.append_nil _).symm,
                    hlast.length_lt⟩
            | cons escape later =>
                by_cases hescape : escape = byte 'u'
                · subst hescape
                  simp only [if_true]
                  cases hconvert : utf16LiteralToUtf8
                      (byte '\\' :: byte 'u' :: later) with
                  | none => exact hstop false rfl
                  | some converted =>
                      exact hwrites rfl (hroom.utf16 hconvert)
                · simp only [hescape, if_false]
                  cases escapeValue escape with
                  | none => exact hstop false rfl
                  | some value => exact hwrites rfl (hroom.escape value)
          · simp only [ne_eq, hfirst, not_false_eq_true, if_true]
            exact hwrites rfl (hroom.plain hfirst)

/-- What `parse_string` makes of an item. -/
def HoldsString (tree : Tree) (content : Text) : Prop :=
  ∃ stored : Stored, stored.content = content ∧ tree.children = [] ∧
    tree.data = { Data.blank .string with valuestring := some stored }

/-- The string goes to the item. -/
theorem triple_hangString {prior : Kind} (stored : Stored)
    {following : Unit → Prog Block Other} {last : Other → Assertion Block}
    (hnext : Triple allocator (own (.node addr name
      { Data.blank .string with valuestring := some stored } []) prev none)
      (following ()) last) :
    Triple allocator (cell stored.addr (.bytes stored.size stored.content) *
        own (.node addr name (.blank prior) []) prev none)
      (update (some addr) (fun content => { content with
        type := .string, valuestring := some stored.addr }) >>= following)
      last := by
  apply Triple.rearrange (own (.node addr name (.blank prior) []) prev none *
    (ownText (some stored) * 1))
  · rw [mul_one, mul_comm]
    rfl
  apply triple_updateTree name
    { Data.blank .string with valuestring := some stored } [] rfl
  · simp only [ownBelow, Data.blank, ownText]
    ac_rfl
  · rwa [mul_one]

theorem fills_parseString :
    Fills allocator parseString Json.parseString HoldsString := by
  intro addr name type prev input
  cases input with
  | nil => exact triple_giveUp (.inl rfl)
  | cons first rest =>
      unfold parseString Json.parseString
      by_cases hfirst : first = byte '"'
      · simp only [hfirst, if_true]
        cases splitLiteral rest with
        | none => exact triple_giveUp (.inl rfl)
        | some literal =>
            obtain ⟨raw, after⟩ := literal
            apply Triple.malloc (fun hfails => triple_giveUp (.inr hfails))
            intro output
            simp only [reduceCtorEq, if_false]
            apply (triple_unescapeInto raw.length (hasRoom_allocated raw)).call _
              rfl
            intro finished
            apply Triple.of_iSup_mul fun written => .of_iSup_mul fun hwritten => ?_
            cases finished with
            | false =>
                simp only [Bool.false_eq_true, if_false]
                have hnone : unescape raw.length raw = none := hwritten
                exact .free _ rfl (triple_giveUp (.inl (by rw [hnone]; rfl)))
            | true =>
                simp only [if_true]
                obtain ⟨content, hcontent, hall, hlength⟩ := hwritten
                rw [List.nil_append] at hall
                subst hall
                apply triple_terminate _ rfl hlength
                apply triple_hangString
                  ⟨output, allocationLength raw + 1, written⟩
                apply Triple.of_pure
                exact own_le_filled ⟨written, by rw [hcontent]; rfl, _, rfl, rfl, rfl⟩
      · simp only [hfirst, if_false]
        exact triple_giveUp (.inl rfl)

/-! ## Lists of items -/

/-- A new item goes to the end of a list without a link back from its head. -/
theorem triple_attach (done : List Tree) (added : Addr) :
    Triple allocator
      (cell added (.item .zero) * seg Tree.addr own done none none)
      (attach (firstPtr Tree.addr done none) (lastPtr Tree.addr none done)
        (some added))
      fun head => ⨆ _ : head = firstPtr Tree.addr done (some added),
        own (.node added none (.blank .invalid) []) (lastPtr Tree.addr none done)
          none * seg Tree.addr own done none (some added) := by
  rw [← own_new]
  obtain rfl | ⟨front, tree, rfl⟩ := List.eq_nil_or_concat done
  · exact .of_pure (le_iSup_of_le rfl le_rfl)
  · have hhead : firstPtr Tree.addr front (some tree.addr) ≠ none :=
      firstPtr_some_ne_none
    rw [List.concat_eq_append, firstPtr_append, firstPtr_append, lastPtr_concat]
    simp only [firstPtr_cons, attach, hhead, if_false]
    rw [seg_concat]
    refine triple_relink tree _ (some added) (own (.node added none
      (.blank .invalid) []) none none * seg Tree.addr own front none
      (some tree.addr)) (by ac_rfl) (fun _ _ _ => rfl) ?_
    refine triple_relink (.node added none (.blank .invalid) [])
      (some tree.addr) none (own tree (lastPtr Tree.addr none front) (some added)
      * seg Tree.addr own front none (some tree.addr)) (by ac_rfl)
      (fun _ _ _ => rfl) ?_
    refine .of_pure (le_iSup_of_le rfl ?_)
    rw [seg_concat]

/-- What the loop returns: the ends of a list with the new items after the old
ones, and the text that is left. -/
def Collects (allocator : Allocator Block) (expected : Option (List Value × Text))
    (built : Tree → Value → Prop) (done trees : List Tree)
    (result : Ptr × Ptr × Option Text) : Prop :=
  result.1 = firstPtr Tree.addr trees none ∧
    result.2.1 = lastPtr Tree.addr none trees ∧
    Agrees allocator expected (fun values => ∃ added, trees = done ++ added ∧
      List.Forall₂ built added values) result.2.2

theorem triple_parseItems {fill : Ptr → Text → Prog Block (Option Text)}
    {parse : Parser Value} {built : Tree → Value → Prop}
    (hfill : FillsNew allocator fill parse built) (fuel : ℕ) (done : List Tree)
    (input : Text) :
    Triple allocator (seg Tree.addr own done none none)
      (parseItems fill fuel (firstPtr Tree.addr done none)
        (lastPtr Tree.addr none done) input)
      fun result => ⨆ (trees : List Tree) (_ : Collects allocator
        (Json.parseItems parse fuel input) built done trees result),
        seg Tree.addr own trees none none := by
  induction fuel generalizing done input with
  | zero =>
      exact .of_pure (le_iSup₂_of_le done ⟨rfl, rfl, .inl rfl⟩ le_rfl)
  | succ fuel ih =>
      refine .malloc (fun hfails => ?_) fun added => ?_
      · exact .of_pure (le_iSup₂_of_le done ⟨rfl, rfl, .inr hfails⟩ le_rfl)
      simp only [reduceCtorEq, if_false]
      refine (triple_attach done added).bind fun head => .of_iSup fun hhead => ?_
      subst hhead
      refine (hfill added (lastPtr Tree.addr none done)
        (bufferSkipWhitespace input)).call _ rfl fun rest => ?_
      refine .of_iSup_mul fun name => .of_iSup_mul fun tree =>
        .of_iSup_mul fun htree => ?_
      obtain ⟨rfl, -, hagrees⟩ := htree
      have hjoin : own tree (lastPtr Tree.addr none done) none *
          seg Tree.addr own done none (some tree.addr) =
          seg Tree.addr own (done ++ [tree]) none none := seg_concat.symm
      have hfirst : firstPtr Tree.addr done (some tree.addr) =
          firstPtr Tree.addr (done ++ [tree]) none := by
        rw [firstPtr_append, firstPtr_cons]
      have hlast : some tree.addr = lastPtr Tree.addr none (done ++ [tree]) :=
        lastPtr_concat.symm
      rw [hjoin]
      cases rest with
      | none => 
          refine .of_pure (le_iSup₂_of_le (done ++ [tree])
            ⟨hfirst, hlast, hagrees.imp_left fun hnone => ?_⟩ le_rfl)
          rw [Json.parseItems, hnone]
      | some rest =>
          obtain ⟨value, hvalue, hbuilt⟩ := hagrees
          have hone : List.Forall₂ built [tree] [value] := .cons hbuilt .nil
          cases hskip : bufferSkipWhitespace rest with
          | nil =>
              simp only [hskip]
              refine .of_pure (le_iSup₂_of_le (done ++ [tree])
                ⟨hfirst, hlast, [value], ?_, [tree], rfl, hone⟩ le_rfl)
              simp [Json.parseItems, hvalue, hskip]
          | cons next more =>
              by_cases hnext : next = byte ','
              · have hmore : Json.parseItems parse (fuel + 1) input =
                    (Json.parseItems parse fuel more).map
                      fun parsed => (value :: parsed.1, parsed.2) := by
                  simp only [Json.parseItems, hvalue, hskip, hnext, if_true]
                  cases Json.parseItems parse fuel more <;> rfl
                simp only [hskip, hnext, if_true, hfirst, hmore]
                rw [hlast]
                refine (ih (done ++ [tree]) more).weaken fun result => ?_
                refine iSup₂_le fun trees htrees => le_iSup₂_of_le trees ?_ le_rfl
                obtain ⟨hhead, hcurrent, hagrees⟩ := htrees
                refine ⟨hhead, hcurrent, hagrees.map fun values hvalues => ?_⟩
                obtain ⟨added, rfl, hadded⟩ := hvalues
                exact ⟨tree :: added, by simp, .cons hbuilt hadded⟩
              · simp only [hskip, hnext, if_false]
                refine .of_pure (le_iSup₂_of_le (done ++ [tree])
                  ⟨hfirst, hlast, [value], ?_, [tree], rfl, hone⟩ le_rfl)
                simp [Json.parseItems, hvalue, hskip, hnext]

/-- What `parse_array` and `parse_object` make of an item. -/
def HoldsItems (type : Kind) (built : Tree → Value → Prop) (tree : Tree)
    (values : List Value) : Prop :=
  tree.data = .blank type ∧ List.Forall₂ built tree.children values

/-- The label `success`: the head leads back to the last item. -/
theorem triple_succeed {type : Kind} {addr : Addr} {name : Option Stored}
    {prior : Kind} {prev : Ptr} (children : List Tree) :
    Triple allocator (own (.node addr name (.blank prior) []) prev none *
        seg Tree.addr own children none none)
      (succeed type (some addr) (firstPtr Tree.addr children none)
        (lastPtr Tree.addr none children))
      fun _ => own (.node addr name (.blank type) children) prev none := by
  have hchild : Triple allocator
      (own (.node addr name (.blank prior) []) prev none *
        (ownChildren children * 1))
      (update (some addr) fun content => { content with
        type := type
        child := firstPtr Tree.addr children none })
      fun _ => own (.node addr name (.blank type) children) prev none := by
    rw [← bind_pure (update _ _)]
    refine triple_updateTree name (.blank type) children rfl ?_ ?_
    · simp only [ownBelow, Data.blank, ownChildren_nil, mul_one]
    · rw [mul_one]
      exact .of_pure le_rfl
  unfold succeed
  cases children with
  | nil =>
      rw [seg, firstPtr_nil, whenOwned_none, pure_bind]
      refine .rearrange _ ?_ hchild
      simp only [ownChildren_nil, mul_one]
  | cons head rest =>
      rw [seg, firstPtr_cons, whenOwned_some]
      refine triple_relink head (lastPtr Tree.addr none (head :: rest)) _
        (own (.node addr name (.blank prior) []) prev none *
          seg Tree.addr own rest (some head.addr) none) (by ac_rfl)
        (fun _ _ _ => rfl) ?_
      refine hchild.consequence ?_ fun _ => le_rfl
      have hring : own head (lastPtr Tree.addr none (head :: rest))
          (firstPtr Tree.addr rest none) *
          seg Tree.addr own rest (some head.addr) none ≤
            ownChildren (head :: rest) :=
        le_iSup₂_of_le _ (.inr rfl) le_rfl
      calc _ = own (.node addr name (.blank prior) []) prev none *
            (own head (lastPtr Tree.addr none (head :: rest))
              (firstPtr Tree.addr rest none) *
              seg Tree.addr own rest (some head.addr) none) := by ac_rfl
        _ ≤ own (.node addr name (.blank prior) []) prev none *
            ownChildren (head :: rest) := mul_le_mul' le_rfl hring
        _ = _ := by rw [mul_one]

/-- A list that is given up is deleted. -/
theorem triple_discard (trees : List Tree) :
    Triple allocator (seg Tree.addr own trees none none)
      (whenOwned true (firstPtr Tree.addr trees none) cJSONDelete)
      (fun _ => 1) := by
  cases trees with
  | nil =>
      rw [firstPtr_nil, whenOwned_none]
      exact .of_pure le_rfl
  | cons tree rest =>
      rw [firstPtr_cons, whenOwned_some]
      exact triple_cJSONDelete (tree :: rest) none

/-- The items and the closing byte are what the parser on texts reads there. -/
theorem triple_parseClosed {fill : Ptr → Text → Prog Block (Option Text)}
    {parse : Parser Value} (hfill : FillsNew allocator fill parse built)
    (closing : UInt8) {type prior : Kind} (fuel : ℕ) (input : Text)
    {expected : Option (List Value × Text)}
    (hexpected : expected = match Json.parseItems parse fuel input with
      | some (values, last :: after) =>
          if last = closing then some (values, after) else none
      | _ => none) :
    Triple allocator (own (.node addr name (.blank prior) []) prev none)
      (parseClosed fill closing type (some addr) fuel input)
      (filled allocator addr name prev expected (HoldsItems type built)) := by
  have hdiscard {trees : List Tree}
      (hexpected : expected = none ∨ allocator.Fails) :
      Triple allocator (own (.node addr name (.blank prior) []) prev none *
          seg Tree.addr own trees none none)
        (whenOwned true (firstPtr Tree.addr trees none) cJSONDelete >>=
          fun _ => pure none)
        (filled allocator addr name prev expected (HoldsItems type built)) := by
    apply (triple_discard trees).call _ (mul_comm _ _)
    intro _
    rw [one_mul]
    exact triple_giveUp hexpected
  apply (triple_parseItems hfill fuel [] input).call
    (own (.node addr name (.blank prior) []) prev none) (by rw [seg, one_mul])
  intro result
  apply Triple.of_iSup_mul fun trees => .of_iSup_mul fun htrees => ?_
  obtain ⟨head, current, rest⟩ := result
  obtain ⟨rfl, rfl, hagrees⟩ := htrees
  rw [mul_comm]
  cases rest with
  | none =>
      apply hdiscard
      exact hagrees.imp_left fun hnone => by rw [hexpected, hnone]
  | some rest =>
      obtain ⟨values, hvalues, added, hall, hadded⟩ := hagrees
      rw [List.nil_append] at hall
      subst hall
      rw [hvalues] at hexpected
      cases rest with
      | nil => exact hdiscard (.inl hexpected)
      | cons last after =>
          by_cases hlast : last = closing
          · simp only [hlast, if_true] at hexpected ⊢
            rw [hexpected]
            apply (triple_succeed trees).bind
            exact fun _ => .of_pure (own_le_filled ⟨values, rfl, rfl, hadded⟩)
          · simp only [hlast, if_false] at hexpected ⊢
            exact hdiscard (.inl hexpected)

theorem fills_parseEnclosed {fill : Ptr → Text → Prog Block (Option Text)}
    {parse : Parser Value} (hfill : FillsNew allocator fill parse built)
    (hend : parse [] = none) (opening closing : UInt8) (type : Kind) :
    Fills allocator (parseEnclosed fill opening closing type)
      (Json.parseEnclosed parse opening closing) (HoldsItems type built) := by
  intro addr name prior prev input
  cases input with
  | nil => exact triple_giveUp (.inl rfl)
  | cons first rest =>
      unfold parseEnclosed Json.parseEnclosed
      by_cases hfirst : first = opening
      · simp only [hfirst, if_true]
        cases bufferSkipWhitespace rest with
        | nil =>
            apply triple_parseClosed hfill closing 1 []
            have hnone : parse (bufferSkipWhitespace []) = none := hend
            rw [Json.parseItems, hnone]
        | cons next more =>
            by_cases hnext : next = closing
            · simp only [hnext, if_true]
              have hempty : Triple allocator
                  (own (.node addr name (.blank prior) []) prev none)
                  (succeed type (some addr) none none)
                  fun _ => own (.node addr name (.blank type) []) prev none := by
                rw [← mul_one (own _ prev none)]
                exact triple_succeed []
              apply hempty.bind
              exact fun _ => .of_pure (own_le_filled ⟨[], rfl, rfl, .nil⟩)
            · simp only [hnext, if_false]
              exact triple_parseClosed hfill closing _ _ rfl
      · simp only [hfirst, if_false]
        exact triple_giveUp (.inl rfl)

end Conveyor.JsonHeap
