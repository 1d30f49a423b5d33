import Conveyor.JsonHeap.Filling

/-!
# The parser in memory refines the parser on texts

Values nest as deep as they may; a whole text gives a tree of the value the
parser on texts reads, or nothing.
-/

namespace Conveyor.JsonHeap

open Conveyor.Separation Conveyor.Json Assertion

variable {allocator : Allocator Block}

theorem fillsNew_element {fill : Ptr → Text → Prog Block (Option Text)}
    {parse : Parser CJson} (hfill : Fills allocator fill parse Denotes) :
    FillsNew allocator fill parse HoldsElement := by
  intro addr prev input
  refine (hfill addr none .invalid prev input).weaken fun rest => ?_
  refine le_iSup_of_le none (filled_map id ?_ ?_)
  · exact Option.map_id.symm ▸ rfl
  · exact fun tree value hname hdenotes => ⟨hname, hdenotes⟩

theorem fillsNew_parseMember {fill : Ptr → Text → Prog Block (Option Text)}
    {parse : Parser CJson} (hfill : Fills allocator fill parse Denotes) :
    FillsNew allocator (parseMember fill) (Json.parseMember parse)
      HoldsMember := by
  intro addr prev input
  unfold parseMember Json.parseMember
  refine (fills_parseString addr none .invalid prev input).bind fun rest => ?_
  refine .of_iSup fun tree => .of_iSup fun htree => ?_
  obtain ⟨rfl, hname, hagrees⟩ := htree
  cases rest with
  | none =>
      refine .of_pure (le_iSup_of_le tree.name (own_le_filled ?_))
      exact hagrees.imp_left fun hnone => by rw [hnone]
  | some rest =>
      obtain ⟨content, hcontent, stored, rfl, hchildren, hdata⟩ := hagrees
      obtain ⟨addr, name, data, children⟩ := tree
      subst hname hchildren hdata
      simp only [hcontent]
      refine .rearrange (own (.node addr none { Data.blank .string with
        valuestring := some stored } []) prev none * (1 * 1))
        (by rw [mul_one, mul_one]) ?_
      refine triple_updateTree (some stored) (.blank .string) [] rfl ?_ ?_
      · simp only [ownBelow, Data.blank, mul_one]
        ac_rfl
      rw [mul_one]
      cases bufferSkipWhitespace rest with
      | nil =>
          exact .of_pure (le_iSup_of_le (some stored) (own_le_filled (.inl rfl)))
      | cons colon more =>
          by_cases hcolon : colon = byte ':'
          · simp only [hcolon, if_true]
            refine (hfill addr (some stored) .string prev
              (bufferSkipWhitespace more)).weaken fun rest => ?_
            refine le_iSup_of_le (some stored)
              (filled_map (fun value => (stored.content, value)) ?_ ?_)
            · cases parse (bufferSkipWhitespace more) <;> rfl
            · exact fun tree value hname hdenotes =>
                ⟨by rw [hname]; rfl, hdenotes⟩
          · simp only [hcolon, if_false]
            exact .of_pure (le_iSup_of_le (some stored)
              (own_le_filled (.inl rfl)))

theorem fills_parseArray {fill : Ptr → Text → Prog Block (Option Text)}
    {parse : Parser CJson} (hfill : Fills allocator fill parse Denotes)
    (hend : parse [] = none) :
    Fills allocator (parseArray fill) (Json.parseArray parse) Denotes := by
  intro addr name type prev input
  refine (fills_parseEnclosed (fillsNew_element hfill) hend (byte '[')
    (byte ']') .array addr name type prev input).weaken fun rest => ?_
  refine filled_map CJson.array rfl fun tree values _ hitems => ?_
  obtain ⟨addr, name, data, children⟩ := tree
  obtain ⟨rfl, hchildren⟩ := hitems
  obtain ⟨hnames, hdenotes⟩ := (List.forall₂_and_left _ _).mp hchildren
  exact .array hnames hdenotes

theorem fills_parseObject {fill : Ptr → Text → Prog Block (Option Text)}
    {parse : Parser CJson} (hfill : Fills allocator fill parse Denotes) :
    Fills allocator (parseObject fill) (Json.parseObject parse) Denotes := by
  intro addr name type prev input
  refine (fills_parseEnclosed (fillsNew_parseMember hfill) rfl (byte '\x7b')
    (byte '\x7d') .object addr name type prev input).weaken fun rest => ?_
  refine filled_map CJson.object rfl fun tree members _ hitems => ?_
  obtain ⟨addr, name, data, children⟩ := tree
  obtain ⟨rfl, hchildren⟩ := hitems
  refine .object ?_ ?_
  · rw [← List.forall₂_eq_eq_eq, List.forall₂_map_left_iff,
      List.forall₂_map_right_iff]
    exact hchildren.imp fun _ _ hmember => hmember.1
  · rw [List.forall₂_map_right_iff]
    exact hchildren.imp fun _ _ hmember => hmember.2

/-- A parser for nested values, if there is one, fills like the one on texts, and
at the end of the text there is nothing to read. -/
def NestedFills (allocator : Allocator Block) :
    Option (Ptr → Text → Prog Block (Option Text)) → Option (Parser CJson) →
      Prop
  | none, none => True
  | some fill, some parse => Fills allocator fill parse Denotes ∧ parse [] = none
  | _, _ => False

theorem fills_parseByFirstByte
    {nestedFill : Option (Ptr → Text → Prog Block (Option Text))}
    {nested : Option (Parser CJson)}
    (hnested : NestedFills allocator nestedFill nested) :
    Fills allocator (parseByFirstByte nestedFill) (Json.parseByFirstByte nested)
      Denotes := by
  intro addr name type prev input
  cases input with
  | nil => exact triple_giveUp (.inl rfl)
  | cons first rest =>
      by_cases hquote : first = byte '"'
      · simp only [parseByFirstByte, Json.parseByFirstByte, hquote, if_true]
        refine (fills_parseString addr name type prev _).weaken fun rest => ?_
        refine filled_map CJson.string rfl fun tree content _ hstring => ?_
        obtain ⟨addr, name, data, children⟩ := tree
        obtain ⟨stored, rfl, hchildren, hdata⟩ := hstring
        subst hchildren hdata
        exact .string
      by_cases hnumber : first = byte '-' ∨ isDigit first
      · simp only [parseByFirstByte, Json.parseByFirstByte, hquote, hnumber,
          if_false, if_true]
        exact fills_parseNumber addr name type prev _
      simp only [parseByFirstByte, Json.parseByFirstByte, hquote, hnumber,
        if_false]
      cases nestedFill with
      | none =>
          cases nested with
          | none => exact triple_giveUp (.inl rfl)
          | some parse => exact hnested.elim
      | some fill =>
          cases nested with
          | none => exact hnested.elim
          | some parse =>
              by_cases hbracket : first = byte '['
              · simp only [hbracket, if_true]
                exact fills_parseArray hnested.1 hnested.2 addr name type prev _
              by_cases hbrace : first = byte '\x7b'
              · simp only [hbrace, if_true]
                exact fills_parseObject hnested.1 addr name type prev _
              · simp only [hbracket, hbrace, if_false]
                exact triple_giveUp (.inl rfl)

theorem fills_parseValueWith
    (nestedFill : Option (Ptr → Text → Prog Block (Option Text)))
    (nested : Option (Parser CJson))
    (hnested : NestedFills allocator nestedFill nested) :
    Fills allocator (parseValueWith nestedFill) (Json.parseValueWith nested)
      Denotes := by
  intro addr name type prev input
  unfold parseValueWith Json.parseValueWith
  split
  · exact fills_parseKeyword (.blank .null) rfl (fun _ _ _ => rfl)
      (fun _ _ => .null) addr name type prev input
  split
  · exact fills_parseKeyword (.blank .false) rfl (fun _ _ _ => rfl)
      (fun _ _ => .false) addr name type prev input
  split
  · exact fills_parseKeyword { Data.blank .true with valueint := 1 }
      rfl (fun _ _ _ => rfl) (fun _ _ => .true) addr name type prev input
  · exact fills_parseByFirstByte hnested addr name type prev input

theorem parseValue_nil (levels : ℕ) : Json.parseValue levels [] = none := by
  cases levels <;> rfl

theorem fills_parseValue (levels : ℕ) :
    Fills allocator (parseValue levels) (Json.parseValue levels) Denotes := by
  induction levels with
  | zero => exact fills_parseValueWith none none trivial
  | succ levels ih =>
      exact fills_parseValueWith (some (parseValue levels))
        (some (Json.parseValue levels)) ⟨ih, parseValue_nil levels⟩

/-! ## Whole texts -/

/-- What `cJSON_ParseWithOpts` accepts: with `require_null_terminated` only
whitespace may follow the value. -/
def parseWithOpts (value : Text) (requireNullTerminated : Bool) :
    Option CJson :=
  match Json.parseValue nestingLimit
      (bufferSkipWhitespace (skipUtf8Bom (cString value))) with
  | none => none
  | some (item, rest) =>
      if requireNullTerminated ∧ bufferSkipWhitespace rest ≠ [] then none
      else some item

theorem parseWithOpts_false (value : Text) :
    parseWithOpts value false = Json.cJSONParse value := by
  unfold parseWithOpts Json.cJSONParse
  cases Json.parseValue nestingLimit
    (bufferSkipWhitespace (skipUtf8Bom (cString value))) <;> simp

/-- A tree for the value, or NULL and nothing: the text is not accepted or an
allocation failed. -/
def Parsed (allocator : Allocator Block) (expected : Option CJson) :
    Ptr → Assertion Block
  | none => ⨆ _ : expected = none ∨ allocator.Fails, 1
  | some addr =>
      ⨆ (tree : Tree) (_ : tree.addr = addr ∧
        ∃ value, expected = some value ∧ Denotes tree value), own tree none none

/-- The parser in memory refines the parser on texts.  It follows no pointer it
should not, writes past no block and, if it fails, leaves no block behind. -/
theorem triple_cJSONParseWithOpts (value : Text)
    (requireNullTerminated : Bool) :
    Triple allocator 1 (cJSONParseWithOpts value requireNullTerminated)
      (Parsed allocator (parseWithOpts value requireNullTerminated)) := by
  have hreject {tree : Tree}
      (hexpected : parseWithOpts value requireNullTerminated = none ∨
        allocator.Fails) :
      Triple allocator (own tree none none)
        (cJSONDelete (some tree.addr) >>= fun _ => pure none)
        (Parsed allocator (parseWithOpts value requireNullTerminated)) :=
    (triple_cJSONDelete_tree tree none).bind fun _ =>
      .of_pure (le_iSup_of_le hexpected le_rfl)
  refine .malloc (fun hfails => ?_) fun addr => ?_
  · exact .of_pure (le_iSup_of_le (.inr hfails) le_rfl)
  simp only [reduceCtorEq, if_false]
  rw [mul_one, ← own_new]
  refine (fills_parseValue nestingLimit addr none .invalid none _).bind
    fun rest => .of_iSup fun tree => .of_iSup fun htree => ?_
  obtain ⟨rfl, -, hagrees⟩ := htree
  cases rest with
  | none =>
      refine hreject (hagrees.imp_left fun hnone => ?_)
      rw [parseWithOpts, hnone]
  | some rest =>
      obtain ⟨item, hitem, hdenotes⟩ := hagrees
      simp only
      split
      · rename_i hmore
        refine hreject (.inl ?_)
        simp [parseWithOpts, hitem, hmore]
      · rename_i hmore
        refine .of_pure (le_iSup₂_of_le tree ⟨rfl, item, ?_, hdenotes⟩ le_rfl)
        simp only [parseWithOpts, hitem, hmore, if_false]

/-- On every heap the parser ends without misuse.  It returns NULL and leaves
nothing behind, or it returns a tree of the value next to what was there. -/
theorem cJSONParseWithOpts_refines (allocator : Allocator Block) (value : Text)
    (requireNullTerminated : Bool) (memory : Memory Block) :
    ∃ root final, cJSONParseWithOpts value requireNullTerminated allocator
        memory = .ok (root, final) ∧
      match root with
      | none => final.heap = memory.heap ∧
          (parseWithOpts value requireNullTerminated = none ∨ allocator.Fails)
      | some addr => ∃ tree item, tree.addr = addr ∧
          parseWithOpts value requireNullTerminated = some item ∧
          Denotes tree item ∧
          (own tree none none * exactly memory.heap) final.heap := by
  obtain ⟨root, final, hrun, hfinal⟩ :=
    triple_cJSONParseWithOpts value requireNullTerminated
      (.exactly memory.heap) memory (one_mul_exactly_apply.mpr rfl)
  refine ⟨root, final, hrun, ?_⟩
  cases root with
  | none =>
      obtain ⟨hreject, hheap⟩ := iSup_mul_apply.mp hfinal
      exact ⟨one_mul_exactly_apply.mp hheap, hreject⟩
  | some addr =>
      obtain ⟨tree, hfinal⟩ := iSup_mul_apply.mp hfinal
      obtain ⟨⟨haddr, item, hitem, hdenotes⟩, hheap⟩ := iSup_mul_apply.mp hfinal
      exact ⟨tree, item, haddr, hitem, hdenotes, hheap⟩

/-- Whatever was allocated, deleting what the parser returns frees it. -/
theorem cJSONDelete_parsed (allocator : Allocator Block) (value : Text)
    (requireNullTerminated : Bool) (memory : Memory Block) :
    ∃ final, (cJSONParseWithOpts value requireNullTerminated >>= cJSONDelete)
        allocator memory = .ok ((), final) ∧ final.heap = memory.heap := by
  have htriple : Triple allocator 1
      (cJSONParseWithOpts value requireNullTerminated >>= cJSONDelete)
      fun _ => ⨆ _ : True, 1 := by
    refine (triple_cJSONParseWithOpts value requireNullTerminated).bind
      fun root => ?_
    cases root with
    | none =>
        refine .of_iSup fun _ => (triple_cJSONDelete [] none).consequence ?_ ?_
        · exact le_rfl
        · exact fun _ => le_iSup_of_le trivial le_rfl
    | some addr =>
        refine .of_iSup fun tree => .of_iSup fun htree => ?_
        obtain ⟨rfl, -⟩ := htree
        exact (triple_cJSONDelete_tree tree none).weaken
          fun _ => le_iSup_of_le trivial le_rfl
  obtain ⟨_, final, hrun, -, hheap⟩ := htriple.run_closed memory
  exact ⟨final, hrun, hheap⟩

theorem triple_cJSONParse (value : Text) :
    Triple allocator 1 (cJSONParse value)
      (Parsed allocator (Json.cJSONParse value)) := by
  rw [← parseWithOpts_false]
  exact triple_cJSONParseWithOpts value false

end Conveyor.JsonHeap
