import Conveyor.Text
import Mathlib.Algebra.Group.Nat.Defs

/-!
# Minifying texts

`cJSON_Minify` takes the blanks and comments out of a text, in place.  The text
is written from the start of the buffer while it is read further on, so what is
written never meets what is still to be read.
-/

namespace Conveyor.Json

/-! ## On texts -/

/-- `skip_oneline_comment`, behind the slashes. -/
def skipOnelineComment : Text → Text
  | [] => []
  | first :: rest => if first = byte '\n' then rest else skipOnelineComment rest

/-- `skip_multiline_comment`, behind the first star. -/
def skipMultilineComment : Text → Text
  | [] => []
  | first :: rest =>
      if first = byte '*' ∧ rest.head? = some (byte '/') then rest.tail
      else skipMultilineComment rest

/-- Behind a slash there is a comment, or the slash is left out. -/
def skipComment (rest : Text) : Text :=
  if rest.head? = some (byte '/') then skipOnelineComment rest.tail
  else if rest.head? = some (byte '*') then skipMultilineComment rest.tail
  else rest

/-- `minify_string`, behind the opening quote: what is copied and what is left. -/
def minifyString : Text → Text × Text
  | [] => ([], [])
  | [first] => ([first], [])
  | first :: second :: rest =>
      if first = byte '"' then ([first], second :: rest)
      else if first = byte '\\' ∧ second = byte '"' then
        (first :: second :: (minifyString rest).1, (minifyString rest).2)
      else
        (first :: (minifyString (second :: rest)).1,
          (minifyString (second :: rest)).2)

def isBlankByte (character : UInt8) : Bool :=
  character = byte ' ' || character = byte '\t' || character = byte '\r' ||
    character = byte '\n'

/-- The loop of `cJSON_Minify`; no round of it reads nothing. -/
def minifyWith : ℕ → Text → Text
  | 0, _ => []
  | _ + 1, [] => []
  | fuel + 1, first :: rest =>
      if isBlankByte first then minifyWith fuel rest
      else if first = byte '/' then minifyWith fuel (skipComment rest)
      else if first = byte '"' then
        first :: ((minifyString rest).1 ++ minifyWith fuel (minifyString rest).2)
      else first :: minifyWith fuel rest

/-- The text that is left of a string. -/
def minify (content : Text) : Text := minifyWith content.length content

/-! ## In a buffer -/

/-- A byte is written, unless it is outside the buffer. -/
def storeByte (bytes : Text) (index : ℕ) (character : UInt8) : Option Text :=
  if index < bytes.length then some (bytes.set index character) else none

/-- The loop of `skip_oneline_comment`. -/
def skipOnelineAt : ℕ → Text → ℕ → Option ℕ
  | 0, _, _ => none
  | fuel + 1, bytes, input => do
      let first ← bytes[input]?
      if first = 0 then return input
      else if first = byte '\n' then return input + 1
      else skipOnelineAt fuel bytes (input + 1)

/-- The loop of `skip_multiline_comment`. -/
def skipMultilineAt : ℕ → Text → ℕ → Option ℕ
  | 0, _, _ => none
  | fuel + 1, bytes, input => do
      let first ← bytes[input]?
      if first = 0 then return input
      else if first = byte '*' then
        let second ← bytes[input + 1]?
        if second = byte '/' then return input + 2
        else skipMultilineAt fuel bytes (input + 1)
      else skipMultilineAt fuel bytes (input + 1)

/-- The case of a slash in `cJSON_Minify`. -/
def skipCommentAt (fuel : ℕ) (bytes : Text) (json : ℕ) : Option ℕ := do
  let second ← bytes[json + 1]?
  if second = byte '/' then skipOnelineAt fuel bytes (json + 2)
  else if second = byte '*' then skipMultilineAt fuel bytes (json + 2)
  else return json + 1

/-- The loop of `minify_string`: the buffer and where both pointers are. -/
def minifyStringAt : ℕ → Text → ℕ → ℕ → Option (Text × ℕ × ℕ)
  | 0, _, _, _ => none
  | fuel + 1, bytes, input, output => do
      let first ← bytes[input]?
      if first = 0 then return (bytes, input, output)
      else
        let bytes ← storeByte bytes output first
        if first = byte '"' then return (bytes, input + 1, output + 1)
        else if first = byte '\\' then
          let second ← bytes[input + 1]?
          if second = byte '"' then
            let bytes ← storeByte bytes (output + 1) second
            minifyStringAt fuel bytes (input + 2) (output + 2)
          else minifyStringAt fuel bytes (input + 1) (output + 1)
        else minifyStringAt fuel bytes (input + 1) (output + 1)

/-- The loop of `cJSON_Minify`, with its two pointers. -/
def minifyAt : ℕ → Text → ℕ → ℕ → Option Text
  | 0, _, _, _ => none
  | fuel + 1, bytes, json, into => do
      let first ← bytes[json]?
      if first = 0 then storeByte bytes into 0
      else if isBlankByte first then minifyAt fuel bytes (json + 1) into
      else if first = byte '/' then
        let next ← skipCommentAt (fuel + 1) bytes json
        minifyAt fuel bytes next into
      else if first = byte '"' then
        let bytes ← storeByte bytes into first
        let (bytes, next, written) ← minifyStringAt (fuel + 1) bytes (json + 1)
          (into + 1)
        minifyAt fuel bytes next written
      else
        let bytes ← storeByte bytes into first
        minifyAt fuel bytes (json + 1) (into + 1)

/-- The buffer afterwards; each loop has at most as many rounds as bytes. -/
def cJSONMinify (bytes : Text) : Option Text :=
  minifyAt (bytes.length + 1) bytes 0 0

/-! ## The rest gets shorter -/

theorem length_skipOnelineComment (content : Text) :
    (skipOnelineComment content).length ≤ content.length := by
  induction content with
  | nil => exact le_rfl
  | cons first rest ih =>
      rw [skipOnelineComment, List.length_cons]
      split <;> omega

theorem length_skipMultilineComment (content : Text) :
    (skipMultilineComment content).length ≤ content.length := by
  induction content with
  | nil => exact le_rfl
  | cons first rest ih =>
      rw [skipMultilineComment, List.length_cons]
      split
      · rw [List.length_tail]
        omega
      · omega

theorem length_skipComment (content : Text) :
    (skipComment content).length ≤ content.length := by
  have honeline := length_skipOnelineComment content.tail
  have hmultiline := length_skipMultilineComment content.tail
  rw [List.length_tail] at honeline hmultiline
  unfold skipComment
  split
  · omega
  · split <;> omega

/-- Every byte that `minify_string` reads is copied. -/
theorem minifyString_append (content : Text) :
    (minifyString content).1 ++ (minifyString content).2 = content := by
  fun_induction minifyString content with
  | case1 | case2 | case3 => rfl
  | case4 first second rest hquote hescaped ih =>
      rw [List.cons_append, List.cons_append, ih]
  | case5 first second rest hquote hescaped ih => rw [List.cons_append, ih]

theorem length_minifyString (content : Text) :
    (minifyString content).2.length ≤ content.length := by
  have hlength := congrArg List.length (minifyString_append content)
  rw [List.length_append] at hlength
  omega

theorem minifyWith_enough {fuel more : ℕ} {content : Text}
    (hfuel : content.length ≤ fuel) (hmore : content.length ≤ more) :
    minifyWith fuel content = minifyWith more content := by
  induction fuel generalizing more content with
  | zero =>
      obtain rfl := List.length_eq_zero_iff.mp (Nat.le_zero.mp hfuel)
      cases more <;> rfl
  | succ fuel ih =>
      cases content with
      | nil => cases more <;> rfl
      | cons first rest =>
          rw [List.length_cons] at hfuel hmore
          obtain ⟨more, rfl⟩ := Nat.exists_eq_add_of_le' (Nat.one_le_of_lt hmore)
          have hcomment := length_skipComment rest
          have hstring := length_minifyString rest
          simp only [minifyWith]
          rw [ih (by omega) (by omega : rest.length ≤ more),
            ih (by omega) (by omega : (skipComment rest).length ≤ more),
            ih (by omega) (by omega : (minifyString rest).2.length ≤ more)]

/-! ## Reading and writing with a gap between -/

/-- A byte behind what is written and the gap. -/
theorem getElem_behind (done gap : Text) (first : UInt8) (rest : Text) :
    (done ++ (gap ++ first :: rest))[done.length + gap.length]? = some first := by
  rw [List.getElem?_append_right (Nat.le_add_right _ _), Nat.add_sub_cancel_left,
    List.getElem?_append_right le_rfl, Nat.sub_self]
  rfl

/-- The first byte behind the gap moves in front of it. -/
theorem storeByte_behind (done gap : Text) (first : UInt8) (rest : Text) :
    ∃ gap', gap'.length = gap.length ∧
      storeByte (done ++ (gap ++ first :: rest)) done.length first =
        some (done ++ [first] ++ (gap' ++ rest)) := by
  refine ⟨(gap ++ [first]).tail, by simp, ?_⟩
  have hinside : done.length < (done ++ (gap ++ first :: rest)).length := by
    simp only [List.length_append, List.length_cons]
    omega
  rw [storeByte, if_pos hinside, List.set_append_right _ _ le_rfl,
    Nat.sub_self]
  cases gap with
  | nil => simp
  | cons old gap => simp

/-! ## The loops in the buffer -/

variable {fuel : ℕ} {content more : Text}

theorem getElem_front (front : Text) (first : UInt8) (rest : Text) :
    (front ++ first :: rest)[front.length]? = some first := by
  rw [List.getElem?_append_right le_rfl, Nat.sub_self]
  rfl

theorem getElem_next (front : Text) (first second : UInt8) (rest : Text) :
    (front ++ first :: second :: rest)[front.length + 1]? = some second := by
  have hread := getElem_front (front ++ [first]) second rest
  rwa [List.append_assoc, List.length_append] at hread

theorem skipOnelineAt_eq (front : Text) (hnul : (0 : UInt8) ∉ content)
    (hfuel : content.length < fuel) : ∃ skipped,
      content = skipped ++ skipOnelineComment content ∧
      skipOnelineAt fuel (front ++ (content ++ 0 :: more)) front.length =
        some (front ++ skipped).length := by
  induction content generalizing fuel front with
  | nil =>
      obtain ⟨fuel, rfl⟩ := Nat.exists_eq_succ_of_ne_zero (Nat.ne_zero_of_lt hfuel)
      refine ⟨[], rfl, ?_⟩
      rw [skipOnelineAt, List.nil_append, getElem_front, List.append_nil]
      rfl
  | cons first rest ih =>
      obtain ⟨fuel, rfl⟩ := Nat.exists_eq_succ_of_ne_zero (Nat.ne_zero_of_lt hfuel)
      obtain ⟨hfirst, hrest⟩ := List.ne_and_not_mem_of_not_mem_cons hnul
      rw [skipOnelineAt, List.cons_append, getElem_front, skipOnelineComment]
      simp only [Option.bind_eq_bind, Option.bind_some, hfirst.symm, if_false]
      by_cases hend : first = byte '\n'
      · rw [if_pos hend, if_pos hend]
        exact ⟨[first], rfl, by simp⟩
      · rw [if_neg hend, if_neg hend]
        obtain ⟨skipped, hskipped, hrun⟩ :=
          ih (front ++ [first]) hrest (Nat.lt_of_succ_lt_succ hfuel)
        refine ⟨first :: skipped, by rw [List.cons_append, ← hskipped], ?_⟩
        simpa using hrun

theorem skipMultilineAt_eq (front : Text) (hnul : (0 : UInt8) ∉ content)
    (hfuel : content.length < fuel) : ∃ skipped,
      content = skipped ++ skipMultilineComment content ∧
      skipMultilineAt fuel (front ++ (content ++ 0 :: more)) front.length =
        some (front ++ skipped).length := by
  induction content generalizing fuel front with
  | nil =>
      obtain ⟨fuel, rfl⟩ := Nat.exists_eq_succ_of_ne_zero (Nat.ne_zero_of_lt hfuel)
      refine ⟨[], rfl, ?_⟩
      rw [skipMultilineAt, List.nil_append, getElem_front, List.append_nil]
      rfl
  | cons first rest ih =>
      obtain ⟨fuel, rfl⟩ := Nat.exists_eq_succ_of_ne_zero (Nat.ne_zero_of_lt hfuel)
      obtain ⟨hfirst, hrest⟩ := List.ne_and_not_mem_of_not_mem_cons hnul
      obtain ⟨skipped, hskipped, hrun⟩ :=
        ih (front ++ [first]) hrest (Nat.lt_of_succ_lt_succ hfuel)
      have hlater : ∃ skipped,
          first :: rest = skipped ++ skipMultilineComment rest ∧
          skipMultilineAt fuel (front ++ first :: (rest ++ 0 :: more))
            (front.length + 1) = some (front ++ skipped).length := by
        refine ⟨first :: skipped, by rw [List.cons_append, ← hskipped], ?_⟩
        simpa using hrun
      rw [skipMultilineAt, List.cons_append, getElem_front, skipMultilineComment]
      simp only [Option.bind_eq_bind, Option.bind_some, hfirst.symm, if_false]
      by_cases hstar : first = byte '*'
      · cases rest with
        | nil =>
            have hend : (0 : UInt8) ≠ byte '/' := by decide
            rw [List.nil_append] at hlater ⊢
            simpa [hstar, getElem_next, hend] using hlater
        | cons second rest =>
            rw [List.cons_append] at hlater ⊢
            by_cases hslash : second = byte '/'
            · refine ⟨[first, second], by simp [hstar, hslash], ?_⟩
              simp [hstar, hslash]
            · simpa [hstar, getElem_next, hslash] using hlater
      · simpa [hstar] using hlater

theorem skipCommentAt_eq (front : Text) (hnul : (0 : UInt8) ∉ content)
    (hfuel : content.length < fuel) : ∃ skipped,
      content = skipped ++ skipComment content ∧
      skipCommentAt fuel (front ++ byte '/' :: (content ++ 0 :: more))
        front.length = some (front.length + 1 + skipped.length) := by
  cases content with
  | nil =>
      have hone : (0 : UInt8) ≠ byte '/' := by decide
      have hmulti : (0 : UInt8) ≠ byte '*' := by decide
      refine ⟨[], rfl, ?_⟩
      rw [skipCommentAt, List.nil_append, getElem_next]
      simp [hone, hmulti]
  | cons second rest =>
      obtain ⟨-, hrest⟩ := List.ne_and_not_mem_of_not_mem_cons hnul
      have hbytes : front ++ byte '/' :: second :: (rest ++ 0 :: more) =
          front ++ [byte '/', second] ++ (rest ++ 0 :: more) := by
        rw [List.append_assoc]
        rfl
      have hfront : front.length + 2 = (front ++ [byte '/', second]).length := by
        rw [List.length_append]
        rfl
      rw [skipCommentAt, List.cons_append, getElem_next, skipComment,
        List.head?_cons, List.tail_cons]
      simp only [Option.bind_eq_bind, Option.bind_some, Option.some.injEq]
      by_cases honeline : second = byte '/'
      · rw [if_pos honeline, if_pos honeline]
        obtain ⟨skipped, hskipped, hrun⟩ := skipOnelineAt_eq
          (front ++ [byte '/', second]) hrest (Nat.lt_of_succ_lt hfuel)
        refine ⟨second :: skipped, by rw [List.cons_append, ← hskipped], ?_⟩
        rw [hbytes, hfront, hrun, List.length_append, ← hfront, List.length_cons]
        congr 1
        omega
      rw [if_neg honeline, if_neg honeline]
      by_cases hmultiline : second = byte '*'
      · rw [if_pos hmultiline, if_pos hmultiline]
        obtain ⟨skipped, hskipped, hrun⟩ := skipMultilineAt_eq
          (front ++ [byte '/', second]) hrest (Nat.lt_of_succ_lt hfuel)
        refine ⟨second :: skipped, by rw [List.cons_append, ← hskipped], ?_⟩
        rw [hbytes, hfront, hrun, List.length_append, ← hfront, List.length_cons]
        congr 1
        omega
      · rw [if_neg hmultiline, if_neg hmultiline]
        exact ⟨[], rfl, rfl⟩

/-- A round of `minify_string` that copies one byte. -/
theorem minifyStringAt_copy (fuel : ℕ) (done gap : Text) {first : UInt8}
    (second : UInt8) (tail : Text) (hfirst : first ≠ 0) : ∃ gap', gap'.length = gap.length ∧
      minifyStringAt (fuel + 1) (done ++ (gap ++ first :: second :: tail))
          (done.length + gap.length) done.length =
        if first = byte '"' then
          some (done ++ [first] ++ (gap' ++ second :: tail),
            (done ++ [first]).length + gap'.length, (done ++ [first]).length)
        else if first = byte '\\' ∧ second = byte '"' then
          (storeByte (done ++ [first] ++ (gap' ++ second :: tail))
            (done ++ [first]).length second).bind fun bytes =>
              minifyStringAt fuel bytes (done.length + gap.length + 2)
                (done.length + 2)
        else
          minifyStringAt fuel (done ++ [first] ++ (gap' ++ second :: tail))
            ((done ++ [first]).length + gap'.length) (done ++ [first]).length := by
  obtain ⟨gap', hgap, hstore⟩ := storeByte_behind done gap first (second :: tail)
  have hlength : (done ++ [first]).length = done.length + 1 := List.length_append
  have hindex : (done ++ [first]).length + gap'.length =
      done.length + gap.length + 1 := by
    omega
  have hsecond : (done ++ [first] ++ (gap' ++ second :: tail))[
      done.length + gap.length + 1]? = some second := by
    rw [← hindex]
    exact getElem_behind _ gap' second tail
  refine ⟨gap', hgap, ?_⟩
  rw [minifyStringAt, getElem_behind]
  simp only [Option.bind_eq_bind, Option.bind_some, hfirst, if_false, hstore]
  by_cases hquote : first = byte '"'
  · rw [if_pos hquote, if_pos hquote, hindex, hlength]
    rfl
  rw [if_neg hquote, if_neg hquote]
  by_cases hslash : first = byte '\\'
  · rw [if_pos hslash, hsecond, Option.bind_some]
    by_cases hescaped : second = byte '"'
    · rw [if_pos hescaped, if_pos ⟨hslash, hescaped⟩, hlength]
    · rw [if_neg hescaped, if_neg (fun hboth => hescaped hboth.2), hindex, hlength]
  · rw [if_neg hslash, if_neg (fun hboth => hslash hboth.1), hindex, hlength]

/-- `minify_string` writes what it copies, and the gap stays as long. -/
theorem minifyStringAt_eq (done gap : Text) (hnul : (0 : UInt8) ∉ content)
    (hfuel : content.length < fuel) : ∃ gap', gap'.length = gap.length ∧
      minifyStringAt fuel (done ++ (gap ++ (content ++ 0 :: more)))
          (done.length + gap.length) done.length =
        some (done ++ (minifyString content).1 ++
            (gap' ++ ((minifyString content).2 ++ 0 :: more)),
          (done ++ (minifyString content).1).length + gap'.length,
          (done ++ (minifyString content).1).length) := by
  obtain ⟨fuel, rfl⟩ := Nat.exists_eq_succ_of_ne_zero (Nat.ne_zero_of_lt hfuel)
  fun_induction minifyString content generalizing fuel done gap with
  | case1 =>
      refine ⟨gap, rfl, ?_⟩
      rw [minifyStringAt, List.nil_append, getElem_behind]
      simp
  | case2 first =>
      have hfirst : first ≠ 0 := fun heq => hnul (List.mem_singleton.mpr heq.symm)
      obtain ⟨fuel, rfl⟩ := Nat.exists_eq_succ_of_ne_zero
        (Nat.ne_zero_of_lt (Nat.lt_of_succ_lt_succ hfuel))
      obtain ⟨gap', hgap, hcopy⟩ :=
        minifyStringAt_copy (fuel + 1) done gap 0 more hfirst
      have hend : ¬(first = byte '\\' ∧ (0 : UInt8) = byte '"') :=
        fun hboth => absurd hboth.2 (by decide)
      refine ⟨gap', hgap, hcopy.trans ?_⟩
      rw [if_neg hend, minifyStringAt, getElem_behind]
      split <;> simp
  | case3 second rest =>
      obtain ⟨gap', hgap, hcopy⟩ := minifyStringAt_copy fuel done gap second
        (rest ++ 0 :: more) (show byte '"' ≠ 0 by decide)
      exact ⟨gap', hgap, hcopy.trans (if_pos rfl)⟩
  | case4 first second rest hquote hescaped ih =>
      obtain ⟨rfl, rfl⟩ := hescaped
      obtain ⟨gap', hgap, hcopy⟩ := minifyStringAt_copy fuel done gap (byte '"')
        (rest ++ 0 :: more) (show byte '\\' ≠ 0 by decide)
      rw [if_neg hquote, if_pos ⟨rfl, rfl⟩] at hcopy
      obtain ⟨gap'', hgap', hstore⟩ := storeByte_behind (done ++ [byte '\\']) gap'
        (byte '"') (rest ++ 0 :: more)
      have hoffset : done.length + 2 =
          (done ++ [byte '\\'] ++ [byte '"']).length := by
        simp
      have hindex : done.length + gap.length + 2 =
          (done ++ [byte '\\'] ++ [byte '"']).length + gap''.length := by
        omega
      rw [hstore, Option.bind_some, hindex, hoffset] at hcopy
      rw [List.length_cons, List.length_cons] at hfuel
      obtain ⟨fuel, rfl⟩ := Nat.exists_eq_succ_of_ne_zero
        (Nat.ne_zero_of_lt (Nat.lt_of_succ_lt_succ hfuel))
      obtain ⟨last, hlast, hrun⟩ := ih (done ++ [byte '\\'] ++ [byte '"']) gap''
        (fun hmem => hnul (List.mem_cons_of_mem _ (List.mem_cons_of_mem _ hmem)))
        fuel (by omega)
      refine ⟨last, by omega, hcopy.trans (hrun.trans ?_)⟩
      simp
  | case5 first second rest hquote hescaped ih =>
      have hfirst : first ≠ 0 := fun heq => hnul (heq ▸ List.mem_cons_self)
      obtain ⟨gap', hgap, hcopy⟩ := minifyStringAt_copy fuel done gap second
        (rest ++ 0 :: more) hfirst
      rw [if_neg hquote, if_neg hescaped] at hcopy
      obtain ⟨fuel, rfl⟩ := Nat.exists_eq_succ_of_ne_zero
        (Nat.ne_zero_of_lt (Nat.lt_of_succ_lt_succ hfuel))
      obtain ⟨gap'', hgap', hrun⟩ := ih (done ++ [first]) gap'
        (fun hmem => hnul (List.mem_cons_of_mem _ hmem)) fuel
        (Nat.lt_of_succ_lt_succ hfuel)
      refine ⟨gap'', hgap'.trans hgap, hcopy.trans (hrun.trans ?_)⟩
      simp

/-- The text is minified in place; its NUL and what was in the way follow it. -/
theorem minifyAt_eq (done gap : Text) (hnul : (0 : UInt8) ∉ content)
    (hfuel : content.length < fuel) : ∃ junk,
      (minifyWith fuel content).length + junk.length =
        gap.length + content.length ∧
      minifyAt fuel (done ++ (gap ++ (content ++ 0 :: more)))
          (done.length + gap.length) done.length =
        some (done ++ (minifyWith fuel content ++ 0 :: (junk ++ more))) := by
  induction fuel generalizing content done gap with
  | zero => exact absurd hfuel (Nat.not_lt_zero _)
  | succ fuel ih =>
      cases content with
      | nil =>
          obtain ⟨gap', hgap, hstore⟩ := storeByte_behind done gap 0 more
          refine ⟨gap', by simpa [minifyWith] using hgap, ?_⟩
          rw [minifyAt, List.nil_append, getElem_behind]
          simp [hstore, minifyWith]
      | cons first rest =>
          obtain ⟨hfirst, hrest⟩ := List.ne_and_not_mem_of_not_mem_cons hnul
          -- what is skipped widens the gap
          have hskip (skipped content : Text)
              (hcontent : first :: rest = skipped ++ content)
              (hskipped : 0 < skipped.length) : ∃ junk,
                (minifyWith fuel content).length + junk.length =
                  gap.length + (first :: rest).length ∧
                minifyAt fuel (done ++ (gap ++ first :: (rest ++ 0 :: more)))
                    (done.length + gap.length + skipped.length) done.length =
                  some (done ++ (minifyWith fuel content ++ 0 :: (junk ++ more)))
              := by
            have hlength := congrArg List.length hcontent
            rw [List.length_append] at hlength
            have hnone : (0 : UInt8) ∉ content := fun hmem =>
              hnul (hcontent ▸ List.mem_append_right skipped hmem)
            obtain ⟨junk, hjunk, hrun⟩ := ih done (gap ++ skipped) hnone (by omega)
            rw [List.length_append] at hjunk
            refine ⟨junk, by omega, ?_⟩
            rw [← List.cons_append, hcontent]
            simpa [Nat.add_assoc] using hrun
          rw [minifyAt, List.cons_append, getElem_behind, minifyWith]
          simp only [Option.bind_eq_bind, Option.bind_some, hfirst.symm, if_false]
          by_cases hblank : isBlankByte first
          · simp only [hblank, if_true]
            exact hskip [first] rest rfl Nat.one_pos
          simp only [hblank, if_false, Bool.false_eq_true]
          by_cases hslash : first = byte '/'
          · simp only [hslash, if_true]
            obtain ⟨skipped, hskipped, hrun⟩ := skipCommentAt_eq (done ++ gap) hrest
              (Nat.lt_of_succ_lt hfuel)
            rw [List.append_assoc, List.length_append, ← hslash] at hrun
            rw [← hslash, hrun, Option.bind_some, Nat.add_assoc _ 1, Nat.add_comm 1]
            exact hskip (first :: skipped) (skipComment rest)
              (by rw [List.cons_append, ← hskipped]) (Nat.succ_pos _)
          simp only [hslash, if_false]
          obtain ⟨gap', hgap, hstore⟩ :=
            storeByte_behind done gap first (rest ++ 0 :: more)
          have hindex : done.length + gap.length + 1 =
              (done ++ [first]).length + gap'.length := by
            rw [List.length_append, List.length_singleton]
            omega
          have hwritten : done.length + 1 = (done ++ [first]).length := by
            rw [List.length_append, List.length_singleton]
          rw [hstore, Option.bind_some, hindex, hwritten]
          by_cases hquote : first = byte '"'
          · rw [if_pos hquote, if_pos hquote]
            obtain ⟨gap'', hgap', hstring⟩ := minifyStringAt_eq (done ++ [first])
              gap' hrest (Nat.lt_of_succ_lt hfuel)
            rw [hstring, Option.bind_some]
            have hsplit := minifyString_append rest
            have hlength := congrArg List.length hsplit
            rw [List.length_append] at hlength
            have hleft : (0 : UInt8) ∉ (minifyString rest).2 := fun hmem =>
              hrest (hsplit ▸ List.mem_append_right _ hmem)
            obtain ⟨junk, hjunk, hrun⟩ := ih (done ++ [first] ++
              (minifyString rest).1) gap'' hleft (by
                rw [List.length_cons] at hfuel
                omega)
            refine ⟨junk, ?_, hrun.trans (by simp)⟩
            rw [List.length_cons, List.length_cons, List.length_append]
            omega
          · rw [if_neg hquote, if_neg hquote]
            obtain ⟨junk, hjunk, hrun⟩ := ih (done ++ [first]) gap' hrest
              (Nat.lt_of_succ_lt_succ hfuel)
            refine ⟨junk, ?_, hrun.trans (by simp)⟩
            rw [List.length_cons, List.length_cons]
            omega

/-- `cJSON_Minify` leaves the minified text, its NUL and as many other bytes as
it took out; it stays inside the text. -/
theorem cJSONMinify_eq (hnul : (0 : UInt8) ∉ content) : ∃ junk,
    (minify content).length + junk.length = content.length ∧
    cJSONMinify (content ++ 0 :: more) =
      some (minify content ++ 0 :: (junk ++ more)) := by
  have hbound : content.length < (content ++ 0 :: more).length + 1 := by
    rw [List.length_append]
    omega
  obtain ⟨junk, hjunk, hrun⟩ := minifyAt_eq [] [] hnul hbound
  rw [minifyWith_enough (Nat.le_of_lt hbound) (le_refl content.length)]
    at hjunk hrun
  rw [List.length_nil, Nat.zero_add] at hjunk
  exact ⟨junk, hjunk, hrun⟩

end Conveyor.Json
