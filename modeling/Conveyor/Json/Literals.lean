import Conveyor.Json.Parse

/-!
# How long a decoded string literal gets

`parse_string` allocates its output before it decodes the literal.  It counts
the backslashes that start an escape sequence, and takes off one byte for each.
The loop that decodes the literal may fall out of step with these sequences, but
after every round there is room for what it has still to write.
-/

namespace Conveyor.Json

/-- The escape sequences `parse_string` counts in a raw literal. -/
def skippedBytes : Text → ℕ
  | [] => 0
  | first :: rest =>
      if first = byte '\\' then
        match rest with
        | [] => 0
        | _ :: later => 1 + skippedBytes later
      else skippedBytes rest

/-- What is allocated for the output, without the terminating NUL. -/
def allocationLength (raw : Text) : ℕ := raw.length + 1 - skippedBytes raw

theorem skippedBytes_escape (second : UInt8) (later : Text) :
    skippedBytes (byte '\\' :: second :: later) = 1 + skippedBytes later := by
  rw [skippedBytes.eq_def]
  simp

theorem skippedBytes_plain {first : UInt8} (hfirst : first ≠ byte '\\')
    (rest : Text) : skippedBytes (first :: rest) = skippedBytes rest := by
  rw [skippedBytes.eq_def]
  simp [hfirst]

/-- The start of a literal decides how it falls into sequences, by one at most. -/
theorem skippedBytes_cons_le (first : UInt8) (rest : Text) :
    skippedBytes (first :: rest) ≤ 1 + skippedBytes rest := by
  by_cases hfirst : first = byte '\\'
  · subst hfirst
    induction rest using skippedBytes.induct with
    | case1 => simp [skippedBytes]
    | case2 => simp [skippedBytes]
    | case3 second later ih =>
        have hsecond : skippedBytes (second :: later) ≤
            1 + skippedBytes later := by
          by_cases hsecond : second = byte '\\'
          · exact hsecond ▸ ih
          · rw [skippedBytes_plain hsecond]
            omega
        rw [skippedBytes_escape, skippedBytes_escape]
        omega
    | case4 second rest hsecond ih =>
        rw [skippedBytes_escape, skippedBytes_plain hsecond]
  · rw [skippedBytes_plain hfirst]
    omega

theorem skippedBytes_append_le (front rest : Text) :
    skippedBytes (front ++ rest) ≤ front.length + skippedBytes rest := by
  induction front with
  | nil => simp
  | cons first front ih =>
      have hfirst := skippedBytes_cons_le first (front ++ rest)
      rw [List.cons_append, List.length_cons]
      omega

/-- Hexadecimal digits start no escape sequence. -/
theorem skippedBytes_digits {digits : Text} (rest : Text)
    (hdigits : byte '\\' ∉ digits) :
    skippedBytes (digits ++ rest) = skippedBytes rest := by
  induction digits with
  | nil => rfl
  | cons digit digits ih =>
      obtain ⟨hdigit, hdigits⟩ :=
        List.ne_and_not_mem_of_not_mem_cons hdigits
      rw [List.cons_append, skippedBytes_plain hdigit.symm, ih hdigits]

/-- A fold that fails at one byte and never recovers fails. -/
private theorem foldl_eq_none {step : Option ℕ → UInt8 → Option ℕ}
    {bytes : Text} {culprit : UInt8} (hmem : culprit ∈ bytes)
    (hnone : ∀ digit, step none digit = none)
    (hculprit : ∀ value, step value culprit = none) (value : Option ℕ) :
    bytes.foldl step value = none := by
  have hfailed (bytes : Text) : bytes.foldl step none = none := by
    induction bytes with
    | nil => rfl
    | cons first rest ih => rw [List.foldl_cons, hnone, ih]
  induction hmem generalizing value with
  | head => rw [List.foldl_cons, hculprit, hfailed]
  | tail first hmem ih => exact ih _

/-- A byte that is no digit spoils the code. -/
theorem parseHex4_eq_zero {digits : Text} {culprit : UInt8}
    (hmem : culprit ∈ digits.take 4) (hculprit : hexDigit culprit = none) :
    parseHex4 digits = 0 := by
  rw [parseHex4, foldl_eq_none hmem (fun _ => rfl)
    (fun value => by cases value <;> simp [hculprit])]
  rfl

theorem not_mem_of_parseHex4 {digits : Text} (hcode : parseHex4 digits ≠ 0) :
    byte '\\' ∉ digits.take 4 :=
  fun hmem => hcode (parseHex4_eq_zero hmem (by decide))

theorem utf8_length_le (codepoint : ℕ) : (utf8 codepoint).length ≤ 4 := by
  unfold utf8
  split_ifs <;> simp

/-- The four digits after `\u` count for nothing if they are a code. -/
theorem skippedBytes_sequence (rest : Text) (hcode : parseHex4 rest ≠ 0) :
    skippedBytes (byte '\\' :: byte 'u' :: rest) =
      1 + skippedBytes (rest.drop 4) := by
  rw [skippedBytes_escape]
  nth_rewrite 1 [← List.take_append_drop 4 rest]
  rw [skippedBytes_digits _ (not_mem_of_parseHex4 hcode)]

/-- One sequence or pair never decodes to more than it is counted for. -/
theorem utf16_length_le {rest encoded : Text} {consumed : ℕ}
    (hconvert : utf16LiteralToUtf8 (byte '\\' :: byte 'u' :: rest) =
      some (encoded, consumed)) :
    consumed ≤ rest.length + 2 ∧
      encoded.length + skippedBytes (byte '\\' :: byte 'u' :: rest) ≤
        consumed + skippedBytes
          ((byte '\\' :: byte 'u' :: rest).drop consumed) := by
  unfold utf16LiteralToUtf8 at hconvert
  simp only [List.length_cons, List.drop_succ_cons, List.drop_zero] at hconvert
  split at hconvert
  · simp at hconvert
  split at hconvert
  · simp at hconvert
  split at hconvert
  · rename_i hlength _ hfirst
    split at hconvert
    · simp at hconvert
    split at hconvert
    · simp at hconvert
    split at hconvert
    · simp at hconvert
    rename_i hlater hescape hsecond
    simp only [Option.some.injEq, Prod.mk.injEq] at hconvert
    obtain ⟨rfl, rfl⟩ := hconvert
    have hmore := List.take_append_drop 2 (rest.drop 4)
    rw [not_not.mp hescape] at hmore
    obtain ⟨more, hdrop⟩ : ∃ more, (rest.drop 4).drop 2 = more := ⟨_, rfl⟩
    rw [hdrop] at hmore hsecond ⊢
    have hpair := skippedBytes_sequence rest (by omega)
    have hlast := skippedBytes_sequence more (by omega)
    rw [← hmore] at hpair
    have hend : rest.drop 10 = more.drop 4 := by
      rw [← hdrop, List.drop_drop, List.drop_drop]
    rw [List.length_drop] at hlater
    refine ⟨by omega, ?_⟩
    simp only [List.drop_succ_cons, List.cons_append, List.nil_append, hend]
      at hpair ⊢
    have hfour := utf8_length_le (0x10000 + parseHex4 rest % 0x400 * 0x400 +
      parseHex4 more % 0x400)
    omega
  · rename_i hlength _ _
    simp only [Option.some.injEq, Prod.mk.injEq] at hconvert
    obtain ⟨rfl, rfl⟩ := hconvert
    refine ⟨by omega, ?_⟩
    simp only [List.drop_succ_cons]
    by_cases hcode : parseHex4 rest = 0
    · have hskipped := skippedBytes_append_le (rest.take 4) (rest.drop 4)
      rw [List.take_append_drop, List.length_take] at hskipped
      have hescape := skippedBytes_escape (byte 'u') rest
      have hone : (utf8 (parseHex4 rest)).length = 1 := by rw [hcode]; rfl
      omega
    · have hskipped := skippedBytes_sequence rest hcode
      have hfour := utf8_length_le (parseHex4 rest)
      omega

/-! ## Room for the output -/

/-- A block of this size with these bytes in it has room for what the rest of the
literal decodes to, and for the terminating NUL. -/
def HasRoom (size : ℕ) (done raw : Text) : Prop :=
  done.length + raw.length + 2 ≤ size + skippedBytes raw

theorem skippedBytes_le_length (raw : Text) : skippedBytes raw ≤ raw.length := by
  have hle := skippedBytes_append_le raw []
  rwa [List.append_nil] at hle

/-- What is allocated is enough. -/
theorem hasRoom_allocated (raw : Text) :
    HasRoom (allocationLength raw + 1) [] raw := by
  have hle := skippedBytes_le_length raw
  rw [HasRoom, allocationLength, List.length_nil]
  omega

variable {size : ℕ} {done raw : Text}

/-- There is always room for the terminating NUL. -/
theorem HasRoom.length_lt (hroom : HasRoom size done raw) :
    done.length < size := by
  have hle := skippedBytes_le_length raw
  rw [HasRoom] at hroom
  omega

theorem HasRoom.plain {first : UInt8} (hfirst : first ≠ byte '\\')
    (hroom : HasRoom size done (first :: raw)) :
    HasRoom size (done ++ [first]) raw := by
  rw [HasRoom, skippedBytes_plain hfirst, List.length_cons] at hroom
  rw [HasRoom, List.length_append, List.length_singleton]
  omega

/-- A backslash at the very end takes the place of the closing quote. -/
theorem HasRoom.last (value : UInt8) (hroom : HasRoom size done [byte '\\']) :
    HasRoom size (done ++ [value]) [] := by
  have hnone : skippedBytes [byte '\\'] = 0 := by simp [skippedBytes]
  rw [HasRoom, hnone, List.length_singleton] at hroom
  rw [HasRoom, List.length_append, List.length_singleton, List.length_nil]
  omega

theorem HasRoom.escape {escape : UInt8} (value : UInt8)
    (hroom : HasRoom size done (byte '\\' :: escape :: raw)) :
    HasRoom size (done ++ [value]) raw := by
  rw [HasRoom, skippedBytes_escape, List.length_cons, List.length_cons] at hroom
  rw [HasRoom, List.length_append, List.length_singleton]
  omega

theorem HasRoom.utf16 {encoded : Text} {consumed : ℕ}
    (hroom : HasRoom size done (byte '\\' :: byte 'u' :: raw))
    (hconvert : utf16LiteralToUtf8 (byte '\\' :: byte 'u' :: raw) =
      some (encoded, consumed)) :
    HasRoom size (done ++ encoded)
      ((byte '\\' :: byte 'u' :: raw).drop consumed) := by
  obtain ⟨hconsumed, hsequence⟩ := utf16_length_le hconvert
  rw [HasRoom] at hroom ⊢
  rw [List.length_append, List.length_drop]
  rw [List.length_cons, List.length_cons] at hroom ⊢
  omega

end Conveyor.Json
