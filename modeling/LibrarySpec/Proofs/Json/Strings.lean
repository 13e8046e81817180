/-
  Strings in documents read back.

  A quote, a backslash and the control characters are written with a backslash in front, every other
  character as it is.  `character?_escaped` reads one character back in front of any text, so nothing
  has to be known of the characters that follow it.  The end of the string is found because no
  escaped character begins with a quote (`head_escaped`).

  Main statement: `quotedWithin?_escaped`.
-/
import LibrarySpec.Json.Parser
import LibrarySpec.Json.Printer

namespace LibrarySpec.Json

variable {c : Char}

/-! ## Control characters -/

theorem hexDigit?_digitChar : ∀ d < 16, hexDigit? (Nat.digitChar d) = some d := by decide

/-- The letter of a control character stands for it. -/
theorem unescape?_controlLetter {letter : Char} (h : controlLetter? c = some letter) :
    unescape? letter = some c ∧ letter ≠ 'u' := by
  have code : ∀ {n}, c.toNat = n → some (Char.ofNat n) = some c := by
    rintro _ rfl
    rw [Char.ofNat_toNat]
  unfold controlLetter? at h
  split at h
  all_goals cases h
  -- what is left are the five codes that have a letter
  all_goals
    rename_i value
    exact ⟨code value, by decide⟩

/-- Two hexadecimal digits spell a control character. -/
theorem unicode?_control (control : c.toNat < 0x20) (rest : List Char) :
    unicode? ('0' :: '0' :: Nat.digitChar (c.toNat / 16) :: Nat.digitChar (c.toNat % 16) :: rest)
      = some (c, rest) := by
  have four : hexFour? ('0' :: '0' :: Nat.digitChar (c.toNat / 16)
      :: Nat.digitChar (c.toNat % 16) :: rest) = some (c.toNat, rest) := by
    have zero : hexDigit? '0' = some 0 := rfl
    have high := hexDigit?_digitChar (c.toNat / 16) (by omega)
    have low := hexDigit?_digitChar (c.toNat % 16) (by omega)
    have value : ((0 * 16 + 0) * 16 + c.toNat / 16) * 16 + c.toNat % 16 = c.toNat := by omega
    rw [hexFour?, zero, high, low]
    show some (((0 * 16 + 0) * 16 + c.toNat / 16) * 16 + c.toNat % 16, rest) = _
    rw [value]
  rw [unicode?, four]
  show (if 0xD800 ≤ c.toNat ∧ c.toNat < 0xDC00 then _ else _) = _
  rw [if_neg (by omega), if_neg (by omega), Char.ofNat_toNat]
  rfl

/-! ## One character -/

/-- A letter behind a backslash. -/
theorem character?_letter {letter : Char} (mark : letter ≠ 'u') (rest : List Char) :
    character? ('\\' :: letter :: rest) = (unescape? letter).map (·, rest) := by
  unfold character?
  split
  · rename_i h
    cases h
    exact absurd rfl mark
  · rename_i h
    cases h
    rfl
  · rename_i other h
    cases h
    exact absurd rfl (other _ _ rfl)
  · rename_i h
    cases h

/-- A character that needs no backslash. -/
theorem character?_plain (visible : 0x20 ≤ c.toNat) (plain : c ≠ '\\') (rest : List Char) :
    character? (c :: rest) = some (c, rest) := by
  unfold character?
  split
  · rename_i h
    exact absurd (List.cons.inj h).1 plain
  · rename_i h
    exact absurd (List.cons.inj h).1 plain
  · rename_i h
    cases h
    rw [if_neg]
    rintro (control | backslash)
    · omega
    · exact plain backslash
  · rename_i h
    cases h

/-- An escaped character is read as the character. -/
theorem character?_escaped (c : Char) (rest : List Char) :
    character? (escaped c ++ rest) = some (c, rest) := by
  unfold escaped
  split
  · rename_i marked
    rcases marked with rfl | rfl
    · rfl
    · rfl
  · rename_i unmarked
    split
    · rename_i visible
      exact character?_plain visible (fun h => unmarked (.inr h)) rest
    · rename_i control
      split
      · rename_i letter h
        obtain ⟨value, mark⟩ := unescape?_controlLetter h
        show character? ('\\' :: letter :: rest) = _
        rw [character?_letter mark, value]
        rfl
      · exact unicode?_control (by omega) rest

/-- No escaped character is mistaken for the end of a string. -/
theorem head_escaped (c : Char) : ∃ d more, escaped c = d :: more ∧ d ≠ '"' := by
  unfold escaped
  split
  · exact ⟨_, _, rfl, by decide⟩
  · rename_i unmarked
    split
    · exact ⟨_, _, rfl, fun h => unmarked (.inl h)⟩
    · split
      · exact ⟨_, _, rfl, by decide⟩
      · exact ⟨_, _, rfl, by decide⟩

/-! ## Whole strings -/

/-- Escaped characters up to a closing quote. -/
theorem stringWithin?_escaped {chars : List Char} {fuel : Nat} (enough : chars.length < fuel)
    (rest : List Char) :
    stringWithin? fuel (chars.flatMap escaped ++ '"' :: rest) = some (chars, rest) := by
  induction chars generalizing fuel with
  | nil =>
    obtain ⟨fuel, rfl⟩ : ∃ n, fuel = n + 1 := ⟨fuel - 1, by omega⟩
    rfl
  | cons c chars ih =>
    rw [List.length_cons] at enough
    obtain ⟨fuel, rfl⟩ : ∃ n, fuel = n + 1 := ⟨fuel - 1, by omega⟩
    have inside := @ih fuel (by omega)
    rw [List.flatMap_cons, List.append_assoc]
    unfold stringWithin?
    split
    · rename_i h
      obtain ⟨d, more, head, quote⟩ := head_escaped c
      rw [head] at h
      exact absurd (List.cons.inj h).1 quote
    · rw [character?_escaped]
      show (stringWithin? fuel (chars.flatMap escaped ++ '"' :: rest) >>= _) = _
      rw [inside]
      rfl

theorem length_le_escaped (chars : List Char) : chars.length ≤ (chars.flatMap escaped).length := by
  induction chars with
  | nil => exact Nat.zero_le _
  | cons c chars ih =>
    obtain ⟨d, more, head, _⟩ := head_escaped c
    rw [List.flatMap_cons, List.length_append, head, List.length_cons, List.length_cons]
    omega

/-- A string behind its opening quote is read back. -/
theorem quotedWithin?_escaped {s : String} {fuel : Nat} (enough : (quoted s).length ≤ fuel)
    (rest : List Char) :
    quotedWithin? fuel (s.toList.flatMap escaped ++ '"' :: rest) = some (s, rest) := by
  have shorter := length_le_escaped s.toList
  have marks : (quoted s).length = (s.toList.flatMap escaped).length + 2 := by
    simp [quoted]
  rw [quotedWithin?, stringWithin?_escaped (by omega)]
  show some (String.ofList s.toList, rest) = _
  rw [String.ofList_toList]

theorem quoted_append (s : String) (rest : List Char) :
    quoted s ++ rest = '"' :: (s.toList.flatMap escaped ++ '"' :: rest) := by
  simp [quoted]

end LibrarySpec.Json
