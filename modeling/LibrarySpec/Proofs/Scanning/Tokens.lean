/-
  Which texts spell a token, and what may follow them.

  `Token.read` is described from both sides.

    1. `Spelling token text`: the text, taken alone, spells the token.
    2. `Token.Ends token after`: a token of this kind ends in front of the text `after`.  A word does
       not end in front of a letter, a minus not in front of `>`, a slash not in front of what would
       make it a comment.  At most two characters of `after` matter.

  Main statements: `read_eq_ok` (what is read is a spelling, and the token ends there) and
  `read_of_spelling` (a spelling of which the token ends is read, and nothing else is).
-/
import LibrarySpec.Token.Scan

namespace LibrarySpec

/-! ## Characters -/

namespace Token

theorem isAlpha_iff {c : Char} : c.isAlpha = true
    ↔ (65 ≤ c.toNat ∧ c.toNat ≤ 90) ∨ (97 ≤ c.toNat ∧ c.toNat ≤ 122) := by
  show (decide (65 ≤ c.toNat ∧ c.toNat ≤ 90)
    || decide (97 ≤ c.toNat) && decide (c.toNat ≤ 122)) = true ↔ _
  rw [Bool.or_eq_true, Bool.and_eq_true, decide_eq_true_eq, decide_eq_true_eq, decide_eq_true_eq]

theorem isDigit_iff {c : Char} : c.isDigit = true ↔ 48 ≤ c.toNat ∧ c.toNat ≤ 57 := by
  show (decide (48 ≤ c.toNat) && decide (c.toNat ≤ 57)) = true ↔ _
  rw [Bool.and_eq_true, decide_eq_true_eq, decide_eq_true_eq]

theorem isBlank_of_isWordPart {c : Char} (h : isWordPart c = true) : Text.isBlank c = false := by
  have word : (c.isAlpha = true ∨ c.isDigit = true) ∨ c = '_' := by
    simpa [isWordPart, Char.isAlphanum] using h
  rw [isAlpha_iff, isDigit_iff] at word
  rcases word with word | rfl
  · simp only [Text.isBlank, Text.blankRanges, List.any_cons, List.any_nil, Bool.or_false,
      Bool.or_eq_false_iff, Bool.and_eq_false_iff, decide_eq_false_iff_not]
    omega
  · decide

theorem isWordPart_of_isDigit {c : Char} (h : c.isDigit = true) : isWordPart c = true := by
  simp [isWordPart, Char.isAlphanum, h]

theorem isWordPart_of_isWordStart {c : Char} (h : isWordStart c = true) : isWordPart c = true := by
  simp only [isWordStart, isWordPart, Char.isAlphanum, Bool.or_eq_true] at *
  rcases h with h | h
  · exact .inl (.inl h)
  · exact .inr h

theorem isDigit_of_isWordStart {c : Char} (h : isWordStart c = true) : c.isDigit = false := by
  have start : c.isAlpha = true ∨ c = '_' := by
    simpa [isWordStart] using h
  rcases start with letter | rfl
  · rw [isAlpha_iff] at letter
    refine Bool.eq_false_iff.2 fun digit => ?_
    rw [isDigit_iff] at digit
    omega
  · decide

end Token

/-! ## Spellings -/

/-- Whether a character behind a symbol would make a longer symbol or a comment of it. -/
def Symbol.goesOn (s : Symbol) (c : Char) : Bool :=
  match s with
  | minus => c == '>'
  | assign | bang | less | greater => c == '='
  | slash => c == '*' || c == '/'
  | _ => false

namespace Token

/-- The text spells the token. -/
inductive Spelling : Token → List Char → Prop where
  | literal {value spelling : List Char} (h : Text.Quoted.read spelling = .ok (value, spelling, [])) :
      Spelling (.literal (String.ofList value)) ('"' :: spelling)
  | quoted {inside : List Char} (h : quoteEnd? inside = some (inside, [])) :
      Spelling (.other (String.ofList ('\'' :: inside))) ('\'' :: inside)
  | integer {digits : List Char} (nonempty : digits ≠ []) (all : ∀ c ∈ digits, c.isDigit = true)
      (range : (Nat.ofDigitChars 10 digits 0 : Int) ≤ Int64.maxValue.toInt) :
      Spelling (.integer (.ofNat (Nat.ofDigitChars 10 digits 0))) digits
  | float {whole fraction : List Char} (nonempty : whole ≠ []) (some : fraction ≠ [])
      (all : ∀ c ∈ whole, c.isDigit = true) (all' : ∀ c ∈ fraction, c.isDigit = true) :
      Spelling (.float ((Decimal.ofParts whole fraction).toBinary64 false)) (whole ++ '.' :: fraction)
  | word {c : Char} {rest : List Char} (start : isWordStart c = true)
      (all : ∀ d ∈ rest, isWordPart d = true) :
      Spelling (ofWord (String.ofList (c :: rest))) (c :: rest)
  | symbol (s : Symbol) : Spelling (.symbol s) s.text.toList
  | foreign {c : Char} (blank : Text.isBlank c = false) (quotes : c ≠ '"' ∧ c ≠ '\'')
      (part : isWordPart c = false) (sign : Symbol.ofChar? c = none) :
      Spelling (.other (String.ofList [c])) [c]

/-- A token of this kind ends in front of the text. -/
def Ends (token : Token) (after : List Char) : Prop :=
  match token with
  | .keyword _ | .identifier _ => ∀ c ∈ after.head?, isWordPart c = false
  | .integer _ =>
    (∀ c ∈ after.head?, c.isDigit = false)
      ∧ ∀ d rest, after = '.' :: d :: rest → d.isDigit = false
  | .float _ => ∀ c ∈ after.head?, c.isDigit = false
  | .symbol s => ∀ c ∈ after.head?, s.goesOn c = false
  | _ => True

/-- A word is a keyword or an identifier, and ends where its letters do. -/
theorem ends_ofWord {word : String} {after : List Char} :
    Ends (ofWord word) after ↔ ∀ c ∈ after.head?, isWordPart c = false := by
  unfold ofWord
  split <;> rfl

theorem Spelling.ne_nil {token : Token} {text : List Char} (h : Spelling token text) :
    text ≠ [] := by
  cases h with
  | integer nonempty => exact nonempty
  | symbol s => cases s <;> decide
  | _ => simp

theorem Spelling.ne_eof {text : List Char} : ¬Spelling .eof text := by
  intro h
  generalize ht : Token.eof = t at h
  cases h with
  | word =>
    unfold ofWord at ht
    split at ht <;> cases ht
  | _ => cases ht

/-! ## Local readings

  What stands behind the closing quote of a literal or a run, or behind the last digit of a number,
  makes no difference. -/

theorem quotedRead_append {text value spelling rest : List Char}
    (h : Text.Quoted.read text = .ok (value, spelling, rest)) (after : List Char) :
    Text.Quoted.read (spelling ++ after) = .ok (value, spelling, after) := by
  fun_induction Text.Quoted.read text generalizing value spelling with
  | case1 => cases h
  | case2 rest' =>
    cases h
    simp [Text.Quoted.read]
  | case3 => cases h
  | case4 => cases h
  | case5 letter rest' c hc ih =>
    cases hr : Text.Quoted.read rest' with
    | error e =>
      rw [hr] at h
      cases h
    | ok r =>
      obtain ⟨v, s, a⟩ := r
      rw [hr] at h
      cases h
      simp [Text.Quoted.read, hc, ih hr, Except.map]
  | case6 c rest' hquote hlast hescape ih =>
    cases hr : Text.Quoted.read rest' with
    | error e =>
      rw [hr] at h
      cases h
    | ok r =>
      obtain ⟨v, s, a⟩ := r
      rw [hr] at h
      cases h
      have notBackslash : c ≠ '\\' := by
        rintro rfl
        cases rest' with
        | nil => exact hlast rfl rfl
        | cons d rest => exact hescape d rest rfl rfl
      rw [List.cons_append, Text.Quoted.read, ih hr]
      · rfl
      · exact hquote
      · exact fun hc _ => notBackslash hc
      · exact fun _ _ hc _ => notBackslash hc

theorem quoteEnd?_append {text inside rest : List Char} (h : quoteEnd? text = some (inside, rest))
    (after : List Char) : quoteEnd? (inside ++ after) = some (inside, after) := by
  fun_induction quoteEnd? text generalizing inside with
  | case1 => cases h
  | case2 => cases h
  | case3 rest' =>
    cases h
    simp [quoteEnd?]
  | case4 => cases h
  | case5 c rest' ih =>
    obtain ⟨⟨i, a⟩, hi, h⟩ := Option.map_eq_some_iff.1 h
    cases h
    simp [quoteEnd?, ih hi]
  | case6 c rest' hfeed hquote hlast hescape ih =>
    obtain ⟨⟨i, a⟩, hi, h⟩ := Option.map_eq_some_iff.1 h
    cases h
    have notBackslash : c ≠ '\\' := by
      rintro rfl
      cases rest' with
      | nil => exact hlast rfl rfl
      | cons d rest => exact hescape d rest rfl rfl
    rw [List.cons_append, quoteEnd?, ih hi]
    · rfl
    · exact hfeed
    · exact hquote
    · exact fun hc _ => notBackslash hc
    · exact fun _ _ hc _ => notBackslash hc

/-- A run of characters of one kind ends in front of a character of another kind. -/
theorem takeWhile_append {p : Char → Bool} {run after : List Char} (all : ∀ c ∈ run, p c = true)
    (stop : ∀ c ∈ after.head?, p c = false) :
    (run ++ after).takeWhile p = run ∧ (run ++ after).dropWhile p = after := by
  have ended : after.takeWhile p = [] ∧ after.dropWhile p = after := by
    cases after with
    | nil => exact ⟨rfl, rfl⟩
    | cons c rest => simp [stop c rfl]
  rw [List.takeWhile_append_of_pos all, List.dropWhile_append_of_pos all, ended.1, ended.2,
    List.append_nil]
  exact ⟨rfl, rfl⟩

theorem all_takeWhile {p : Char → Bool} {text : List Char} :
    ∀ c ∈ text.takeWhile p, p c = true := by
  induction text with
  | nil => simp
  | cons d text ih =>
    rw [List.takeWhile_cons]
    split
    · rename_i hd
      intro c hc
      rcases List.mem_cons.1 hc with rfl | hc
      · exact hd
      · exact ih c hc
    · simp

theorem head_dropWhile {p : Char → Bool} {text : List Char} :
    ∀ c ∈ (text.dropWhile p).head?, p c = false := by
  induction text with
  | nil => simp
  | cons d text ih =>
    rw [List.dropWhile_cons]
    split
    · exact ih
    · rename_i hd
      intro c hc
      cases hc
      simpa using hd

/-! ## Numbers -/

theorem splitNumber_integer {digits after : List Char} (all : ∀ c ∈ digits, c.isDigit = true)
    (stop : ∀ c ∈ after.head?, c.isDigit = false)
    (point : ∀ d rest, after = '.' :: d :: rest → d.isDigit = false) :
    splitNumber (digits ++ after) = (digits, none, after) := by
  obtain ⟨htake, hdrop⟩ := takeWhile_append all stop
  unfold splitNumber
  rw [htake, hdrop]
  split
  · rename_i d rest
    rw [if_neg]
    simp [point d rest rfl]
  · rfl

theorem splitNumber_float {whole fraction after : List Char}
    (all : ∀ c ∈ whole, c.isDigit = true) (all' : ∀ c ∈ fraction, c.isDigit = true)
    (some : fraction ≠ []) (stop : ∀ c ∈ after.head?, c.isDigit = false) :
    splitNumber (whole ++ '.' :: (fraction ++ after)) = (whole, .some fraction, after) := by
  have point : ∀ c ∈ ('.' :: (fraction ++ after)).head?, c.isDigit = false := by simp
  obtain ⟨htake, hdrop⟩ := takeWhile_append all point
  obtain ⟨htake', hdrop'⟩ := takeWhile_append all' stop
  cases fraction with
  | nil => exact absurd rfl some
  | cons d rest =>
    unfold splitNumber
    rw [htake, hdrop]
    rw [List.cons_append] at htake' hdrop'
    simp only [List.cons_append, if_pos (all' d (by simp)), htake', hdrop']

/-- What the two parts of a number are, and where it ends. -/
theorem splitNumber_eq {text whole after : List Char} {fraction : Option (List Char)}
    (h : splitNumber text = (whole, fraction, after)) :
    whole = text.takeWhile Char.isDigit
      ∧ (fraction = none → (∀ c ∈ after.head?, c.isDigit = false)
          ∧ ∀ d rest, after = '.' :: d :: rest → d.isDigit = false)
      ∧ ∀ digits, fraction = some digits →
          digits ≠ [] ∧ (∀ c ∈ digits, c.isDigit = true) ∧ ∀ c ∈ after.head?, c.isDigit = false := by
  have stop : ∀ c ∈ (text.dropWhile Char.isDigit).head?, c.isDigit = false := head_dropWhile
  unfold splitNumber at h
  split at h
  · rename_i d rest hrest
    split at h
    · rename_i hd
      cases h
      refine ⟨rfl, by simp, ?_⟩
      rintro digits hdigits
      cases hdigits
      refine ⟨by simp [hd], all_takeWhile, head_dropWhile⟩
    · rename_i hd
      cases h
      refine ⟨rfl, fun _ => ⟨by simp, ?_⟩, by simp⟩
      rintro d' rest' heq
      cases heq
      simpa using hd
  · rename_i hpoint
    cases h
    refine ⟨rfl, fun _ => ⟨stop, ?_⟩, by simp⟩
    intro d rest heq
    exact absurd heq (hpoint d rest)

/-! ## Symbols -/

/-- A symbol of one character is the one that its character spells. -/
theorem ofChar?_text {s : Symbol} {c : Char} (hs : s.text.toList = [c]) :
    Symbol.ofChar? c = some s := by
  have found : s.text.toList.length = 1 → s.text.toList.head?.bind Symbol.ofChar? = some s := by
    cases s <;> decide
  rw [hs] at found
  exact found rfl

/-- A symbol of one character makes no pair with a character that does not make it longer. -/
theorem ofPair?_eq_none {s : Symbol} {c d : Char} (hs : s.text.toList = [c])
    (stop : s.goesOn d = false) : Symbol.ofPair? c d = none := by
  have found := ofChar?_text hs
  unfold Symbol.ofPair?
  split
  · -- `-` and `>`
    cases found
    cases stop
  · -- `=` and `=`
    cases found
    cases stop
  · -- `!` and `=`
    cases found
    cases stop
  · -- `<` and `=`
    cases found
    cases stop
  · -- `>` and `=`
    cases found
    cases stop
  · rfl

/-- A symbol is read from its spelling in front of what does not make it longer. -/
theorem symbolRead_append (s : Symbol) {after : List Char}
    (stop : ∀ c ∈ after.head?, s.goesOn c = false) :
    Symbol.read? (s.text.toList ++ after) = some (s, after) := by
  by_cases pair : ∃ c, s.text.toList = [c]
  · obtain ⟨c, hc⟩ := pair
    rw [hc]
    cases after with
    | nil => simp [Symbol.read?, ofChar?_text hc]
    | cons d rest => simp [Symbol.read?, ofPair?_eq_none hc (stop d rfl), ofChar?_text hc]
  · cases s
    all_goals first
      | rfl
      | exact absurd ⟨_, rfl⟩ pair

/-- How the spelling of a symbol begins. -/
theorem symbolText_eq_cons (s : Symbol) :
    ∃ c rest, s.text.toList = c :: rest ∧ (c ≠ '"' ∧ c ≠ '\'') ∧ isWordPart c = false
      ∧ Text.isBlank c = false ∧ (c = '/' → s = .slash ∧ rest = []) := by
  cases s <;> exact ⟨_, _, rfl, by decide, by decide, by decide, by decide⟩

/-! ## Reading -/

theorem comment?_eq_none {c : Char} {rest : List Char} (h : c ≠ '/') :
    Gap.comment? (c :: rest) = none := by
  unfold Gap.comment?
  split
  · rename_i heq
    cases heq
    exact absurd rfl h
  · rename_i heq
    cases heq
    exact absurd rfl h
  · rfl

/-- A slash that neither a slash nor a star follows opens no comment. -/
theorem comment?_slash {after : List Char} (h : ∀ c ∈ after.head?, c ≠ '/' ∧ c ≠ '*') :
    Gap.comment? ('/' :: after) = none := by
  unfold Gap.comment?
  split
  · rename_i heq
    cases heq
    exact absurd rfl (h '/' rfl).1
  · rename_i heq
    cases heq
    exact absurd rfl (h '*' rfl).2
  · rfl

/-- The token with this spelling is read off the start of the text: no gap stands before it, and
    `after` is left. -/
def IsRead (token : Token) (text after : List Char) : Prop :=
  ∃ c rest, text = c :: rest ∧ Text.isBlank c = false ∧ Gap.comment? (text ++ after) = none
    ∧ read c (rest ++ after) = .ok (token, text, after)

theorem isRead_integer {digits after : List Char} (nonempty : digits ≠ [])
    (all : ∀ c ∈ digits, c.isDigit = true)
    (range : (Nat.ofDigitChars 10 digits 0 : Int) ≤ Int64.maxValue.toInt)
    (stop : ∀ c ∈ after.head?, c.isDigit = false)
    (point : ∀ d rest, after = '.' :: d :: rest → d.isDigit = false) :
    IsRead (.integer (.ofNat (Nat.ofDigitChars 10 digits 0))) digits after := by
  cases digits with
  | nil => exact absurd rfl nonempty
  | cons c rest =>
    have digit := all c (by simp)
    have whole := splitNumber_integer all stop point
    rw [List.cons_append] at whole
    have other : ∀ d : Char, d.isDigit = false → c ≠ d := by
      rintro d hd rfl
      rw [digit] at hd
      cases hd
    refine ⟨c, rest, rfl, isBlank_of_isWordPart (isWordPart_of_isDigit digit),
      comment?_eq_none (other '/' (by decide)), ?_⟩
    rw [read, if_neg (other '"' (by decide)), if_neg (other '\'' (by decide)), if_pos digit,
      readNumber, whole]
    simp only [if_pos range]

theorem isRead_float {whole fraction after : List Char} (nonempty : whole ≠ [])
    (some : fraction ≠ []) (all : ∀ c ∈ whole, c.isDigit = true)
    (all' : ∀ c ∈ fraction, c.isDigit = true) (stop : ∀ c ∈ after.head?, c.isDigit = false) :
    IsRead (.float ((Decimal.ofParts whole fraction).toBinary64 false)) (whole ++ '.' :: fraction)
      after := by
  cases whole with
  | nil => exact absurd rfl nonempty
  | cons c rest =>
    have digit := all c (by simp)
    have number := splitNumber_float all all' some stop
    rw [List.cons_append] at number
    have other : ∀ d : Char, d.isDigit = false → c ≠ d := by
      rintro d hd rfl
      rw [digit] at hd
      cases hd
    refine ⟨c, rest ++ '.' :: fraction, rfl, isBlank_of_isWordPart (isWordPart_of_isDigit digit),
      comment?_eq_none (other '/' (by decide)), ?_⟩
    rw [List.append_assoc, List.cons_append, read, if_neg (other '"' (by decide)),
      if_neg (other '\'' (by decide)), if_pos digit, readNumber, number]

theorem isRead_word {c : Char} {rest after : List Char} (start : isWordStart c = true)
    (all : ∀ d ∈ rest, isWordPart d = true) (stop : ∀ c ∈ after.head?, isWordPart c = false) :
    IsRead (ofWord (String.ofList (c :: rest))) (c :: rest) after := by
  obtain ⟨htake, hdrop⟩ := takeWhile_append all stop
  have other : ∀ d : Char, isWordStart d = false → c ≠ d := by
    rintro d hd rfl
    rw [start] at hd
    cases hd
  refine ⟨c, rest, rfl, isBlank_of_isWordPart (isWordPart_of_isWordStart start),
    comment?_eq_none (other '/' (by decide)), ?_⟩
  rw [read, if_neg (other '"' (by decide)), if_neg (other '\'' (by decide)),
    if_neg (by simp [isDigit_of_isWordStart start]), if_pos start, htake, hdrop]

/-- A character that is no part of a word is neither a digit nor the start of a word. -/
theorem not_isWordPart {c : Char} (h : isWordPart c = false) :
    c.isDigit = false ∧ isWordStart c = false := by
  constructor
  · cases hd : c.isDigit with
    | false => rfl
    | true => rw [isWordPart_of_isDigit hd] at h; cases h
  · cases hs : isWordStart c with
    | false => rfl
    | true => rw [isWordPart_of_isWordStart hs] at h; cases h

theorem isRead_symbol (s : Symbol) {after : List Char}
    (stop : ∀ c ∈ after.head?, s.goesOn c = false) :
    IsRead (.symbol s) s.text.toList after := by
  obtain ⟨c, rest, hc, quotes, part, blank, slash⟩ := symbolText_eq_cons s
  have found := symbolRead_append s stop
  rw [hc, List.cons_append] at found
  -- a slash is in front of neither a slash nor a star
  have behind : c = '/' → ∀ d ∈ (rest ++ after).head?, d ≠ '/' ∧ d ≠ '*' := by
    intro hslash d hd
    obtain ⟨rfl, rfl⟩ := slash hslash
    have h := stop d hd
    simp only [Symbol.goesOn, Bool.or_eq_false_iff, beq_eq_false_iff_ne] at h
    exact ⟨h.2, h.1⟩
  have noComment : ¬(c = '/' ∧ (rest ++ after).head? = some '*') := by
    rintro ⟨hslash, hstar⟩
    exact (behind hslash '*' hstar).2 rfl
  refine ⟨c, rest, hc, blank, ?_, ?_⟩
  · rw [hc, List.cons_append]
    by_cases hslash : c = '/'
    · subst hslash
      exact comment?_slash (behind rfl)
    · exact comment?_eq_none hslash
  · rw [read, if_neg quotes.1, if_neg quotes.2, if_neg (by simp [not_isWordPart part]),
      if_neg (by simp [not_isWordPart part]), if_neg noComment, found]

/-- A character that is no symbol begins none. -/
theorem symbolRead_eq_none {c : Char} {after : List Char} (h : Symbol.ofChar? c = none) :
    Symbol.read? (c :: after) = none := by
  cases after with
  | nil => simp [Symbol.read?, h]
  | cons d rest =>
    cases hp : Symbol.ofPair? c d with
    | none => simp [Symbol.read?, h, hp]
    | some s =>
      unfold Symbol.ofPair? at hp
      split at hp
      case h_6 => cases hp
      all_goals cases h

theorem isRead_foreign {c : Char} {after : List Char} (blank : Text.isBlank c = false)
    (quotes : c ≠ '"' ∧ c ≠ '\'') (part : isWordPart c = false) (sign : Symbol.ofChar? c = none) :
    IsRead (.other (String.ofList [c])) [c] after := by
  have notSlash : c ≠ '/' := by
    rintro rfl
    cases sign
  refine ⟨c, [], rfl, blank, comment?_eq_none notSlash, ?_⟩
  rw [List.nil_append, read, if_neg quotes.1, if_neg quotes.2, if_neg (by simp [not_isWordPart part]),
    if_neg (by simp [not_isWordPart part]), if_neg (by simp [notSlash]), symbolRead_eq_none sign]

/-- A spelling is read where its token ends. -/
theorem isRead_of_spelling {token : Token} {text after : List Char} (h : Spelling token text)
    (ends : Ends token after) : IsRead token text after := by
  cases h with
  | @literal value spelling h =>
    refine ⟨'"', spelling, rfl, by decide, comment?_eq_none (by decide), ?_⟩
    rw [read, if_pos rfl, quotedRead_append h after]
  | @quoted inside h =>
    refine ⟨'\'', inside, rfl, by decide, comment?_eq_none (by decide), ?_⟩
    rw [read, if_neg (by decide), if_pos rfl, quoteEnd?_append h after]
  | integer nonempty all range => exact isRead_integer nonempty all range ends.1 ends.2
  | float nonempty some all all' => exact isRead_float nonempty some all all' ends
  | word start all => exact isRead_word start all (ends_ofWord.1 ends)
  | symbol s => exact isRead_symbol s ends
  | foreign blank quotes part sign => exact isRead_foreign blank quotes part sign

/-- A symbol that is read off a text is in front of what does not make it longer. -/
theorem goesOn_of_read? {c : Char} {rest after : List Char} {s : Symbol}
    (h : Symbol.read? (c :: rest) = some (s, after)) (comment : Gap.comment? (c :: rest) = none)
    (star : ¬(c = '/' ∧ rest.head? = some '*')) :
    ∀ d ∈ after.head?, s.goesOn d = false := by
  cases rest with
  | nil =>
    obtain ⟨_, _, h⟩ := Option.map_eq_some_iff.1 h
    cases h
    simp
  | cons d rest =>
    rw [Symbol.read?] at h
    cases hp : Symbol.ofPair? c d with
    | some longer =>
      rw [hp] at h
      cases h
      unfold Symbol.ofPair? at hp
      split at hp <;> cases hp <;> simp [Symbol.goesOn]
    | none =>
      rw [hp] at h
      obtain ⟨s', hs, h⟩ := Option.map_eq_some_iff.1 h
      cases h
      intro d' hd
      cases hd
      have text := Symbol.text_of_ofChar? hs
      cases hgo : s.goesOn d with
      | false => rfl
      | true =>
        -- the character would have been taken into a pair, or into a comment
        cases s <;> simp only [Symbol.goesOn, Bool.or_eq_true, beq_iff_eq, Bool.false_eq_true] at hgo
        case slash =>
          cases text
          rcases hgo with rfl | rfl
          · exact absurd ⟨rfl, rfl⟩ star
          · cases comment
        all_goals
          cases text
          subst hgo
          cases hp

/-- A character that begins neither a word nor a number is no part of a word. -/
theorem isWordPart_eq_false {c : Char} (digit : ¬c.isDigit = true) (start : ¬isWordStart c = true) :
    isWordPart c = false := by
  simp only [isWordStart, Bool.or_eq_true, not_or, Bool.not_eq_true] at start
  simp [isWordPart, Char.isAlphanum, start.1, start.2, digit]

/-- A character that begins no symbol is none. -/
theorem ofChar?_eq_none {c : Char} {rest : List Char} (h : Symbol.read? (c :: rest) = none) :
    Symbol.ofChar? c = none := by
  cases rest with
  | nil => exact Option.map_eq_none_iff.1 h
  | cons d rest =>
    rw [Symbol.read?] at h
    split at h
    · cases h
    · exact Option.map_eq_none_iff.1 h

theorem readNumber_eq_ok {c : Char} {rest text after : List Char} {token : Token}
    (digit : c.isDigit = true) (h : readNumber (c :: rest) = .ok (token, text, after)) :
    Spelling token text ∧ Ends token after := by
  unfold readNumber at h
  split at h
  · rename_i whole fraction after' hs
    cases h
    obtain ⟨rfl, _, hfraction⟩ := splitNumber_eq hs
    obtain ⟨nonempty, all, stop⟩ := hfraction _ rfl
    exact ⟨.float (by simp [digit]) nonempty all_takeWhile all, stop⟩
  · rename_i whole after' hs
    obtain ⟨rfl, hwhole, _⟩ := splitNumber_eq hs
    split at h
    · rename_i range
      cases h
      exact ⟨.integer (by simp [digit]) all_takeWhile range, hwhole rfl⟩
    · cases h

/-- What is read is a spelling, and its token ends in front of the rest. -/
theorem read_eq_ok {c : Char} {rest text after : List Char} {token : Token}
    (h : read c rest = .ok (token, text, after)) (blank : Text.isBlank c = false)
    (comment : Gap.comment? (c :: rest) = none) : Spelling token text ∧ Ends token after := by
  unfold read at h
  split at h
  · split at h
    · rename_i hq
      cases h
      have alone := quotedRead_append hq []
      rw [List.append_nil] at alone
      exact ⟨.literal alone, trivial⟩
    · cases h
    · cases h
    · cases h
  · rename_i notQuote
    split at h
    · split at h
      · rename_i hq
        cases h
        have alone := quoteEnd?_append hq []
        rw [List.append_nil] at alone
        exact ⟨.quoted alone, trivial⟩
      · cases h
    · rename_i notSingle
      split at h
      · rename_i digit
        exact readNumber_eq_ok digit h
      · rename_i notDigit
        split at h
        · rename_i start
          cases h
          exact ⟨.word start all_takeWhile, ends_ofWord.2 head_dropWhile⟩
        · rename_i notStart
          split at h
          · cases h
          · rename_i star
            split at h
            · rename_i hs
              cases h
              exact ⟨.symbol _, goesOn_of_read? hs comment star⟩
            · rename_i hs
              cases h
              exact ⟨.foreign blank ⟨notQuote, notSingle⟩ (isWordPart_eq_false notDigit notStart)
                (ofChar?_eq_none hs), trivial⟩

end Token
end LibrarySpec
