/-
  String literals.

  A literal stands between double quotes.  Four characters of its value are written as a backslash
  and a letter: the quote, the backslash, the line feed and the tab.  Every other character stands
  for itself, line feeds included: a literal may run over several lines, although writing a value
  never produces such a literal.

    1. `encode` writes the inside of a literal, `write` the literal with its quotes.
    2. `read` takes a literal apart after its opening quote.  It answers the value, the characters
       it passed over (closing quote included) and what follows, or the fault that stopped it.

  Main statement: `read_encode`, what `encode` writes reads back to the same value.
-/

namespace LibrarySpec.Text.Quoted

/-- The letter that stands for a character after a backslash. -/
def escapeLetter : Char → Option Char
  | '"' => some '"'
  | '\\' => some '\\'
  | '\n' => some 'n'
  | '\t' => some 't'
  | _ => none

/-- The character that a letter after a backslash stands for. -/
def unescape : Char → Option Char
  | '"' => some '"'
  | '\\' => some '\\'
  | 'n' => some '\n'
  | 't' => some '\t'
  | _ => none

/-- The inside of a literal with this value. -/
def encode : List Char → List Char
  | [] => []
  | c :: rest =>
    match escapeLetter c with
    | some letter => '\\' :: letter :: encode rest
    | none => c :: encode rest

/-- The literal with this value. -/
def write (value : String) : String :=
  String.ofList ('"' :: encode value.toList ++ ['"'])

/-- Why a literal cannot be read. -/
inductive Fault where
  /-- The text ends before the closing quote. -/
  | unterminated
  /-- A backslash is the last character of the text. -/
  | unterminatedEscape
  /-- A backslash stands before a letter that means nothing; `rest` follows that letter. -/
  | invalidEscape (letter : Char) (rest : List Char)
deriving DecidableEq, Repr

/-- Reads a literal after its opening quote: its value, the characters up to and with the closing
    quote, and what follows. -/
def read : List Char → Except Fault (List Char × List Char × List Char)
  | [] => .error .unterminated
  | '"' :: rest => .ok ([], ['"'], rest)
  | ['\\'] => .error .unterminatedEscape
  | '\\' :: letter :: rest =>
    match unescape letter with
    | none => .error (.invalidEscape letter rest)
    | some c =>
      (read rest).map fun (value, spelling, after) => (c :: value, '\\' :: letter :: spelling, after)
  | c :: rest =>
    (read rest).map fun (value, spelling, after) => (c :: value, c :: spelling, after)

/-- The value, the spelling and the rest put together again give the text that was read. -/
theorem append_of_read {text value spelling rest : List Char}
    (h : read text = .ok (value, spelling, rest)) : spelling ++ rest = text ∧ spelling ≠ [] := by
  fun_induction read text generalizing value spelling with
  | case1 => simp at h
  | case2 rest' =>
    simp only [Except.ok.injEq, Prod.mk.injEq] at h
    obtain ⟨_, rfl, rfl⟩ := h
    simp
  | case3 => simp at h
  | case4 => simp at h
  | case5 letter rest' c hc ih =>
    cases hr : read rest' with
    | error e => simp [hr, Except.map] at h
    | ok r =>
      obtain ⟨v, s, a⟩ := r
      simp only [hr, Except.map, Except.ok.injEq, Prod.mk.injEq] at h
      obtain ⟨_, rfl, rfl⟩ := h
      simp [(ih hr).1]
  | case6 c rest' _ _ _ ih =>
    cases hr : read rest' with
    | error e => simp [hr, Except.map] at h
    | ok r =>
      obtain ⟨v, s, a⟩ := r
      simp only [hr, Except.map, Except.ok.injEq, Prod.mk.injEq] at h
      obtain ⟨_, rfl, rfl⟩ := h
      simp [(ih hr).1]

/-- An escape letter reads back to the character it was written for. -/
theorem unescape_of_escapeLetter {c letter : Char} (h : escapeLetter c = some letter) :
    unescape letter = some c := by
  unfold escapeLetter at h
  split at h <;> simp_all [unescape] <;> subst h <;> rfl

/-- What `encode` writes, with a closing quote after it, reads back to the same value and leaves
    alone whatever follows. -/
theorem read_encode (value rest : List Char) :
    read (encode value ++ '"' :: rest) = .ok (value, encode value ++ ['"'], rest) := by
  induction value with
  | nil => simp [encode, read]
  | cons c value ih =>
    unfold encode
    split
    · rename_i letter h
      simp [read, unescape_of_escapeLetter h, ih, Except.map]
    · rename_i h
      have notQuote : c ≠ '"' := by rintro rfl; simp [escapeLetter] at h
      have notBackslash : c ≠ '\\' := by rintro rfl; simp [escapeLetter] at h
      have step : read (c :: (encode value ++ '"' :: rest)) =
          (read (encode value ++ '"' :: rest)).map
            fun (v, s, a) => (c :: v, c :: s, a) := by
        rw [read]
        · exact notQuote
        · intro h; simp [notBackslash] at h
        · exact fun _ _ h => absurd h notBackslash
      simp [step, ih, Except.map]

end LibrarySpec.Text.Quoted
