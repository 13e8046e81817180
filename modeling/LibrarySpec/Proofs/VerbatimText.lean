/-
  Verbatim text, wherever it stands.

  Verbatim text is taken out of a source as it is written there, with its comments, literals, brackets
  and line feeds.  Put into any other source, in front of the symbol that it stopped at, it is read as
  it was.

    1. `Excerpt`: the text reaches from the start of a lexeme to the stop of one.  So it has visible
       ends, and nothing of it is trimmed.
    2. No token goes on with a stop symbol (`neutral_stop`), which goes on with nothing itself.  So a
       scanner that starts a token where the text begins cuts it into the same tokens, passes the stop
       symbol and starts anew, whatever follows (`scanFrom_stopped`).
    3. Which token of a text is the stop depends on the tokens alone (`Balanced`), not on what stands
       around the text, so the reading ends at that symbol (`verbatim_again`).

  Main statement: `verbatim_reread`.
-/
import LibrarySpec.Proofs.Scanning.Partition
import LibrarySpec.Proofs.Truncation.Basic

namespace LibrarySpec

open Grammar LibrarySpec.Parser
open Text (Position slice)

variable {source text wanted : String} {lexemes : List Lexeme} {stop : Symbol} {c c' : Cursor}

/-! ## Cursors of a source -/

/-- Past the last lexeme of a source, the end of the input is seen, which stands at its end. -/
theorem Cursor.Inside.end_of_nil (scanned : scan source = .ok lexemes) (inside : c.Inside lexemes)
    (nil : c.ahead = []) : c.current.token = .eof ∧ c.current.start.offset = source.length := by
  obtain ⟨front, last, rfl, _, token, empty⟩ := (legible_of_scanFrom scanned).1.exists_last
  have same : some last = some c.current := by rw [← inside.last nil, List.getLast?_concat]
  obtain rfl : last = c.current := Option.some.inj same
  obtain ⟨_, stops, _⟩ := pieces_of_scan scanned
  refine ⟨token, ?_⟩
  rw [Lexeme.stop, empty] at stops
  exact stops

/-- In front of the last lexeme of a source, the lexemes ahead are legible. -/
theorem Cursor.Inside.exists_cons (scanned : scan source = .ok lexemes) (inside : c.Inside lexemes)
    (more : c.ahead ≠ []) : ∃ front rest, lexemes = front ++ c.current :: rest
      ∧ c.ahead = c.current :: rest ∧ Legible (c.current :: rest) := by
  obtain ⟨⟨front, rfl, _⟩, _⟩ := inside
  obtain ⟨behind, _ | ⟨l, rest⟩⟩ := c
  · exact absurd rfl more
  · exact ⟨front, rest, rfl, rfl, (legible_of_scanFrom scanned).1.of_append more⟩

/-- A cursor that has passed a run of lexemes is inside the list that it was inside of. -/
theorem Cursor.Inside.passed {run : List Lexeme} (inside : c.Inside lexemes)
    (ahead : c.ahead = run ++ c'.ahead) (behind : c'.behind = run.getLastD c.behind)
    (more : c'.ahead ≠ []) : c'.Inside lexemes := by
  obtain ⟨⟨front, rfl, first⟩, _⟩ := inside
  obtain ⟨_, _ | ⟨l, rest⟩⟩ := c'
  · exact absurd rfl more
  · refine ⟨⟨front ++ run, by rw [ahead, List.append_assoc], ?_⟩, ?_⟩
    · rw [behind, first, List.getLastD_eq_getLast?, List.getLastD_eq_getLast?,
        List.getLastD_eq_getLast?, List.getLast?_append, Option.getD_or]
    · rw [ahead]
      simp [Cursor.current]

/-! ## Excerpts -/

/-- What verbatim text is in its source, read from one cursor up to another. -/
structure Excerpt (source : String) (lexemes : List Lexeme) (stop : Symbol) (text : String)
    (c c' : Cursor) : Prop where
  nonempty : text ≠ ""
  /-- It reaches from the start of a lexeme to the stop of one. -/
  bounds : c.current ∈ lexemes ∧ c'.behind ∈ lexemes
    ∧ text.toList = slice source.toList c.current.start.offset c'.behind.stop
  /-- Nothing of what stands there is trimmed. -/
  untrimmed : Text.trim (slice source.toList c.current.start.offset c'.behind.stop)
    = slice source.toList c.current.start.offset c'.behind.stop
  /-- The stop symbol stands behind it and is not passed. -/
  stopped : c'.Inside lexemes ∧ c'.current.token = .symbol stop

/-- At the end of a source there is no verbatim text. -/
theorem ahead_ne_nil_of_verbatim (scanned : scan source = .ok lexemes) (inside : c.Inside lexemes)
    (read : verbatim stop wanted c = .ok (text, c')) : c.ahead ≠ [] := by
  intro nil
  have eof : c.behind.token = .eof := by
    simpa [Cursor.current, nil] using (inside.end_of_nil scanned nil).1
  rw [verbatim, nil, lexemesTo, depthAfter, if_pos eof] at read
  cases read

/-- What is read as verbatim text is an excerpt of the source. -/
theorem excerpt_of_verbatim (scanned : scan source = .ok lexemes) (inside : c.Inside lexemes)
    (read : verbatim stop wanted c = .ok (text, c')) : Excerpt source lexemes stop text c c' := by
  obtain ⟨front, rest, split, ahead, legible⟩ :=
    inside.exists_cons scanned (ahead_ne_nil_of_verbatim scanned inside read)
  obtain ⟨run, nonempty, passed, stream, solid, _, rfl, behind, stopped⟩ :=
    run_of_verbatim (ahead ▸ legible.stream) read
  have inside' : c'.Inside lexemes := inside.passed passed behind stream.ne_nil
  have whole : lexemes = front ++ (run ++ c'.ahead) := by rw [split, ← ahead, passed]
  have first : (run ++ c'.ahead).head? = some c.current := by
    rw [← passed, ahead]
    rfl
  obtain ⟨_, _, spanned⟩ := spannedText_eq_slice (whole ▸ scanned) first
  -- the last lexeme of the run is the one behind the cursor
  obtain ⟨body, last, concat⟩ := (List.eq_nil_or_concat run).resolve_left nonempty
  rw [List.concat_eq_append] at concat
  obtain rfl : c'.behind = last := by rw [behind, concat, List.getLastD_concat]
  have stop : stopOf c.current.start.offset run = c'.behind.stop := by rw [concat, stopOf_concat]
  rw [stop] at spanned
  refine ⟨?_, ⟨inside.current_mem, ?_, ?_⟩, ?_, inside', stopped⟩
  · intro none
    exact spannedText_ne_nil solid nonempty (by simpa using none)
  · rw [whole, concat]
    simp
  · rw [String.toList_ofList, spanned]
  · rw [← spanned, trim_spannedText solid]

/-! ## Read again -/

/-- No token goes on with a stop symbol. -/
theorem neutral_stop (symbol : stop = .closeParen ∨ stop = .semicolon) (after : List Char) :
    Neutral (stop.text.toList ++ after) := by
  intro c hc
  rcases symbol with rfl | rfl <;> cases hc <;> decide

/-- A stop symbol goes on with nothing. -/
theorem ends_stop (symbol : stop = .closeParen ∨ stop = .semicolon) (after : List Char) :
    Token.Ends (.symbol stop) after := by
  rcases symbol with rfl | rfl <;> exact fun _ _ => rfl

section Again

variable {run rest : List Lexeme} (legible : Legible (run ++ rest)) (more : rest ≠ [])
  (symbol : stop = .closeParen ∨ stop = .semicolon)
include legible more symbol

/-- In front of a stop symbol, the text that lexemes span is cut into the same tokens, whatever place
    it is scanned from, and behind the symbol the scanner starts anew. -/
theorem scanFrom_stopped (place : Position) (after : List Char) :
    ∃ run', run'.map (·.token) = run.map (·.token) ∧ spannedText run' = spannedText run
      ∧ scanFrom place (spannedText run ++ (stop.text.toList ++ after))
        = (scanFrom ((place.advance (spannedText run)).advance stop.text.toList) after).map
          (run' ++ ⟨[], .symbol stop, stop.text.toList, place.advance (spannedText run)⟩ :: ·) := by
  obtain ⟨run', tokens, texts, scanned⟩ :=
    scan_spannedText legible more (neutral_stop symbol after) place
  refine ⟨run', tokens, texts, ?_⟩
  rw [scanned, scanFrom_token (Token.isRead_of_spelling (.symbol stop) (ends_stop symbol after))]
  cases scanFrom _ after <;> rfl

/-- Where a lexeme starts in front of the text that others span and of a stop symbol, the source goes
    on with the tokens of the others and with that symbol. -/
theorem exists_run_of_scan {before after : List Char} {front tail : List Lexeme} {l : Lexeme}
    (nonempty : run ≠ [])
    (whole : source.toList = before ++ (spannedText run ++ (stop.text.toList ++ after)))
    (scanned : scan source = .ok (front ++ l :: tail)) (here : l.start.offset = before.length) :
    ∃ run' s rest', l :: tail = run' ++ s :: rest' ∧ run'.map (·.token) = run.map (·.token)
      ∧ spannedText run' = spannedText run ∧ s.token = .symbol stop
      ∧ s.start.offset = before.length + (spannedText run).length := by
  obtain ⟨start, parts⟩ := start_of_scan scanned rfl
  have lengths : (written front ++ l.gap).length = before.length := by
    rw [← here, start, Position.offset_advance]
    exact (Nat.zero_add _).symm
  obtain ⟨_, text⟩ := List.append_inj (parts.trans whole) lengths
  obtain ⟨run', tokens, texts, stopped⟩ := scanFrom_stopped legible more symbol l.start after
  have cut := scanFrom_start scanned
  rw [text, stopped] at cut
  cases behind : scanFrom _ after with
  | error fault =>
    rw [behind] at cut
    cases cut
  | ok rest' =>
    rw [behind] at cut
    cases run' with
    | nil => exact absurd (List.map_eq_nil_iff.1 tokens.symm) nonempty
    | cons m run' =>
      -- the lexeme itself has the gap that the scanner did not see
      obtain ⟨rfl, rfl⟩ := List.cons.inj (Except.ok.inj cut)
      refine ⟨l :: run', _, rest', rfl, tokens, texts, rfl, ?_⟩
      rw [Position.offset_advance, here]

/-- A balanced run of lexemes is read again, as verbatim text, in any source in which the text that it
    spans stands at the cursor and the stop symbol behind it. -/
theorem verbatim_again {before after : List Char} (nonempty : run ≠ [])
    (balanced : Balanced stop 0 (run.map (·.token)))
    (whole : source.toList = before ++ (spannedText run ++ (stop.text.toList ++ after)))
    (scanned : scan source = .ok lexemes) (inside : c.Inside lexemes)
    (here : c.current.start.offset = before.length) (wanted : String) :
    ∃ c', verbatim stop wanted c = .ok (String.ofList (spannedText run), c')
      ∧ c'.current.start.offset = before.length + (spannedText run).length := by
  have ahead : c.ahead ≠ [] := by
    intro nil
    obtain ⟨_, atEnd⟩ := inside.end_of_nil scanned nil
    have := congrArg List.length whole
    have := List.length_pos_iff.2 (Token.Spelling.symbol stop).ne_nil
    simp only [List.length_append, String.length_toList] at *
    omega
  obtain ⟨front, tail, split, ahead, legible'⟩ := inside.exists_cons scanned ahead
  obtain ⟨run', s, rest', cut, tokens, texts, token, offset⟩ :=
    exists_run_of_scan legible more symbol nonempty whole (split ▸ scanned) here
  have st : Stream (run' ++ s :: rest') := cut ▸ legible'.stream
  have nonempty' : run' ≠ [] := by
    rintro rfl
    exact nonempty (List.map_eq_nil_iff.1 tokens.symm)
  refine ⟨⟨run'.getLastD c.behind, s :: rest'⟩, ?_, offset⟩
  rw [← texts]
  exact verbatim_of_balanced (ahead.trans cut) token nonempty' (st.of_append (by simp)).1
    (tokens ▸ balanced)

end Again

/-- Verbatim text is an excerpt of its source; and wherever it stands in a source, in front of the stop
    symbol and where a token starts, it is read again up to that symbol. -/
theorem verbatim_reread (scanned : scan source = .ok lexemes) (inside : c.Inside lexemes)
    (symbol : stop = .closeParen ∨ stop = .semicolon)
    (read : verbatim stop wanted c = .ok (text, c')) :
    Excerpt source lexemes stop text c c'
      ∧ ∀ before after lexemes', scan (before ++ text ++ stop.text ++ after) = .ok lexemes' →
        ∀ d : Cursor, d.Inside lexemes' → d.current.start.offset = before.length →
          ∀ wanted', ∃ d', verbatim stop wanted' d = .ok (text, d')
            ∧ Excerpt (before ++ text ++ stop.text ++ after) lexemes' stop text d d'
            ∧ d'.current.start.offset = before.length + text.length := by
  refine ⟨excerpt_of_verbatim scanned inside read, ?_⟩
  intro before after lexemes' scanned' d inside' here wanted'
  obtain ⟨_, rest, _, ahead, legible⟩ :=
    inside.exists_cons scanned (ahead_ne_nil_of_verbatim scanned inside read)
  obtain ⟨run, nonempty, passed, stream, _, balanced, rfl, _⟩ :=
    run_of_verbatim (ahead ▸ legible.stream) read
  rw [← ahead, passed] at legible
  have whole : (before ++ String.ofList (spannedText run) ++ stop.text ++ after).toList
      = before.toList ++ (spannedText run ++ (stop.text.toList ++ after.toList)) := by
    simp only [String.toList_append, String.toList_ofList, List.append_assoc]
  rw [← String.length_toList] at here
  obtain ⟨d', again, offset⟩ := verbatim_again legible stream.ne_nil symbol nonempty balanced whole
    scanned' inside' here wanted'
  refine ⟨d', again, excerpt_of_verbatim scanned' inside' again, ?_⟩
  rw [offset, String.length_toList, String.length_ofList]

/-- A text with a literal, a run in quotes, comments, line feeds, and brackets that close brackets of
    another kind. -/
def mixedText : String := "[\")\n\"\x7d/*)*/(';']//)\n-"

/-- A source in which a comment stands behind the text. -/
def mixedSource : String := "(" ++ mixedText ++ "/*;*/);"

/-- The lexemes of the source. -/
def mixedLexemes : List Lexeme :=
  [("", .symbol .openParen, "(", ⟨1, 1, 0⟩), ("", .symbol .openBracket, "[", ⟨1, 2, 1⟩),
    ("", .literal ")\n", "\")\n\"", ⟨1, 3, 2⟩), ("", .symbol .closeBrace, "\x7d", ⟨2, 2, 6⟩),
    ("/*)*/", .symbol .openParen, "(", ⟨2, 8, 12⟩), ("", .other "';'", "';'", ⟨2, 9, 13⟩),
    ("", .symbol .closeBracket, "]", ⟨2, 12, 16⟩), ("//)\n", .symbol .minus, "-", ⟨3, 1, 21⟩),
    ("/*;*/", .symbol .closeParen, ")", ⟨3, 7, 27⟩), ("", .symbol .semicolon, ";", ⟨3, 8, 28⟩),
    ("", .eof, "", ⟨3, 9, 29⟩)].map
    fun (gap, token, text, start) => ⟨gap.toList, token, text.toList, start⟩

/-- Another source with the text, on other lines and in front of the stop symbol. -/
def otherSource : String := "a;\n" ++ mixedText ++ ")" ++ ">"

/-- The lexemes of the other source. -/
def otherLexemes : List Lexeme :=
  [("", .identifier "a", "a", ⟨1, 1, 0⟩), ("", .symbol .semicolon, ";", ⟨1, 2, 1⟩),
    ("\n", .symbol .openBracket, "[", ⟨2, 1, 3⟩), ("", .literal ")\n", "\")\n\"", ⟨2, 2, 4⟩),
    ("", .symbol .closeBrace, "\x7d", ⟨3, 2, 8⟩), ("/*)*/", .symbol .openParen, "(", ⟨3, 8, 14⟩),
    ("", .other "';'", "';'", ⟨3, 9, 15⟩), ("", .symbol .closeBracket, "]", ⟨3, 12, 18⟩),
    ("//)\n", .symbol .minus, "-", ⟨4, 1, 23⟩), ("", .symbol .closeParen, ")", ⟨4, 2, 24⟩),
    ("", .symbol .greater, ">", ⟨4, 3, 25⟩), ("", .eof, "", ⟨4, 4, 26⟩)].map
    fun (gap, token, text, start) => ⟨gap.toList, token, text.toList, start⟩

theorem verbatim_reread_mixed :
    scan mixedSource = .ok mixedLexemes ∧ scan otherSource = .ok otherLexemes
      ∧ ∃ c', verbatim .closeParen "code type" (Cursor.ofList mixedLexemes).next = .ok (mixedText, c')
        ∧ Excerpt mixedSource mixedLexemes .closeParen mixedText (Cursor.ofList mixedLexemes).next c'
        ∧ ∃ d', verbatim .closeParen "code type" (Cursor.ofList otherLexemes).next.next
            = .ok (mixedText, d')
          ∧ d'.current.token = .symbol .closeParen ∧ d'.current.start.offset = 24 := by
  have first : scan mixedSource = .ok mixedLexemes := eq_ok_of_toOption (by decide +kernel)
  have second : scan otherSource = .ok otherLexemes := eq_ok_of_toOption (by decide +kernel)
  have read : verbatim .closeParen "code type" (Cursor.ofList mixedLexemes).next
      = .ok (mixedText, ⟨mixedLexemes[7], mixedLexemes.drop 8⟩) :=
    eq_ok_of_toOption (by decide +kernel)
  obtain ⟨excerpt, again⟩ :=
    verbatim_reread first (Cursor.inside_ofList (by decide)).next (.inl rfl) read
  obtain ⟨d', reread, excerpt', offset⟩ :=
    again "a;\n" ">" otherLexemes second _ (Cursor.inside_ofList (by decide)).next.next rfl "code type"
  exact ⟨first, second, _, read, excerpt, d', reread, excerpt'.stopped.2, offset⟩

end LibrarySpec
