/-
  What the scanner cuts a text into.

    1. `Gap.Closed`: a gap that ends by itself, whatever follows.  Every gap in front of a token is
       closed; only a line comment at the very end of a text may not be.
    2. `Legible`: the lexemes of a text.  Every gap is closed, every text spells its token, every
       token ends in front of what is written behind it, and the end of the input comes last.
    3. `scanFrom_gap` and `scanFrom_token` run the scanner over a text that is put together from
       gaps and spellings.

  Main statements: `legible_of_scan`, what the scanner answers is legible and is all of the text;
  `scan_run`, lexemes out of the middle of one text are read again in front of another text, as long
  as that begins with a character that no token goes on with (`Neutral`); and so is the text that they
  span, without the gap before the first of them (`scan_spannedText`).
-/
import LibrarySpec.Proofs.Grammar.Reading
import LibrarySpec.Proofs.Scanning.Tokens

namespace LibrarySpec

open Text (Position isBlank)

/-! ## Gaps -/

namespace Gap

/-- A gap that ends by itself. -/
inductive Closed : List Char → Prop where
  | nil : Closed []
  | blank {c : Char} {g : List Char} (h : isBlank c = true) (rest : Closed g) : Closed (c :: g)
  | line {body g : List Char} (h : ∀ c ∈ body, c ≠ '\n') (rest : Closed ('\n' :: g)) :
      Closed ('/' :: '/' :: (body ++ '\n' :: g))
  | block {inside g : List Char} (h : closing? inside = some (inside, [])) (rest : Closed g) :
      Closed ('/' :: '*' :: (inside ++ g))

theorem ne_nil_of_closing? {text inside rest : List Char}
    (h : closing? text = some (inside, rest)) : inside ≠ [] := by
  fun_induction closing? text with
  | case1 =>
    cases h
    simp
  | case2 c rest' _ ih =>
    obtain ⟨_, _, h⟩ := Option.map_eq_some_iff.1 h
    cases h
    simp
  | case3 => cases h

/-- Where a block comment closes does not depend on what stands behind it. -/
theorem closing?_append {text inside rest : List Char} (h : closing? text = some (inside, rest))
    (after : List Char) : closing? (inside ++ after) = some (inside, after) := by
  fun_induction closing? text generalizing inside with
  | case1 rest' =>
    cases h
    simp [closing?]
  | case2 c rest' hstar ih =>
    obtain ⟨⟨i, a⟩, hi, h⟩ := Option.map_eq_some_iff.1 h
    cases h
    have joined := append_of_closing? hi
    rw [List.cons_append, closing?, ih hi]
    · rfl
    · -- a star in front of a slash would have closed the comment
      rintro rest'' rfl heq
      cases i with
      | nil => exact ne_nil_of_closing? hi rfl
      | cons d i =>
        cases heq
        exact hstar _ rfl joined.symm
  | case3 => cases h

/-- A closed gap is all gap, and what follows it is split as it is alone. -/
theorem split_append {g : List Char} (h : Closed g) (after : List Char) :
    split (g ++ after) = (g ++ (split after).1, (split after).2) := by
  induction h with
  | nil => rfl
  | blank hc _ ih => rw [List.cons_append, split, if_pos hc, ih, List.cons_append]
  | @line body g hbody _ ih =>
    have found : comment? (('/' :: '/' :: (body ++ '\n' :: g)) ++ after)
        = some ('/' :: '/' :: body, '\n' :: g ++ after) := by
      have stop : ∀ c ∈ ('\n' :: (g ++ after)).head?, (c != '\n') = false := by simp
      obtain ⟨htake, hdrop⟩ :=
        Token.takeWhile_append (p := (· != '\n')) (by simpa using hbody) stop
      simp only [List.cons_append, List.append_assoc, comment?, htake, hdrop]
    rw [List.cons_append, split, if_neg (by decide)]
    split
    · rename_i hnone
      rw [← List.cons_append, found] at hnone
      cases hnone
    · rename_i hsome
      rw [← List.cons_append, found] at hsome
      cases hsome
      rw [ih]
      simp
  | @block inside g hinside _ ih =>
    have found : comment? (('/' :: '*' :: (inside ++ g)) ++ after)
        = some ('/' :: '*' :: inside, g ++ after) := by
      simp only [List.cons_append, List.append_assoc, comment?,
        closing?_append hinside (g ++ after), Option.map_some]
    rw [List.cons_append, split, if_neg (by decide)]
    split
    · rename_i hnone
      rw [← List.cons_append, found] at hnone
      cases hnone
    · rename_i hsome
      rw [← List.cons_append, found] at hsome
      cases hsome
      rw [ih]
      simp

/-- In front of a token stands a closed gap, and the token begins with neither a blank nor a
    comment. -/
theorem closed_of_split {text gap rest : List Char} {c : Char}
    (h : split text = (gap, c :: rest)) :
    Closed gap ∧ isBlank c = false ∧ comment? (c :: rest) = none := by
  fun_induction split text generalizing gap with
  | case1 => cases h
  | case2 d rest' hd gap' after hsplit ih =>
    cases h
    obtain ⟨closed, front⟩ := ih hsplit
    exact ⟨.blank hd closed, front⟩
  | case3 d rest' hd hnone =>
    cases h
    exact ⟨.nil, by simpa using hd, hnone⟩
  | case4 d rest' hd inside after hcomment _ gap' after' hsplit ih =>
    cases h
    obtain ⟨closed, front⟩ := ih hsplit
    refine ⟨?_, front⟩
    unfold comment? at hcomment
    split at hcomment
    · rename_i line heq
      cases hcomment
      -- the line ends, for the gap ends, and its line feed belongs to the rest of the gap
      have body : ∀ x ∈ line.takeWhile (· != '\n'), x ≠ '\n' :=
        fun x hx => by simpa using Token.all_takeWhile x hx
      have head : ∀ x ∈ (line.dropWhile (· != '\n')).head?, (x != '\n') = false :=
        Token.head_dropWhile
      cases hline : line.dropWhile (· != '\n') with
      | nil =>
        rw [hline, split] at hsplit
        cases hsplit
      | cons x more =>
        obtain rfl : x = '\n' := by simpa using head x (by rw [hline]; rfl)
        rw [hline, split, if_pos (by decide)] at hsplit
        obtain ⟨rfl, _⟩ := Prod.mk.inj hsplit
        exact .line body closed
    · rename_i heq
      obtain ⟨⟨i, a⟩, hi, hcomment⟩ := Option.map_eq_some_iff.1 hcomment
      cases hcomment
      have alone := closing?_append hi []
      rw [List.append_nil] at alone
      exact .block alone closed
    · cases hcomment

end Gap

/-! ## Lexemes -/

/-- The text that lexemes stand for. -/
def written (ls : List Lexeme) : List Char := ls.flatMap fun l => l.gap ++ l.text

theorem written_cons (l : Lexeme) (ls : List Lexeme) :
    written (l :: ls) = l.gap ++ (l.text ++ written ls) := List.append_assoc _ _ _

theorem written_append (ls ms : List Lexeme) : written (ls ++ ms) = written ls ++ written ms :=
  List.flatMap_append

/-- Lexemes as they stand in a text, with the end of the input last. -/
inductive Legible : List Lexeme → Prop where
  | eof (l : Lexeme) (token : l.token = .eof) (text : l.text = []) : Legible [l]
  | cons (l : Lexeme) {rest : List Lexeme} (gap : Gap.Closed l.gap)
      (spelling : Token.Spelling l.token l.text) (ends : Token.Ends l.token (written rest))
      (tail : Legible rest) : Legible (l :: rest)

/-- What is known of a lexeme in front of others. -/
theorem Legible.of_cons {l : Lexeme} {rest : List Lexeme} (h : Legible (l :: rest))
    (hr : rest ≠ []) :
    Gap.Closed l.gap ∧ Token.Spelling l.token l.text ∧ Token.Ends l.token (written rest)
      ∧ Legible rest := by
  cases h with
  | eof => exact absurd rfl hr
  | cons _ gap spelling ends tail => exact ⟨gap, spelling, ends, tail⟩

theorem Legible.of_append {run rest : List Lexeme} (h : Legible (run ++ rest)) (hr : rest ≠ []) :
    Legible rest := by
  induction run with
  | nil => exact h
  | cons l run ih =>
    rw [List.cons_append] at h
    exact ih (h.of_cons (by simp [hr])).2.2.2

/-- A lexeme of a text that is not the end of the input is spelled as its token. -/
theorem Legible.spelling_of_mem {l : Lexeme} {lexemes : List Lexeme}
    (h : Legible lexemes) (hl : l ∈ lexemes) (ht : l.token ≠ .eof) :
    Token.Spelling l.token l.text := by
  induction h with
  | eof m token =>
    rw [List.mem_singleton.1 hl] at ht
    exact absurd token ht
  | cons m gap spelling ends tail ih =>
    rcases List.mem_cons.1 hl with rfl | hl
    · exact spelling
    · exact ih hl

theorem scanFrom_end {place : Position} {text gap : List Char} (h : Gap.split text = (gap, [])) :
    scanFrom place text = .ok [⟨gap, .eof, [], place.advance gap⟩] := by
  rw [scanFrom]
  split
  · rename_i gap' h'
    rw [h] at h'
    cases h'
    rfl
  · rename_i h'
    rw [h] at h'
    cases h'

theorem scanFrom_step {place : Position} {text gap rest spelling after : List Char} {c : Char}
    {token : Token} (h : Gap.split text = (gap, c :: rest))
    (hr : Token.read c rest = .ok (token, spelling, after)) :
    scanFrom place text = (scanFrom ((place.advance gap).advance spelling) after).map
      (⟨gap, token, spelling, place.advance gap⟩ :: ·) := by
  rw [scanFrom]
  split
  · rename_i h'
    rw [h] at h'
    cases h'
  · rename_i gap' c' rest' h'
    rw [h] at h'
    cases h'
    split
    · rename_i hr'
      rw [hr] at hr'
      cases hr'
    · rename_i hr'
      rw [hr] at hr'
      cases hr'
      rfl

theorem scanFrom_fault {place : Position} {text gap rest : List Char} {c : Char}
    {defect : Token.Defect} (h : Gap.split text = (gap, c :: rest))
    (hr : Token.read c rest = .error defect) :
    scanFrom place text = .error (defect.locate (place.advance gap) (c :: rest)) := by
  rw [scanFrom]
  split
  · rename_i h'
    rw [h] at h'
    cases h'
  · rename_i gap' c' rest' h'
    rw [h] at h'
    cases h'
    split
    · rename_i hr'
      rw [hr] at hr'
      cases hr'
      rfl
    · rename_i hr'
      rw [hr] at hr'
      cases hr'

/-- The first lexeme of a text, and those behind it. -/
theorem read_of_scanFrom {place : Position} {text gap rest : List Char} {c : Char}
    {ls : List Lexeme} (h : Gap.split text = (gap, c :: rest)) (hs : scanFrom place text = .ok ls) :
    ∃ token spelling after tail, Token.read c rest = .ok (token, spelling, after)
      ∧ scanFrom ((place.advance gap).advance spelling) after = .ok tail
      ∧ ls = ⟨gap, token, spelling, place.advance gap⟩ :: tail := by
  cases hr : Token.read c rest with
  | error defect =>
    rw [scanFrom_fault h hr] at hs
    cases hs
  | ok r =>
    obtain ⟨token, spelling, after⟩ := r
    rw [scanFrom_step h hr] at hs
    cases htail : scanFrom ((place.advance gap).advance spelling) after with
    | error e =>
      rw [htail] at hs
      cases hs
    | ok tail =>
      rw [htail] at hs
      cases hs
      exact ⟨token, spelling, after, tail, rfl, htail, rfl⟩

/-- What stands behind the first token of a text is shorter than the text. -/
theorem length_of_read {text gap rest spelling after : List Char} {c : Char} {token : Token}
    (h : Gap.split text = (gap, c :: rest)) (hr : Token.read c rest = .ok (token, spelling, after)) :
    after.length < text.length := by
  have whole := congrArg List.length (Gap.append_split text)
  obtain ⟨joined, nonempty⟩ := Token.append_of_read hr
  have := congrArg List.length joined
  have := List.length_pos_iff.2 nonempty
  simp only [h, List.length_append, List.length_cons] at *
  omega

/-- What the scanner answers is legible, and it is all of the text. -/
theorem legible_of_scanFrom {place : Position} {text : List Char} {ls : List Lexeme}
    (h : scanFrom place text = .ok ls) : Legible ls ∧ written ls = text := by
  induction hn : text.length using Nat.strongRecOn generalizing place text ls with
  | _ n ih =>
    have whole := Gap.append_split text
    cases hsplit : Gap.split text with
    | mk gap rest =>
      rw [hsplit] at whole
      cases rest with
      | nil =>
        rw [scanFrom_end hsplit] at h
        cases h
        rw [List.append_nil] at whole
        refine ⟨.eof _ rfl rfl, ?_⟩
        simpa [written] using whole
      | cons c rest =>
        obtain ⟨token, spelling, after, tail, hr, htail, rfl⟩ := read_of_scanFrom hsplit h
        obtain ⟨closed, blank, comment⟩ := Gap.closed_of_split hsplit
        obtain ⟨spelled, ends⟩ := Token.read_eq_ok hr blank comment
        obtain ⟨joined, _⟩ := Token.append_of_read hr
        have shorter : after.length < n := hn ▸ length_of_read hsplit hr
        obtain ⟨legible, rfl⟩ := ih after.length shorter htail rfl
        refine ⟨.cons _ closed spelled ends legible, ?_⟩
        rw [← whole, ← joined]
        simp [written]

/-- The first lexeme starts behind its gap, and those behind it are what is scanned from its stop
    on. -/
theorem of_scanFrom_cons {place : Position} {text : List Char} {l : Lexeme} {rest : List Lexeme}
    (h : scanFrom place text = .ok (l :: rest)) :
    l.start = place.advance l.gap
      ∧ (rest ≠ [] → scanFrom (l.start.advance l.text) (written rest) = .ok rest) := by
  cases hsplit : Gap.split text with
  | mk gap after =>
    cases after with
    | nil =>
      rw [scanFrom_end hsplit] at h
      cases h
      exact ⟨rfl, fun more => absurd rfl more⟩
    | cons c after =>
      obtain ⟨_, _, _, _, _, scanned, first⟩ := read_of_scanFrom hsplit h
      cases first
      exact ⟨rfl, fun _ => by rw [(legible_of_scanFrom scanned).2]; exact scanned⟩

/-! ## Visible ends -/

namespace Token

theorem getLast?_of_quotedRead {text value spelling rest : List Char}
    (h : Text.Quoted.read text = .ok (value, spelling, rest)) : spelling.getLast? = some '"' := by
  fun_induction Text.Quoted.read text generalizing value spelling with
  | case1 => cases h
  | case2 rest' =>
    cases h
    rfl
  | case3 => cases h
  | case4 => cases h
  | case5 letter rest' c hc ih =>
    cases hr : Text.Quoted.read rest' with
    | error e =>
      rw [hr] at h
      cases h
    | ok r =>
      obtain ⟨v, s, a⟩ := r
      rw [hr] at h
      cases h
      rw [List.getLast?_cons, List.getLast?_cons, ih hr]
      rfl
  | case6 c rest' hquote hlast hescape ih =>
    cases hr : Text.Quoted.read rest' with
    | error e =>
      rw [hr] at h
      cases h
    | ok r =>
      obtain ⟨v, s, a⟩ := r
      rw [hr] at h
      cases h
      rw [List.getLast?_cons, ih hr]
      rfl

theorem getLast?_of_quoteEnd? {text inside rest : List Char}
    (h : quoteEnd? text = some (inside, rest)) : inside.getLast? = some '\'' := by
  fun_induction quoteEnd? text generalizing inside with
  | case1 => cases h
  | case2 => cases h
  | case3 rest' =>
    cases h
    rfl
  | case4 => cases h
  | case5 c rest' ih =>
    obtain ⟨⟨i, a⟩, hi, h⟩ := Option.map_eq_some_iff.1 h
    cases h
    rw [List.getLast?_cons, List.getLast?_cons, ih hi]
    rfl
  | case6 c rest' hfeed hquote hlast hescape ih =>
    obtain ⟨⟨i, a⟩, hi, h⟩ := Option.map_eq_some_iff.1 h
    cases h
    rw [List.getLast?_cons, ih hi]
    rfl

/-- A token ends in front of nothing. -/
theorem ends_nil (token : Token) : Ends token [] := by
  cases token <;> simp [Ends]

/-- No spelling begins with a blank. -/
theorem Spelling.first_visible {token : Token} {text : List Char} (h : Spelling token text) :
    ∀ c ∈ text.head?, isBlank c = false := by
  obtain ⟨c, rest, rfl, blank, _⟩ := isRead_of_spelling h (ends_nil token)
  intro d hd
  cases hd
  exact blank

/-- No spelling ends with a blank. -/
theorem Spelling.last_visible {token : Token} {text : List Char} (h : Spelling token text) :
    ∀ c ∈ text.getLast?, isBlank c = false := by
  intro c hc
  cases h with
  | literal h =>
    rw [List.getLast?_cons, getLast?_of_quotedRead h] at hc
    cases hc
    decide
  | quoted h =>
    rw [List.getLast?_cons, getLast?_of_quoteEnd? h] at hc
    cases hc
    decide
  | integer nonempty all =>
    exact isBlank_of_isWordPart (isWordPart_of_isDigit (all c (List.mem_of_getLast? hc)))
  | @float whole fraction nonempty some all all' =>
    rw [List.getLast?_append, List.getLast?_cons, List.getLast?_eq_some_getLast some] at hc
    cases hc
    exact isBlank_of_isWordPart (isWordPart_of_isDigit (all' _ (List.getLast_mem some)))
  | @word d rest start all =>
    refine isBlank_of_isWordPart ?_
    rcases List.mem_cons.1 (List.mem_of_getLast? hc) with rfl | hmem
    · exact isWordPart_of_isWordStart start
    · exact all c hmem
  | symbol s => cases s <;> cases hc <;> decide
  | foreign blank =>
    cases hc
    exact blank

end Token

/-- Legible lexemes are a stream. -/
theorem Legible.stream {ls : List Lexeme} (h : Legible ls) : Stream ls := by
  induction h with
  | eof l token => exact .eof l token
  | cons l gap spelling ends tail ih =>
    refine .cons l ⟨?_, spelling.ne_nil, spelling.first_visible, spelling.last_visible⟩ ih
    intro heq
    rw [heq] at spelling
    exact Token.Spelling.ne_eof spelling

/-! ## Scanning a text put together -/

/-- Lexemes with more of a gap before the first. -/
def regap (g : List Char) : List Lexeme → List Lexeme
  | [] => []
  | l :: rest => { l with gap := g ++ l.gap } :: rest

theorem scanFrom_gap {place : Position} {g : List Char} (hg : Gap.Closed g) (text : List Char) :
    scanFrom place (g ++ text) = (scanFrom (place.advance g) text).map (regap g) := by
  have split := Gap.split_append hg text
  cases hsplit : Gap.split text with
  | mk gap rest =>
    rw [hsplit] at split
    cases rest with
    | nil =>
      rw [scanFrom_end split, scanFrom_end hsplit, Position.advance_append]
      rfl
    | cons c rest =>
      cases hr : Token.read c rest with
      | error defect =>
        rw [scanFrom_fault split hr, scanFrom_fault hsplit hr, Position.advance_append]
        rfl
      | ok r =>
        obtain ⟨token, spelling, after⟩ := r
        rw [scanFrom_step split hr, scanFrom_step hsplit hr, Position.advance_append]
        cases scanFrom ((((place.advance g).advance gap)).advance spelling) after <;> rfl

theorem split_of_isRead {token : Token} {text after : List Char}
    (h : Token.IsRead token text after) : Gap.split (text ++ after) = ([], text ++ after) := by
  obtain ⟨c, rest, rfl, blank, comment, _⟩ := h
  rw [List.cons_append] at comment ⊢
  rw [Gap.split, if_neg (by simp [blank])]
  split
  · rfl
  · rename_i hsome
    rw [comment] at hsome
    cases hsome

theorem scanFrom_token {token : Token} {text after : List Char}
    (h : Token.IsRead token text after) (place : Position) :
    scanFrom place (text ++ after)
      = (scanFrom (place.advance text) after).map (⟨[], token, text, place⟩ :: ·) := by
  have split := split_of_isRead h
  obtain ⟨c, rest, rfl, _, _, hr⟩ := h
  rw [List.cons_append] at split ⊢
  rw [scanFrom_step split hr]
  rfl

/-! ## Lexemes read again -/

/-- The text is empty or begins with a character that no token goes on with. -/
def Neutral (text : List Char) : Prop :=
  ∀ c ∈ text.head?, Token.isWordPart c = false ∧ c ∉ ['.', '>', '=', '*', '/']

namespace Token

theorem ends_of_neutral (token : Token) {text : List Char} (h : Neutral text) :
    Ends token text := by
  have digit : ∀ c ∈ text.head?, c.isDigit = false := fun c hc => (not_isWordPart (h c hc).1).1
  cases token with
  | keyword k => exact fun c hc => (h c hc).1
  | identifier name => exact fun c hc => (h c hc).1
  | integer n =>
    refine ⟨digit, ?_⟩
    rintro d rest rfl
    exact absurd (h '.' rfl).2 (by simp)
  | float x => exact digit
  | symbol s =>
    intro c hc
    have hn := (h c hc).2
    simp only [List.mem_cons, not_or, List.not_mem_nil, not_false_eq_true, and_true] at hn
    cases s <;> simp [Symbol.goesOn, hn]
  | _ => trivial

/-- Where a token ends depends on what stands behind it only up to a neutral text. -/
theorem ends_append {token : Token} {front back back' : List Char}
    (h : Ends token (front ++ back)) (hn : Neutral back') : Ends token (front ++ back') := by
  cases front with
  | nil => exact ends_of_neutral token hn
  | cons c front =>
    cases token with
    | integer n =>
      refine ⟨h.1, ?_⟩
      intro d rest heq
      cases front with
      | nil =>
        cases heq
        exact (not_isWordPart (hn d rfl).1).1
      | cons e front =>
        cases heq
        exact h.2 d (front ++ back) rfl
    | _ => exact h

end Token

/-- The lexemes without their places. -/
def cores (ls : List Lexeme) : List (List Char × Token × List Char) :=
  ls.map fun l => (l.gap, l.token, l.text)

theorem cores_written (ls : List Lexeme) :
    written ls = (cores ls).flatMap fun core => core.1 ++ core.2.2 := by
  rw [written, cores, List.flatMap_map]

theorem tokens_of_cores {ls ms : List Lexeme} (h : cores ls = cores ms) :
    ls.map (·.token) = ms.map (·.token) := by
  have tokens := congrArg (List.map fun core => core.2.1) h
  simpa [cores, Function.comp_def] using tokens

/-- The text that lexemes span does not depend on their places. -/
theorem spannedText_congr {ls ms : List Lexeme} (h : cores ls = cores ms) :
    Parser.spannedText ls = Parser.spannedText ms := by
  cases ls with
  | nil =>
    rw [List.map_eq_nil_iff.1 h.symm]
  | cons l ls =>
    cases ms with
    | nil => cases h
    | cons m ms =>
      obtain ⟨first, rest⟩ := List.cons.inj h
      have text : l.text = m.text := congrArg (fun core => core.2.2) first
      have tail : written ls = written ms := by
        rw [cores_written, cores_written]
        exact congrArg _ rest
      show l.text ++ written ls = m.text ++ written ms
      rw [text, tail]

/-- Lexemes in front of others are read again in front of another text. -/
theorem scan_run {run rest : List Lexeme} (h : Legible (run ++ rest)) (hr : rest ≠ [])
    {text : List Char} (hn : Neutral text) (place : Position) :
    ∃ run', cores run' = cores run
      ∧ scanFrom place (written run ++ text)
        = (scanFrom (place.advance (written run)) text).map (run' ++ ·) := by
  induction run generalizing place with
  | nil =>
    refine ⟨[], rfl, ?_⟩
    have nothing : written [] = [] := rfl
    rw [nothing, List.nil_append, Position.advance_nil]
    cases scanFrom place text <;> rfl
  | cons l run ih =>
    rw [List.cons_append] at h
    obtain ⟨gap, spelling, ends, tail⟩ := h.of_cons (by simp [hr])
    obtain ⟨run', hcores, hscan⟩ := ih tail ((place.advance l.gap).advance l.text)
    have ends' : Token.Ends l.token (written run ++ text) := by
      rw [written, List.flatMap_append] at ends
      exact Token.ends_append ends hn
    have first := scanFrom_token (Token.isRead_of_spelling spelling ends') (place.advance l.gap)
    have texts : written (l :: run) ++ text = l.gap ++ (l.text ++ (written run ++ text)) := by
      simp [written]
    have places : place.advance (written (l :: run))
        = ((place.advance l.gap).advance l.text).advance (written run) := by
      simp only [written, List.flatMap_cons, Position.advance_append]
    refine ⟨⟨l.gap, l.token, l.text, place.advance l.gap⟩ :: run', ?_, ?_⟩
    · simp only [cores, List.map_cons] at hcores ⊢
      rw [hcores]
    · rw [texts, scanFrom_gap gap, first, hscan, places]
      cases scanFrom (((place.advance l.gap).advance l.text).advance (written run)) text with
      | error e => rfl
      | ok ls => simp [Except.map, regap]

/-- The text that lexemes span is read again in front of another text.  The gap before the first of
    them is not part of it. -/
theorem scan_spannedText {run rest : List Lexeme} (h : Legible (run ++ rest)) (hr : rest ≠ [])
    {text : List Char} (hn : Neutral text) (place : Position) :
    ∃ run', run'.map (·.token) = run.map (·.token)
      ∧ Parser.spannedText run' = Parser.spannedText run
      ∧ scanFrom place (Parser.spannedText run ++ text)
        = (scanFrom (place.advance (Parser.spannedText run)) text).map (run' ++ ·) := by
  cases run with
  | nil =>
    refine ⟨[], rfl, rfl, ?_⟩
    rw [Parser.spannedText, List.nil_append, Position.advance_nil]
    cases scanFrom place text <;> rfl
  | cons l run =>
    obtain ⟨_, spelling, ends, tail⟩ := h.of_cons (by simp [hr])
    have bare : Legible (({ l with gap := [] } :: run) ++ rest) :=
      .cons { l with gap := [] } .nil spelling ends tail
    obtain ⟨run', same, scanned⟩ := scan_run bare hr hn place
    exact ⟨run', (tokens_of_cores same).trans rfl, (spannedText_congr same).trans rfl, scanned⟩

end LibrarySpec
