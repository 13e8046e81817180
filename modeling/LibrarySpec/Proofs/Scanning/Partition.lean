/-
  The lexemes of a text are a partition of it.

  A text is cut into gaps and spellings that take turns, and the place of every lexeme says where its
  spelling was cut out.

    1. `Gap.Whole`: a gap as it may stand in a text.  In front of a token it ends by itself; behind
       the last token a line comment may run up to the end of the text (`whole_of_split`).
    2. `pieces_of_scan`: the text before a lexeme is what the lexemes before it are written as, so
       from the stop of the lexeme before it up to its own start is its gap, and from there up to its
       stop its spelling.
    3. `scan_spelling`: a spelling that is scanned alone gives its token again.  Every token ends in
       front of nothing, whatever it stood in front of.

  Main statement: `partitions_of_scan`.
-/
import LibrarySpec.Proofs.Parsing
import LibrarySpec.Proofs.Scanning.Places

namespace LibrarySpec

open Text (Position isBlank slice lineAt columnAt)

/-! ## Gaps at the end of a text -/

namespace Gap

/-- A gap as it may stand in a text: blanks and comments, of which the last may be a line comment
    that the end of the text ends. -/
inductive Whole : List Char → Prop where
  | closed {g : List Char} (h : Closed g) : Whole g
  | cut {g body : List Char} (h : Closed g) (line : ∀ c ∈ body, c ≠ '\n') :
      Whole (g ++ '/' :: '/' :: body)

/-- A gap that ends by itself may go on with another. -/
theorem Closed.append {g after : List Char} (h : Closed g) (h' : Closed after) :
    Closed (g ++ after) := by
  induction h with
  | nil => exact h'
  | blank hc _ ih => exact .blank hc ih
  | @line body g line _ ih =>
    rw [List.cons_append, List.cons_append, List.append_assoc]
    exact .line line ih
  | @block inside g closes _ ih =>
    rw [List.cons_append, List.cons_append, List.append_assoc]
    exact .block closes ih

/-- A gap that ends by itself may go on with one that does not. -/
theorem Closed.append_whole {g after : List Char} (h : Closed g) (h' : Whole after) :
    Whole (g ++ after) := by
  cases h' with
  | closed h' => exact .closed (h.append h')
  | cut h' line =>
    rw [← List.append_assoc]
    exact .cut (h.append h') line

/-- A line feed is taken off the start of a gap. -/
theorem Whole.of_feed {g : List Char} (h : Whole ('\n' :: g)) : Whole g := by
  generalize whole : '\n' :: g = text at h
  cases h with
  | closed h =>
    cases h <;> cases whole
    exact .closed ‹_›
  | @cut front body h line =>
    cases h <;> cases whole
    exact .cut ‹_› line

/-- What is all gap is a gap. -/
theorem whole_of_split {text gap : List Char} (h : split text = (gap, [])) : Whole gap := by
  fun_induction split text generalizing gap with
  | case1 =>
    cases h
    exact .closed .nil
  | case2 c rest blank gap' after hsplit ih =>
    cases h
    exact (Closed.blank blank .nil).append_whole (ih hsplit)
  | case3 => cases h
  | case4 c rest _ comment after hcomment _ gap' after' hsplit ih =>
    cases h
    have behind := ih hsplit
    unfold comment? at hcomment
    split at hcomment
    · rename_i line _
      cases hcomment
      have body : ∀ x ∈ line.takeWhile (· != '\n'), x ≠ '\n' :=
        fun x hx => by simpa using Token.all_takeWhile x hx
      have head : ∀ x ∈ (line.dropWhile (· != '\n')).head?, (x != '\n') = false :=
        Token.head_dropWhile
      cases hline : line.dropWhile (· != '\n') with
      | nil =>
        -- the comment runs up to the end of the text
        rw [hline, split] at hsplit
        cases hsplit
        rw [List.append_nil]
        exact .cut .nil body
      | cons x more =>
        obtain rfl : x = '\n' := by simpa using head x (by rw [hline]; rfl)
        rw [hline, split, if_pos (by decide)] at hsplit
        obtain ⟨rfl, _⟩ := Prod.mk.inj hsplit
        have front : Closed ('/' :: '/' :: (line.takeWhile (· != '\n') ++ ['\n'])) :=
          .line body (.blank (by decide) .nil)
        simpa using front.append_whole behind.of_feed
    · obtain ⟨⟨inside, rest'⟩, closes, hcomment⟩ := Option.map_eq_some_iff.1 hcomment
      cases hcomment
      have alone := closing?_append closes []
      rw [List.append_nil] at alone
      have front : Closed ('/' :: '*' :: (inside ++ [])) := .block alone .nil
      simpa using front.append_whole behind
    · cases hcomment

end Gap

/-! ## Pieces -/

/-- The end of the input is empty, and stands behind lexemes that are something else. -/
theorem Legible.exists_last {ls : List Lexeme} (h : Legible ls) :
    ∃ front last, ls = front ++ [last] ∧ (∀ l ∈ front, l.token ≠ .eof) ∧ last.token = .eof
      ∧ last.text = [] := by
  induction h with
  | eof last token text => exact ⟨[], last, rfl, List.forall_mem_nil _, token, text⟩
  | cons l gap spelling ends tail ih =>
    obtain ⟨front, last, rfl, others, token, text⟩ := ih
    refine ⟨l :: front, last, rfl, List.forall_mem_cons.2 ⟨?_, others⟩, token, text⟩
    intro eof
    rw [eof] at spelling
    exact spelling.ne_eof

/-- In front of every lexeme stands a gap. -/
theorem whole_of_scanFrom {place : Position} {text : List Char} {ls : List Lexeme}
    (h : scanFrom place text = .ok ls) : ∀ l ∈ ls, Gap.Whole l.gap := by
  induction ls generalizing place text with
  | nil => exact List.forall_mem_nil _
  | cons l ls ih =>
    cases hsplit : Gap.split text with
    | mk gap rest =>
      cases rest with
      | nil =>
        rw [scanFrom_end hsplit] at h
        cases h
        exact List.forall_mem_singleton.2 (Gap.whole_of_split hsplit)
      | cons c rest =>
        obtain ⟨token, spelling, after, tail, _, scanned, same⟩ := read_of_scanFrom hsplit h
        cases same
        exact List.forall_mem_cons.2 ⟨.closed (Gap.closed_of_split hsplit).1, ih scanned⟩

/-- The text between two offsets is what stands there. -/
theorem slice_append (before piece after : List Char) :
    slice (before ++ (piece ++ after)) before.length (before ++ piece).length = piece := by
  rw [slice, List.drop_left, List.length_append, Nat.add_sub_cancel_left, List.take_left]

section Source

variable {source : String} {lexemes front rest : List Lexeme} {l : Lexeme}

/-- Lexemes at the start of a source stop where the text stops that they are written as. -/
theorem stopOf_of_scan (h : scan source = .ok (front ++ rest)) :
    stopOf 0 front = (written front).length := by
  rcases List.eq_nil_or_concat front with rfl | ⟨body, last, rfl⟩
  · rfl
  · rw [List.concat_eq_append] at h ⊢
    rw [stopOf_concat]
    exact stop_of_scan h (List.append_assoc _ _ _)

/-- A lexeme of a source with its gap: where the two begin and end, and what is written there. -/
theorem pieces_of_scan (h : scan source = .ok (front ++ l :: rest)) :
    stopOf 0 front + l.gap.length = l.start.offset ∧ l.stop + (written rest).length = source.length
      ∧ slice source.toList (stopOf 0 front) l.start.offset = l.gap
      ∧ slice source.toList l.start.offset l.stop = l.text := by
  obtain ⟨start, whole⟩ := start_of_scan h rfl
  have begins : stopOf 0 front = (written front).length := stopOf_of_scan h
  have offset : l.start.offset = (written front ++ l.gap).length := by
    rw [start, Position.offset_advance]
    exact Nat.zero_add _
  have stops : l.stop = (written front ++ l.gap ++ l.text).length := by
    rw [Lexeme.stop, offset, ← List.length_append]
  refine ⟨?_, ?_, ?_, ?_⟩
  · rw [begins, offset, List.length_append]
  · rw [stops, ← List.length_append, List.append_assoc _ l.text, whole, String.length_toList]
  · rw [begins, offset, ← whole, List.append_assoc]
    exact slice_append _ _ _
  · rw [offset, stops, ← whole]
    exact slice_append _ _ _

end Source

/-- A spelling is scanned alone as its token in front of the end of the input. -/
theorem scan_spelling {token : Token} {text : List Char} (h : Token.Spelling token text) :
    scan (String.ofList text)
      = .ok [⟨[], token, text, .start⟩, ⟨[], .eof, [], .advance .start text⟩] := by
  have read := Token.isRead_of_spelling h (Token.ends_nil token)
  have nothing : Gap.split [] = ([], []) := by rw [Gap.split]
  have first := scanFrom_token read .start
  rw [List.append_nil, scanFrom_end nothing] at first
  rw [scan, String.toList_ofList, first]
  rfl

/-! ## Partitions -/

/-- The lexemes cut the source into pieces and say where each was. -/
structure Partitions (source : String) (lexemes : List Lexeme) : Prop where
  /-- The last lexeme and no other is the end of the input.  It is empty and stands at the end. -/
  ending : ∃ front last, lexemes = front ++ [last] ∧ (∀ l ∈ front, l.token ≠ .eof)
    ∧ last.token = .eof ∧ last.start.offset = source.length ∧ last.stop = source.length
  /-- Every other lexeme is not empty and stops before the next one starts. -/
  ordered : ∀ front l next rest, lexemes = front ++ l :: next :: rest →
    l.start.offset < l.stop ∧ l.stop ≤ next.start.offset
  /-- From the stop of the lexeme before it, a lexeme has blanks and comments in front of it; none of
      the comments runs into a token. -/
  gaps : ∀ front l rest, lexemes = front ++ l :: rest →
    Gap.Whole (slice source.toList (stopOf 0 front) l.start.offset)
      ∧ (l.token ≠ .eof → Gap.Closed (slice source.toList (stopOf 0 front) l.start.offset))
  /-- The line and the column of a lexeme are those of its offset. -/
  placed : ∀ l ∈ lexemes, l.start.line = lineAt source.toList l.start.offset
    ∧ l.start.column = columnAt source.toList l.start.offset
  /-- What a lexeme was cut out of is its token when it is scanned alone. -/
  alone : ∀ l ∈ lexemes, l.token ≠ .eof →
    (scan (String.ofList (slice source.toList l.start.offset l.stop))).map (·.map (·.token))
      = .ok [l.token, .eof]

/-- The lexemes of a text are a partition of it. -/
theorem partitions_of_scan {source : String} {lexemes : List Lexeme}
    (h : scan source = .ok lexemes) : Partitions source lexemes where
  ending := by
    obtain ⟨front, last, rfl, others, token, text⟩ := (legible_of_scanFrom h).1.exists_last
    obtain ⟨_, stops, _, _⟩ := pieces_of_scan h
    have stop : last.stop = source.length := stops
    refine ⟨front, last, rfl, others, token, ?_, stop⟩
    rw [← stop, Lexeme.stop, text]
    rfl
  ordered := by
    rintro front l next rest rfl
    have legible := (legible_of_scanFrom h).1.of_append (List.cons_ne_nil _ _)
    obtain ⟨_, spelling, _, _⟩ := legible.of_cons (List.cons_ne_nil _ _)
    constructor
    · have := List.length_pos_iff.2 spelling.ne_nil
      rw [Lexeme.stop]
      omega
    · rw [← List.singleton_append, ← List.append_assoc] at h
      obtain ⟨starts, _⟩ := pieces_of_scan h
      rw [stopOf_concat] at starts
      exact starts ▸ Nat.le_add_right _ _
  gaps := by
    rintro front l rest rfl
    obtain ⟨_, _, gap, _⟩ := pieces_of_scan h
    rw [gap]
    refine ⟨whole_of_scanFrom h l (List.mem_append_cons_self), fun token => ?_⟩
    cases (legible_of_scanFrom h).1.of_append (List.cons_ne_nil l rest) with
    | eof _ ends => exact absurd ends token
    | cons _ closed => exact closed
  placed := by
    intro l hl
    obtain ⟨offset, bound, start⟩ := exists_offset_of_scan h hl
    have same : l.start.offset = offset := by
      rw [start, Position.offset_advance, List.length_take, String.length_toList,
        Nat.min_eq_left bound]
      exact Nat.zero_add _
    rw [same, start, Position.start_advance]
    exact ⟨rfl, rfl⟩
  alone := by
    intro l hl token
    have spelling := (legible_of_scanFrom h).1.spelling_of_mem hl token
    obtain ⟨front, rest, rfl⟩ := List.append_of_mem hl
    obtain ⟨_, _, _, text⟩ := pieces_of_scan h
    rw [text, scan_spelling spelling]
    rfl

/-- A source with line feeds in a comment, in a literal and behind a backslash, and a comment at the
    end. -/
def brokenSource : String := "a/*\n*/1.5.2 \"b\nc\"'d\\\ne'->//f"

/-- The lexemes of the source.  A number has one point at most. -/
def brokenLexemes : List Lexeme :=
  [("", .identifier "a", "a", ⟨1, 1, 0⟩),
    ("/*\n*/", .float ((Decimal.ofParts ['1'] ['5']).toBinary64 false), "1.5", ⟨2, 3, 6⟩),
    ("", .symbol .dot, ".", ⟨2, 6, 9⟩), ("", .integer 2, "2", ⟨2, 7, 10⟩),
    (" ", .literal "b\nc", "\"b\nc\"", ⟨2, 9, 12⟩),
    ("", .other "'d\\\ne'", "'d\\\ne'", ⟨3, 3, 17⟩), ("", .symbol .arrow, "->", ⟨4, 3, 23⟩),
    ("//f", .eof, "", ⟨4, 8, 28⟩)].map
    fun (gap, token, text, start) => ⟨gap.toList, token, text.toList, start⟩

theorem partitions_brokenSource :
    scan brokenSource = .ok brokenLexemes ∧ Partitions brokenSource brokenLexemes := by
  have scanned : scan brokenSource = .ok brokenLexemes := eq_ok_of_toOption (by decide +kernel)
  exact ⟨scanned, partitions_of_scan scanned⟩

end LibrarySpec
