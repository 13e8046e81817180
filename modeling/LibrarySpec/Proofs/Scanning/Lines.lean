/-
  Texts joined at a line feed.

  What stands behind a line feed is scanned as if it stood alone, further down.

    1. `closed_of_whole`: a line feed ends every gap, even one that ends with a line comment, and no
       token goes on with it.  So a text that is scanned is scanned again in front of a line feed
       (`scanFrom_append_feed`).
    2. The scanner remembers nothing but its place, and the place only counts.  From a place further
       down it answers the same, further down (`scanFrom_below`).

  Main statement: `scan_joined`.
-/
import LibrarySpec.Proofs.Scanning.Partition

namespace LibrarySpec

open Text (Position)

/-! ## Places further down -/

namespace Text.Position

/-- The place, if the text that it is a place of stands behind `head` and a line feed. -/
def below (head : List Char) (p : Position) : Position :=
  ⟨p.line + (head.count '\n' + 1), p.column, p.offset + (head.length + 1)⟩

theorem next_below (head : List Char) (p : Position) (c : Char) :
    (p.below head).next c = (p.next c).below head := by
  by_cases feed : c = '\n'
  · simp only [next, if_pos feed, below, Nat.add_right_comm]
  · simp only [next, if_neg feed, below, Nat.add_right_comm]

/-- Stepping over a text is the same further down. -/
theorem advance_below (head : List Char) (p : Position) (text : List Char) :
    (p.below head).advance text = (p.advance text).below head := by
  induction text generalizing p with
  | nil => rfl
  | cons c text ih => rw [advance_cons, advance_cons, next_below, ih]

/-- Behind a text and a line feed, places are counted as at the start. -/
theorem start_advance_feed (head : List Char) :
    start.advance (head ++ ['\n']) = start.below head := by
  rw [start_advance, List.reverse_append]
  simp [start, below, Nat.add_comm]

end Text.Position

/-- The lexeme, if its text stands behind `head` and a line feed. -/
def Lexeme.below (head : List Char) (l : Lexeme) : Lexeme := { l with start := l.start.below head }

/-- A defect of a token further down is the same fault, further down. -/
theorem Token.Defect.locate_below (head : List Char) (defect : Token.Defect) (start : Position)
    (text : List Char) :
    (defect.locate (start.below head) text).explanation = (defect.locate start text).explanation
      ∧ (defect.locate (start.below head) text).place
        = (defect.locate start text).place.below head := by
  cases defect with
  | unterminatedEscape => exact ⟨rfl, Position.advance_below head start text⟩
  | invalidEscape letter rest => exact ⟨rfl, Position.advance_below head start _⟩
  | _ => exact ⟨rfl, rfl⟩

/-- The answer is the other one, further down. -/
inductive IsBelow (head : List Char) :
    Except SyntaxFault (List Lexeme) → Except SyntaxFault (List Lexeme) → Prop where
  | ok (ls : List Lexeme) : IsBelow head (.ok (ls.map (·.below head))) (.ok ls)
  | error {fault fault' : SyntaxFault} (explanation : fault'.explanation = fault.explanation)
      (place : fault'.place = fault.place.below head) : IsBelow head (.error fault') (.error fault)

/-- From a place further down the scanner answers the same, further down. -/
theorem scanFrom_below (head : List Char) (place : Position) (text : List Char) :
    IsBelow head (scanFrom (place.below head) text) (scanFrom place text) := by
  induction hn : text.length using Nat.strongRecOn generalizing place text with
  | _ n ih =>
    cases hsplit : Gap.split text with
    | mk gap rest =>
      cases rest with
      | nil =>
        rw [scanFrom_end hsplit, scanFrom_end hsplit, Position.advance_below]
        exact .ok [⟨gap, .eof, [], place.advance gap⟩]
      | cons c rest =>
        cases hr : Token.read c rest with
        | error defect =>
          rw [scanFrom_fault hsplit hr, scanFrom_fault hsplit hr, Position.advance_below]
          obtain ⟨explanation, place⟩ :=
            defect.locate_below head (place.advance gap) (c :: rest)
          exact .error explanation place
        | ok r =>
          obtain ⟨token, spelling, after⟩ := r
          have shorter : after.length < n := hn ▸ length_of_read hsplit hr
          have tail := ih after.length shorter ((place.advance gap).advance spelling) after rfl
          rw [scanFrom_step hsplit hr, scanFrom_step hsplit hr, Position.advance_below,
            Position.advance_below]
          revert tail
          generalize scanFrom (((place.advance gap).advance spelling).below head) after = below
          generalize scanFrom ((place.advance gap).advance spelling) after = alone
          intro tail
          cases tail with
          | ok ls => exact .ok (⟨gap, token, spelling, place.advance gap⟩ :: ls)
          | error explanation place => exact .error explanation place

/-! ## In front of a line feed -/

/-- A line feed ends every gap. -/
theorem Gap.closed_of_whole {g : List Char} (h : Gap.Whole g) : Gap.Closed (g ++ ['\n']) := by
  have feed : Gap.Closed ['\n'] := .blank (by decide) .nil
  cases h with
  | closed h => exact h.append feed
  | @cut front body h line =>
    rw [List.append_assoc]
    exact h.append (.line line feed)

/-- No token goes on with a line feed. -/
theorem neutral_feed (text : List Char) : Neutral ('\n' :: text) := by
  intro c hc
  cases hc
  decide

/-- A text that is scanned is scanned again in front of a line feed; its last gap goes on over the
    line feed. -/
theorem scanFrom_append_feed {place : Position} {text : List Char} {ls : List Lexeme}
    (h : scanFrom place text = .ok ls) :
    ∃ front last, ls = front ++ [last] ∧ ∀ more, scanFrom place (text ++ '\n' :: more)
      = (scanFrom (place.advance (text ++ ['\n'])) more).map
        (front ++ regap (last.gap ++ ['\n']) ·) := by
  induction hn : text.length using Nat.strongRecOn generalizing place text ls with
  | _ n ih =>
    have whole := Gap.append_split text
    cases hsplit : Gap.split text with
    | mk gap rest =>
      rw [hsplit] at whole
      cases rest with
      | nil =>
        rw [List.append_nil] at whole
        subst whole
        rw [scanFrom_end hsplit] at h
        cases h
        have closed := Gap.closed_of_whole (Gap.whole_of_split hsplit)
        refine ⟨[], _, rfl, fun more => ?_⟩
        rw [List.append_cons, scanFrom_gap closed]
        rfl
      | cons c rest =>
        obtain ⟨token, spelling, after, tail, read, scanned, rfl⟩ := read_of_scanFrom hsplit h
        obtain ⟨closed, blank, comment⟩ := Gap.closed_of_split hsplit
        obtain ⟨spelled, ends⟩ := Token.read_eq_ok read blank comment
        have shorter : after.length < n := hn ▸ length_of_read hsplit read
        rw [← (Token.append_of_read read).1] at whole
        subst whole
        obtain ⟨front, last, rfl, again⟩ := ih after.length shorter scanned rfl
        refine ⟨_ :: front, last, rfl, fun more => ?_⟩
        have ends' : Token.Ends token (after ++ '\n' :: more) := by
          rw [← List.append_nil after] at ends
          exact Token.ends_append ends (neutral_feed more)
        rw [List.append_assoc, List.append_assoc, scanFrom_gap closed,
          scanFrom_token (Token.isRead_of_spelling spelled ends'), again]
        simp only [List.append_assoc, Position.advance_append]
        cases scanFrom _ more with
        | error fault => rfl
        | ok ms => simp [Except.map, regap]

/-! ## Joined texts -/

/-- A token as it is reported, with the place where it starts and the offset where it stops. -/
def Lexeme.spanned (l : Lexeme) : Token × Position × Nat := (l.token, l.start, l.stop)

theorem spanned_regap (g : List Char) (ls : List Lexeme) :
    (regap g ls).map Lexeme.spanned = ls.map Lexeme.spanned := by
  cases ls <;> rfl

theorem Lexeme.spanned_below (head : List Char) (l : Lexeme) :
    (l.below head).spanned
      = (l.token, l.start.below head, l.stop + (head.length + 1)) := by
  simp only [spanned, below, stop, Position.below, Nat.add_right_comm]

/-- A text that stands behind a line feed is scanned as alone, further down, if what stands in front
    of the line feed is scanned; and its fault is the same, further down. -/
theorem scan_joined {s₁ : String} {ls : List Lexeme} (h : scan s₁ = .ok ls) (s₂ : String) :
    ((∃ all, scan (s₁ ++ "\n" ++ s₂) = .ok all) ↔ ∃ ms, scan s₂ = .ok ms)
      ∧ (∀ ms, scan s₂ = .ok ms → ∃ all, scan (s₁ ++ "\n" ++ s₂) = .ok all
        ∧ all.map Lexeme.spanned = (ls.filter (·.token ≠ .eof)).map Lexeme.spanned
          ++ ms.map fun m => (m.token,
            ⟨m.start.line + (1 + s₁.toList.count '\n'), m.start.column,
              m.start.offset + (s₁.length + 1)⟩,
            m.stop + (s₁.length + 1)))
      ∧ ∀ fault, scan s₂ = .error fault → ∃ fault', scan (s₁ ++ "\n" ++ s₂) = .error fault'
        ∧ fault'.explanation = fault.explanation
        ∧ fault'.place = fault.place.below s₁.toList := by
  obtain ⟨front, last, split, joined⟩ := scanFrom_append_feed h
  have others : ls.filter (·.token ≠ .eof) = front := by
    obtain ⟨front', last', split', solid, eof, _⟩ := (legible_of_scanFrom h).1.exists_last
    obtain ⟨rfl, rfl⟩ := List.append_singleton_inj.1 (split.symm.trans split')
    rw [split, List.filter_append, List.filter_eq_self.2 (by simpa using solid)]
    simp [eof]
  have whole : scan (s₁ ++ "\n" ++ s₂)
      = (scanFrom (Position.start.below s₁.toList) s₂.toList).map
        (front ++ regap (last.gap ++ ['\n']) ·) := by
    rw [← Position.start_advance_feed, ← joined, scan, String.toList_append, String.toList_append]
    simp
  have tail := scanFrom_below s₁.toList .start s₂.toList
  have alone : scan s₂ = scanFrom .start s₂.toList := rfl
  rw [whole, others, alone]
  revert tail
  generalize scanFrom (Position.start.below s₁.toList) s₂.toList = below
  generalize scanFrom Position.start s₂.toList = answer
  intro tail
  cases tail with
  | ok ms =>
    refine ⟨⟨fun _ => ⟨ms, rfl⟩, fun _ => ⟨_, rfl⟩⟩, ?_, fun _ failed => by cases failed⟩
    intro _ scanned
    cases scanned
    refine ⟨_, rfl, ?_⟩
    rw [List.map_append, spanned_regap, List.map_map]
    congr 2
    funext m
    simp [Lexeme.spanned_below, Position.below, Nat.add_comm, String.length_toList]
  | error explanation place =>
    refine ⟨⟨?_, ?_⟩, ?_, ?_⟩
    · rintro ⟨_, scanned⟩
      cases scanned
    · rintro ⟨_, scanned⟩
      cases scanned
    · intro _ scanned
      cases scanned
    · intro _ failed
      cases failed
      exact ⟨_, rfl, explanation, place⟩

/-- A source that ends with a minus and a line comment in which a quote is open. -/
def minusSource : String := "a\n-//b\""

/-- The lexemes of the source. -/
def minusLexemes : List Lexeme :=
  [("", .identifier "a", "a", ⟨1, 1, 0⟩), ("\n", .symbol .minus, "-", ⟨2, 1, 2⟩),
    ("//b\"", .eof, "", ⟨2, 6, 7⟩)].map
    fun (gap, token, text, start) => ⟨gap.toList, token, text.toList, start⟩

/-- A source that begins with what would make an arrow of the minus. -/
def greaterSource : String := ">/*\n*/c"

/-- The lexemes of the source. -/
def greaterLexemes : List Lexeme :=
  [("", .symbol .greater, ">", ⟨1, 1, 0⟩), ("/*\n*/", .identifier "c", "c", ⟨2, 3, 6⟩),
    ("", .eof, "", ⟨2, 4, 7⟩)].map
    fun (gap, token, text, start) => ⟨gap.toList, token, text.toList, start⟩

theorem scan_joined_arrow :
    scan minusSource = .ok minusLexemes ∧ scan greaterSource = .ok greaterLexemes
      ∧ ∃ all, scan (minusSource ++ "\n" ++ greaterSource) = .ok all
        ∧ all.map Lexeme.spanned = [(.identifier "a", ⟨1, 1, 0⟩, 1),
          (.symbol .minus, ⟨2, 1, 2⟩, 3), (.symbol .greater, ⟨3, 1, 8⟩, 9),
          (.identifier "c", ⟨4, 3, 14⟩, 15), (.eof, ⟨4, 4, 15⟩, 15)] := by
  have first : scan minusSource = .ok minusLexemes := eq_ok_of_toOption (by decide +kernel)
  have second : scan greaterSource = .ok greaterLexemes := eq_ok_of_toOption (by decide +kernel)
  obtain ⟨all, scanned, marks⟩ := (scan_joined first greaterSource).2.1 _ second
  exact ⟨first, second, all, scanned, marks.trans (by decide +kernel)⟩

end LibrarySpec
