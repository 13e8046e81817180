/-
  Where the lexemes of a text stand.

  A place is reported as a line and a column.  Both are determined by the text before the place:

    1. `lineAt` counts the line feeds before an offset, `columnAt` the characters since the last of
       them; `Position.start_advance` says that stepping over a text counts the same.
    2. `start_of_scanFrom`: a lexeme starts where the text before its spelling ends; scanned from there
       on, the text gives that lexeme and those behind it (`scanFrom_start`).
    3. `place_of_fault`: a lexical fault is reported somewhere in the text, its end included.
    4. `spannedText_eq_slice`: what lexemes span is the text between the first start and the last
       stop.
-/
import Mathlib.Data.List.Induction
import LibrarySpec.Proofs.Scanning.Lexemes

namespace LibrarySpec

namespace Text

/-! ## Lines and columns -/

/-- The line of the place behind so many characters, counted from one. -/
def lineAt (text : List Char) (offset : Nat) : Nat := (text.take offset).count '\n' + 1

/-- The column of the place behind so many characters, counted from one. -/
def columnAt (text : List Char) (offset : Nat) : Nat :=
  ((text.take offset).reverse.takeWhile (· ≠ '\n')).length + 1

/-- The written form of the place behind so many characters, `line:column`. -/
def placeAt (text : List Char) (offset : Nat) : String :=
  toString (lineAt text offset) ++ ":" ++ toString (columnAt text offset)

/-- The text between two offsets. -/
def slice (text : List Char) (start stop : Nat) : List Char := (text.drop start).take (stop - start)

namespace Position

/-- Stepping over a text counts its line feeds, and its characters since the last of them. -/
theorem start_advance (text : List Char) :
    start.advance text = ⟨text.count '\n' + 1, (text.reverse.takeWhile (· ≠ '\n')).length + 1,
      text.length⟩ := by
  induction text using List.reverseRecOn with
  | nil => rfl
  | append_singleton text c ih =>
    rw [advance_append, ih, List.reverse_append]
    by_cases feed : c = '\n'
    · subst feed
      simp [next]
    · simp [next, feed]

/-- The place behind so many characters is reported as their line and column. -/
theorem toText_start_advance {text : List Char} {offset : Nat} :
    (start.advance (text.take offset)).toText = placeAt text offset := by
  rw [start_advance]
  rfl

end Position
end Text

open Text (Position slice)

/-! ## Lexemes -/

section Scan

variable {place : Position} {text : List Char} {front rest : List Lexeme} {l : Lexeme}

/-- A lexeme starts where the text before its spelling ends. -/
theorem start_of_scanFrom (h : scanFrom place text = .ok (front ++ l :: rest)) :
    l.start = place.advance (written front ++ l.gap) := by
  induction front generalizing place text with
  | nil => exact (of_scanFrom_cons h).1
  | cons m front ih =>
    obtain ⟨start, tail⟩ := of_scanFrom_cons h
    rw [ih (tail (by simp)), start, written_cons, ← Position.advance_append,
      ← Position.advance_append, List.append_assoc, List.append_assoc]

/-- The scanner remembers nothing but its place: from the start of a lexeme on it reads that lexeme
    and those behind it. -/
theorem scanFrom_start (h : scanFrom place text = .ok (front ++ l :: rest)) :
    scanFrom l.start (l.text ++ written rest) = .ok ({ l with gap := [] } :: rest) := by
  induction front generalizing place text with
  | nil =>
    have legible : Legible (l :: rest) := (legible_of_scanFrom h).1
    cases legible with
    | eof _ token empty =>
      have nothing : Gap.split [] = ([], []) := by rw [Gap.split]
      obtain ⟨_, _, _, _⟩ := l
      obtain ⟨rfl, rfl⟩ : _ = Token.eof ∧ _ = [] := ⟨token, empty⟩
      exact scanFrom_end nothing
    | cons _ _ spelling ends tail =>
      rw [scanFrom_token (Token.isRead_of_spelling spelling ends),
        (of_scanFrom_cons h).2 tail.stream.ne_nil]
      rfl
  | cons m front ih => exact ih ((of_scanFrom_cons h).2 (by simp))

end Scan

section Source

variable {source : String} {lexemes front rest : List Lexeme} {l : Lexeme}

/-- The place of a lexeme of a source. -/
theorem start_of_scan (h : scan source = .ok lexemes) (hl : lexemes = front ++ l :: rest) :
    l.start = .advance .start (written front ++ l.gap)
      ∧ written front ++ l.gap ++ (l.text ++ written rest) = source.toList := by
  subst hl
  refine ⟨start_of_scanFrom h, ?_⟩
  rw [← (legible_of_scanFrom h).2, written_append, written_cons]
  simp only [List.append_assoc]

/-- Every lexeme of a source starts at a place of it. -/
theorem exists_offset_of_scan (h : scan source = .ok lexemes) (hl : l ∈ lexemes) :
    ∃ offset ≤ source.length, l.start = .advance .start (source.toList.take offset) := by
  obtain ⟨front, rest, split⟩ := List.append_of_mem hl
  obtain ⟨start, whole⟩ := start_of_scan h split
  refine ⟨(written front ++ l.gap).length, ?_, ?_⟩
  · rw [← String.length_toList, ← whole]
    exact (List.prefix_append _ _).length_le
  · rw [start, ← whole, List.take_left]

/-- A lexeme stops where the text up to and with its spelling ends. -/
theorem stop_of_scan (h : scan source = .ok lexemes) (hl : lexemes = front ++ l :: rest) :
    l.stop = (written (front ++ [l])).length := by
  obtain ⟨start, _⟩ := start_of_scan h hl
  rw [Lexeme.stop, start, Position.offset_advance, written_append, written_cons]
  simp [Position.start, written, Nat.add_assoc]

end Source

/-! ## Faults -/

/-- A defect is located in the token or right behind it. -/
theorem Token.Defect.place_locate (defect : Token.Defect) (start : Position) (text : List Char) :
    ∃ offset ≤ text.length, (defect.locate start text).place = start.advance (text.take offset) := by
  cases defect with
  | unterminatedEscape => exact ⟨text.length, Nat.le_refl _, by rw [List.take_length]; rfl⟩
  | invalidEscape letter rest => exact ⟨text.length - rest.length, Nat.sub_le _ _, rfl⟩
  | _ => exact ⟨0, Nat.zero_le _, rfl⟩

/-- A lexical fault is reported at a place of the text. -/
theorem place_of_fault {place : Position} {text : List Char} {fault : SyntaxFault}
    (h : scanFrom place text = .error fault) :
    ∃ offset ≤ text.length, fault.place = place.advance (text.take offset) := by
  induction hn : text.length using Nat.strongRecOn generalizing place text with
  | _ n ih =>
    have whole := Gap.append_split text
    cases hsplit : Gap.split text with
    | mk gap rest =>
      rw [hsplit] at whole
      cases rest with
      | nil =>
        rw [scanFrom_end hsplit] at h
        cases h
      | cons c rest =>
        -- a place behind the gap, and behind the first token if there is one
        have behind : ∀ {front back : List Char} {p : Position}, gap ++ (front ++ back) = text →
            (∃ offset ≤ back.length,
              p = ((place.advance gap).advance front).advance (back.take offset)) →
            ∃ offset ≤ n, p = place.advance (text.take offset) := by
          rintro front back p rfl ⟨offset, bound, rfl⟩
          refine ⟨gap.length + (front.length + offset), ?_, ?_⟩
          · rw [← hn, List.length_append, List.length_append]
            omega
          · rw [List.take_length_add_append, List.take_length_add_append,
              Position.advance_append, Position.advance_append]
        cases hr : Token.read c rest with
        | error defect =>
          rw [scanFrom_fault hsplit hr] at h
          cases h
          exact @behind [] _ _ whole (defect.place_locate _ _)
        | ok r =>
          obtain ⟨token, spelling, after⟩ := r
          rw [scanFrom_step hsplit hr] at h
          rw [← (Token.append_of_read hr).1] at whole
          have shorter : after.length < n := hn ▸ length_of_read hsplit hr
          cases htail : scanFrom ((place.advance gap).advance spelling) after with
          | ok ls =>
            rw [htail] at h
            cases h
          | error e =>
            rw [htail] at h
            cases h
            exact behind whole (ih after.length shorter htail rfl)

/-! ## Slices -/

/-- Where a run of lexemes stops that starts at an offset. -/
def stopOf (start : Nat) (run : List Lexeme) : Nat := (run.getLast?.map Lexeme.stop).getD start

theorem stopOf_concat (start : Nat) (run : List Lexeme) (last : Lexeme) :
    stopOf start (run ++ [last]) = last.stop := by
  rw [stopOf, List.getLast?_concat]
  rfl

/-- The text that a run of lexemes spans is the text of the source from the first start to the last
    stop. -/
theorem spannedText_eq_slice {source : String} {front run rest : List Lexeme} {l : Lexeme}
    (h : scan source = .ok (front ++ (run ++ rest))) (first : (run ++ rest).head? = some l) :
    l.start.offset ≤ stopOf l.start.offset run ∧ stopOf l.start.offset run ≤ source.length
      ∧ Parser.spannedText run
        = slice source.toList l.start.offset (stopOf l.start.offset run) := by
  have inside : ∀ m ∈ front ++ (run ++ rest), m.start.offset ≤ source.length := by
    intro m hm
    obtain ⟨offset, bound, start⟩ := exists_offset_of_scan h hm
    rw [start, Position.offset_advance, List.length_take]
    simp only [Position.start, String.length_toList]
    omega
  cases run with
  | nil =>
    have bound := inside l (List.mem_append_right _ (List.mem_of_mem_head? first))
    simp [stopOf, bound, Parser.spannedText, slice]
  | cons m run =>
    obtain rfl : m = l := Option.some.inj first
    -- the text before the run, the run without its first gap, and the text behind it
    have whole := (legible_of_scanFrom h).2
    have spanned : m.text ++ written run = Parser.spannedText (m :: run) := rfl
    have parts : (written front ++ m.gap) ++ (Parser.spannedText (m :: run) ++ written rest)
        = source.toList := by
      rw [← whole, written_append, written_append, written_cons, ← spanned]
      simp only [List.append_assoc]
    have start : m.start.offset = (written front ++ m.gap).length := by
      rw [start_of_scanFrom h, Position.offset_advance]
      exact Nat.zero_add _
    have stop : stopOf m.start.offset (m :: run)
        = (written front ++ m.gap).length + (Parser.spannedText (m :: run)).length := by
      obtain ⟨body, last, split⟩ := (List.eq_nil_or_concat (m :: run)).resolve_left (by simp)
      rw [List.concat_eq_append] at split
      have found : stopOf m.start.offset (m :: run) = last.stop := by
        rw [split, stopOf_concat]
      have position : front ++ (m :: run ++ rest) = (front ++ body) ++ last :: rest := by
        rw [split]
        simp
      rw [found, stop_of_scan h position, List.append_assoc, ← split,
        ← List.length_append, ← spanned, written_append, written_cons]
      simp only [List.append_assoc]
    rw [stop, start]
    refine ⟨Nat.le_add_right _ _, ?_, ?_⟩
    · rw [← String.length_toList, ← parts, ← List.length_append, ← List.append_assoc]
      exact (List.prefix_append _ _).length_le
    · rw [slice, ← parts, List.drop_left, Nat.add_sub_cancel_left, List.take_left]

end LibrarySpec
