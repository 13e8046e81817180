/-
  Layout makes no difference.

  A gap between two tokens may be replaced by any gap that stands apart, one that begins with a blank
  and ends by itself.  Only the gaps inside a verbatim text may not, for they are part of the text.
  `Relaid` says which texts come of a text in this way: it walks along the leaves of a derivation, of
  which every text that is parsed has one, and a verbatim leaf lets go of nothing but the gap in
  front of it.

    1. What a token sees behind it are at most two characters.  They are as before, or one of them
       is the blank that a new gap begins with, and no token goes on with a blank (`ends_regapped`).
    2. So the lexemes with new gaps are cut out of the new text (`scanFrom_regapped`).
    3. They spell the leaves that the old ones spelled (`Relaid.exists_lexemes`), and what is parsed
       depends on the leaves alone.

  Main statement: `parse_relaid`.
-/
import LibrarySpec.Library.Printer
import LibrarySpec.Proofs.Parsing
import Mathlib.Data.List.Forall2

namespace LibrarySpec

open Text (Position isBlank)
open Grammar

/-! ## New gaps -/

/-- The text begins with a blank. -/
def StartsBlank (text : List Char) : Prop := ∃ c ∈ text.head?, isBlank c = true

theorem StartsBlank.append {g : List Char} (h : StartsBlank g) (text : List Char) :
    StartsBlank (g ++ text) := by
  obtain ⟨c, hc, blank⟩ := h
  cases g with
  | nil => cases hc
  | cons d g => exact ⟨c, hc, blank⟩

/-- A gap that begins with a blank and ends by itself. -/
structure Gap.Apart (g : List Char) : Prop where
  blank : StartsBlank g
  closed : Gap.Closed g

/-- The gap is the old one, or it stands apart. -/
def Gap.Replaces (new old : List Char) : Prop := new = old ∨ Gap.Apart new

/-- The text comes of the lexemes, which spell the leaves, by replacing gaps outside of verbatim
    texts: in front of a token, and in front of the first token of a verbatim text. -/
inductive Relaid : List Leaf → List Lexeme → List Char → Prop where
  | nil : Relaid [] [] []
  | token (l : Lexeme) {g text : List Char} {leaves : List Leaf} {rest : List Lexeme}
      (gap : Gap.Replaces g l.gap) (tail : Relaid leaves rest text) :
      Relaid (.token l.token :: leaves) (l :: rest) (g ++ l.text ++ text)
  | text (l : Lexeme) (run : List Lexeme) {g text : List Char} {leaves : List Leaf}
      {rest : List Lexeme} (gap : Gap.Replaces g l.gap) (tail : Relaid leaves rest text) :
      Relaid (.text ((l :: run).map (·.token))
          (String.ofList (Parser.spannedText (l :: run))) :: leaves)
        (l :: run ++ rest) (g ++ Parser.spannedText (l :: run) ++ text)

/-- The second lexeme is the first with another gap. -/
structure Regap (l m : Lexeme) : Prop where
  token : m.token = l.token
  text : m.text = l.text
  gap : Gap.Replaces m.gap l.gap

theorem Regap.refl (l : Lexeme) : Regap l l := ⟨rfl, rfl, .inl rfl⟩

theorem tokens_regapped {ls ms : List Lexeme} (h : List.Forall₂ Regap ls ms) :
    ms.map (·.token) = ls.map (·.token) := by
  induction h with
  | nil => rfl
  | cons first _ ih => rw [List.map_cons, List.map_cons, first.token, ih]

/-- The new text is written by lexemes with other gaps, which spell the same leaves. -/
theorem Relaid.exists_lexemes {leaves : List Leaf} {ls : List Lexeme} {text : List Char}
    (h : Relaid leaves ls text) :
    ∃ ms, List.Forall₂ Regap ls ms ∧ written ms = text ∧ Spells leaves ms := by
  induction h with
  | nil => exact ⟨[], .nil, rfl, .nil⟩
  | @token l g _ _ _ gap _ ih =>
    obtain ⟨ms, regapped, rfl, spelled⟩ := ih
    exact ⟨{ l with gap := g } :: ms, .cons ⟨rfl, rfl, gap⟩ regapped, rfl,
      .token { l with gap := g } spelled⟩
  | @text l run g _ _ _ gap _ ih =>
    obtain ⟨ms, regapped, rfl, spelled⟩ := ih
    refine ⟨{ l with gap := g } :: run ++ ms, .cons ⟨rfl, rfl, gap⟩ ?_, ?_,
      .text ({ l with gap := g } :: run) spelled⟩
    · exact List.rel_append (List.forall₂_same.2 fun m _ => .refl m) regapped
    · simp [written, Parser.spannedText]

/-- The lexemes spell the leaves before any gap is replaced. -/
theorem Relaid.spells {leaves : List Leaf} {ls : List Lexeme} {text : List Char}
    (h : Relaid leaves ls text) : Spells leaves ls := by
  induction h with
  | nil => exact .nil
  | token l _ _ ih => exact .token l ih
  | text l run _ _ ih => exact .text (l :: run) ih

/-! ## What a token sees behind it -/

/-- The texts begin with one character, or the second begins with a blank. -/
def Alike (old new : List Char) : Prop := new.head? = old.head? ∨ StartsBlank new

namespace Token

theorem neutral_of_blank {c : Char} {text : List Char} (h : isBlank c = true) :
    Neutral (c :: text) := by
  intro d hd
  cases hd
  refine ⟨?_, ?_⟩
  · cases part : isWordPart c with
    | false => rfl
    | true =>
      rw [isBlank_of_isWordPart part] at h
      cases h
  · intro mem
    simp only [List.mem_cons, List.not_mem_nil, or_false] at mem
    rcases mem with rfl | rfl | rfl | rfl | rfl <;> exact absurd h (by decide)

/-- Every token ends in front of a blank. -/
theorem ends_of_startsBlank (token : Token) {text : List Char} (h : StartsBlank text) :
    Ends token text := by
  obtain ⟨c, hc, blank⟩ := h
  cases text with
  | nil => cases hc
  | cons d text =>
    cases hc
    exact ends_of_neutral token (neutral_of_blank blank)

/-- Behind a first character, a token sees one more at most. -/
theorem ends_cons_of_alike {token : Token} {c : Char} {old new : List Char}
    (h : Ends token (c :: old)) (alike : Alike old new) : Ends token (c :: new) := by
  cases token with
  | integer n =>
    refine ⟨h.1, ?_⟩
    intro d rest heq
    cases heq
    rcases alike with same | ⟨e, he, blank⟩
    · cases old with
      | nil => cases same
      | cons e old =>
        obtain rfl : d = e := Option.some.inj same
        exact h.2 d old rfl
    · cases he
      have neutral : Neutral [d] := neutral_of_blank blank
      exact (not_isWordPart (neutral d rfl).1).1
  | _ => exact h

end Token

/-- In front of the lexemes with new gaps stands a blank, or what stood there before. -/
theorem written_regapped {l m : Lexeme} {ls ms : List Lexeme} (legible : Legible (l :: ls))
    (first : Regap l m) (rest : List.Forall₂ Regap ls ms) :
    StartsBlank (written (m :: ms)) ∨ written (m :: ms) = written (l :: ls)
      ∨ ls ≠ [] ∧ ∃ c front, written (l :: ls) = c :: (front ++ written ls)
        ∧ written (m :: ms) = c :: (front ++ written ms) := by
  rcases first.gap with same | apart
  · refine .inr ?_
    cases ls with
    | nil =>
      cases rest
      exact .inl (by rw [written_cons, written_cons, same, first.text])
    | cons k ls =>
      -- gap and token are the old ones, and not both empty
      obtain ⟨_, spelling, _, _⟩ := legible.of_cons (by simp)
      obtain ⟨c, front, cons⟩ := List.exists_cons_of_ne_nil
        (List.append_ne_nil_of_right_ne_nil l.gap spelling.ne_nil)
      refine .inr ⟨by simp, c, front, ?_, ?_⟩
      · rw [written_cons, ← List.append_assoc, cons, List.cons_append]
      · rw [written_cons, same, first.text, ← List.append_assoc, cons, List.cons_append]
  · rw [written_cons]
    exact .inl (apart.blank.append _)

theorem alike_written {ls ms : List Lexeme} (legible : Legible ls)
    (regapped : List.Forall₂ Regap ls ms) : Alike (written ls) (written ms) := by
  cases regapped with
  | nil => exact .inl rfl
  | cons first rest =>
    rcases written_regapped legible first rest with blank | same | ⟨_, c, front, old, new⟩
    · exact .inr blank
    · exact .inl (by rw [same])
    · exact .inl (by rw [old, new]; rfl)

/-- A token that ended in front of lexemes ends in front of them with new gaps. -/
theorem ends_regapped {token : Token} {ls ms : List Lexeme} (legible : Legible ls)
    (regapped : List.Forall₂ Regap ls ms) (ends : Token.Ends token (written ls)) :
    Token.Ends token (written ms) := by
  cases regapped with
  | nil => exact ends
  | cons first rest =>
    rcases written_regapped legible first rest with blank | same | ⟨more, c, front, old, new⟩
    · exact Token.ends_of_startsBlank token blank
    · rw [same]
      exact ends
    · rw [old] at ends
      rw [new]
      refine Token.ends_cons_of_alike ends ?_
      cases front with
      -- a token of one character without a gap: the second character is that of the next lexeme
      | nil => exact alike_written (legible.of_cons more).2.2.2 rest
      | cons => exact .inl rfl

/-! ## Scanning and parsing -/

/-- The gap at the end of a text is all gap, and so is one that stands apart. -/
theorem split_of_replaces {new old : List Char} (h : Gap.Replaces new old)
    (whole : Gap.split old = (old, [])) : Gap.split new = (new, []) := by
  rcases h with rfl | apart
  · exact whole
  · have split := Gap.split_append apart.closed []
    have none : Gap.split [] = ([], []) := by rw [Gap.split]
    rw [none, List.append_nil] at split
    exact split

theorem closed_of_replaces {new old : List Char} (h : Gap.Replaces new old)
    (closed : Gap.Closed old) : Gap.Closed new :=
  h.elim (fun same => same ▸ closed) (·.closed)

/-- A text of which only the end of the input is scanned is a gap. -/
theorem split_of_scanFrom {place : Position} {text : List Char} {l : Lexeme}
    (h : scanFrom place text = .ok [l]) : Gap.split text = (text, []) := by
  cases hsplit : Gap.split text with
  | mk gap rest =>
    cases rest with
    | nil =>
      have whole := Gap.append_split text
      rw [hsplit, List.append_nil] at whole
      exact congrArg (·, []) whole
    | cons c rest =>
      obtain ⟨_, _, _, tail, _, scanned, same⟩ := read_of_scanFrom hsplit h
      obtain rfl : tail = [] := (List.cons.inj same).2.symm
      cases (legible_of_scanFrom scanned).1

/-- Lexemes of a text are scanned with new gaps as they were with the old ones. -/
theorem scanFrom_regapped {ls ms : List Lexeme} (legible : Legible ls)
    (regapped : List.Forall₂ Regap ls ms) {place : Position}
    (h : scanFrom place (written ls) = .ok ls) (place' : Position) :
    ∃ ms', scanFrom place' (written ms) = .ok ms' ∧ cores ms' = cores ms := by
  -- from the first new gap on the places differ, so they stay general and only the cores agree
  induction legible generalizing ms place place' with
  | eof l token text =>
    cases regapped with
    | @cons _ m _ _ first rest =>
      cases rest
      have old : written [l] = l.gap := by rw [written_cons, text]; exact List.append_nil _
      have new : written [m] = m.gap := by
        rw [written_cons, first.text, text]
        exact List.append_nil _
      rw [old] at h
      refine ⟨_, by rw [new]; exact scanFrom_end (split_of_replaces first.gap (split_of_scanFrom h)),
        ?_⟩
      simp [cores, first.token, first.text, token, text]
  | @cons l rest gap spelling ends tail ih =>
    cases regapped with
    | @cons _ m _ ms first regapped =>
      have scanned : scanFrom (l.start.advance l.text) (written rest) = .ok rest :=
        (of_scanFrom_cons h).2 tail.stream.ne_nil
      obtain ⟨ms', scanned', same⟩ :=
        ih regapped scanned ((place'.advance m.gap).advance l.text)
      have ends' : Token.Ends l.token (written ms) := ends_regapped tail regapped ends
      refine ⟨⟨m.gap, l.token, l.text, place'.advance m.gap⟩ :: ms', ?_, ?_⟩
      · rw [written_cons, first.text, scanFrom_gap (closed_of_replaces first.gap gap),
          scanFrom_token (Token.isRead_of_spelling spelling ends'), scanned']
        simp [Except.map, regap]
      · simp only [cores, List.map_cons, first.token, first.text] at same ⊢
        rw [same]

/-- What leaves are spelled does not depend on places. -/
theorem Grammar.Spells.of_cores {leaves : List Leaf} {ls ms : List Lexeme} (h : Spells leaves ls)
    (same : cores ms = cores ls) : Spells leaves ms := by
  induction h generalizing ms with
  | nil =>
    rw [List.map_eq_nil_iff.1 same]
    exact .nil
  | token l _ ih =>
    obtain ⟨m, ms, rfl, first, rest⟩ := List.map_eq_cons_iff.1 same
    have token : m.token = l.token := congrArg (fun core => core.2.1) first
    rw [← token]
    exact .token m (ih rest)
  | text run _ ih =>
    rw [cores, cores, List.map_append] at same
    obtain ⟨run', ms, rfl, first, rest⟩ := List.map_eq_append_iff.1 same
    rw [← tokens_of_cores first, ← spannedText_congr first]
    exact .text run' (ih rest)

namespace Library

/-- A text with other gaps, outside of verbatim texts, has the same tokens and means the same. -/
theorem parse_relaid {source : String} {lexemes : List Lexeme} {l : Library} {s : Specification}
    {text : List Char} (scanned : scan source = .ok lexemes) (parsed : parse source = .ok l)
    (admissible : s.Admissible) (relaid : Relaid s.leaves lexemes text) :
    ∃ lexemes', scan (String.ofList text) = .ok lexemes'
      ∧ lexemes'.map (·.token) = lexemes.map (·.token)
      ∧ parse (String.ofList text) = .ok l
      ∧ (parse (String.ofList text)).map print = .ok l.print
      ∧ (parse (String.ofList text)).map hash = .ok l.hash := by
  obtain ⟨ms, regapped, rfl, spelled⟩ := relaid.exists_lexemes
  obtain ⟨legible, whole⟩ := legible_of_scanFrom scanned
  have old : scanFrom .start (written lexemes) = .ok lexemes := by
    rw [whole]
    exact scanned
  obtain ⟨lexemes', scanned', same⟩ := scanFrom_regapped legible regapped old .start
  have rescanned : scan (String.ofList (written ms)) = .ok lexemes' := by
    rw [scan, String.toList_ofList]
    exact scanned'
  have meaning : s.library = l := by
    have first := (ofLexemes_eq_ok_iff (stream_of_scan scanned) s.library).2
      ⟨s, relaid.spells, admissible, rfl⟩
    rw [← parse_of_scan scanned, parsed] at first
    exact (Except.ok.inj first).symm
  have reparsed : parse (String.ofList (written ms)) = .ok l := by
    rw [parse_of_scan rescanned, ofLexemes_eq_ok_iff (stream_of_scan rescanned)]
    exact ⟨s, spelled.of_cores same, admissible, meaning⟩
  exact ⟨lexemes', rescanned, (tokens_of_cores same).trans (tokens_regapped regapped), reparsed,
    by rw [reparsed]; rfl, by rw [reparsed]; rfl⟩

/-- A source with a verbatim text of two tokens. -/
def wordSource : String := "library l;types\x7bA(u 8);\x7d"

/-- A derivation of the source. -/
def wordTree : Specification :=
  ⟨"l", [], [], [⟨.atom ⟨"A", []⟩, ⟨[.identifier "u", .integer 8], "u 8"⟩⟩], [], none, []⟩

/-- The lexemes of the source, all on one line. -/
def wordLexemes : List Lexeme :=
  [("", .keyword .library, "library", 0), (" ", .identifier "l", "l", 8),
    ("", .symbol .semicolon, ";", 9), ("", .keyword .types, "types", 10),
    ("", .symbol .openBrace, "\x7b", 15), ("", .identifier "A", "A", 16),
    ("", .symbol .openParen, "(", 17), ("", .identifier "u", "u", 18), (" ", .integer 8, "8", 20),
    ("", .symbol .closeParen, ")", 21), ("", .symbol .semicolon, ";", 22),
    ("", .symbol .closeBrace, "\x7d", 23), ("", .eof, "", 24)].map
    fun (gap, token, text, offset) => ⟨gap.toList, token, text.toList, ⟨1, offset + 1, offset⟩⟩

theorem scan_wordSource : scan wordSource = .ok wordLexemes :=
  eq_ok_of_toOption (by decide +kernel)

/-- The source with a comment in front of the types and another in front of the verbatim text. -/
def wordLayout : String := "library l;\n// next\ntypes\x7bA( /**/u 8);\x7d "

theorem relaid_wordLayout : Relaid wordTree.leaves wordLexemes wordLayout.toList := by
  have space : Gap.Apart [' '] := ⟨⟨' ', rfl, by decide⟩, .blank (by decide) .nil⟩
  have body : '\n' ∉ " next".toList := by decide
  have line : Gap.Closed ('/' :: '/' :: (" next".toList ++ '\n' :: [])) :=
    .line (fun _ hc same => body (same ▸ hc)) (.blank (by decide) .nil)
  have lines : Gap.Apart ('\n' :: '/' :: '/' :: (" next".toList ++ '\n' :: [])) :=
    ⟨⟨'\n', rfl, by decide⟩, .blank (by decide) line⟩
  have block : Gap.Apart (' ' :: '/' :: '*' :: (['*', '/'] ++ [])) :=
    ⟨⟨' ', rfl, by decide⟩, .blank (by decide) (.block rfl .nil)⟩
  have heading := fun {leaves rest text} (tail : Relaid leaves rest text) =>
    Relaid.token (wordLexemes.getD 0 .nothing) (.inl rfl)
      (.token (wordLexemes.getD 1 .nothing) (.inl rfl)
        (.token (wordLexemes.getD 2 .nothing) (.inl rfl) tail))
  have declaration := fun {leaves rest text} (tail : Relaid leaves rest text) =>
    Relaid.token (wordLexemes.getD 5 .nothing) (.inl rfl)
      (.token (wordLexemes.getD 6 .nothing) (.inl rfl)
        (.text (wordLexemes.getD 7 .nothing) [wordLexemes.getD 8 .nothing] (.inr block)
          (.token (wordLexemes.getD 9 .nothing) (.inl rfl)
            (.token (wordLexemes.getD 10 .nothing) (.inl rfl) tail))))
  exact heading (.token (wordLexemes.getD 3 .nothing) (.inr lines)
    (.token (wordLexemes.getD 4 .nothing) (.inl rfl) (declaration
      (.token (wordLexemes.getD 11 .nothing) (.inl rfl)
        (.token (wordLexemes.getD 12 .nothing) (.inr space) .nil)))))

theorem parse_relaid_wordSource :
    ∃ l lexemes', parse wordSource = .ok l
      ∧ scan (String.ofList wordLayout.toList) = .ok lexemes'
      ∧ lexemes'.map (·.token) = wordLexemes.map (·.token)
      ∧ parse (String.ofList wordLayout.toList) = .ok l := by
  have balanced : Balanced .closeParen 0 [.identifier "u", .integer 8] :=
    ⟨by decide, 0, rfl, by decide, 0, rfl, rfl⟩
  have admissible : wordTree.Admissible :=
    ⟨List.forall_mem_singleton.2 ⟨List.cons_ne_nil _ _, balanced⟩, List.forall_mem_nil _,
      List.forall_mem_nil _, List.forall_mem_nil _⟩
  have parsed : parse wordSource = .ok wordTree.library := by
    rw [parse_of_scan scan_wordSource, ofLexemes_eq_ok_iff (stream_of_scan scan_wordSource)]
    exact ⟨wordTree, relaid_wordLayout.spells, admissible, rfl⟩
  obtain ⟨lexemes', scanned, tokens, again, -⟩ :=
    parse_relaid scan_wordSource parsed admissible relaid_wordLayout
  exact ⟨_, lexemes', parsed, scanned, tokens, again⟩

end Library
end LibrarySpec
