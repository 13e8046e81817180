/-
  What a parser reads of a text.

    1. `ReadsText`: the parser reads a text to its end.
    2. `ReadsTokens`: the parser reads every text with these tokens to its end, and there is one.
    3. `ReadsIn`: the parser reads something in a text, at any of its lexemes, and may leave the rest.

  A parser that passes the leaves of a tree reads what prints as them (`readsText_of_prints`).  What
  a parser of trees reads in a text is the value of a tree whose leaves stand there
  (`ReadsIn.exists_tree`).
-/
import LibrarySpec.Proofs.Parsing
import LibrarySpec.Proofs.Printing.Basic

namespace LibrarySpec.Parser

open Grammar

variable {α : Type} {p : Parser α} {text : String} {a : α}

/-! ## Texts read to their end -/

/-- The whole text is read, and this is the answer. -/
def ReadsText (p : Parser α) (text : String) (a : α) : Prop :=
  ∃ lexemes behind last, scan text = .ok lexemes
    ∧ p (.ofList lexemes) = .ok (a, ⟨behind, [last]⟩) ∧ last.token = .eof

theorem ReadsText.unique {b : α} (h : ReadsText p text a) (h' : ReadsText p text b) : a = b := by
  obtain ⟨lexemes, _, _, scanned, read, _⟩ := h
  obtain ⟨lexemes', _, _, scanned', read', _⟩ := h'
  obtain rfl := Except.ok.inj (scanned.symm.trans scanned')
  rw [read] at read'
  cases read'
  rfl

/-- A parser that passes some leaves reads a text that spells them. -/
theorem readsText_of_spells {lexemes : List Lexeme} {leaves : List Leaf}
    (scanned : scan text = .ok lexemes) (spelled : Spells (leaves ++ [.token .eof]) lexemes)
    (accepts : Accepts p leaves a [.token .eof]) : ReadsText p text a := by
  obtain ⟨c, read, _, left⟩ := accepts (.ofList lexemes) (stream_of_scan scanned) spelled
  obtain ⟨last, rest, ahead, token, none⟩ := left.of_token
  cases none
  refine ⟨lexemes, c.behind, last, scanned, ?_, token⟩
  rw [read, ← ahead]

/-- What prints as some leaves is a text that spells them. -/
theorem exists_lexemes_of_prints {leaves : List Leaf} (prints : Prints text leaves) :
    ∃ lexemes, scan text = .ok lexemes ∧ Spells (leaves ++ [.token .eof]) lexemes := by
  have nothing : Neutral [] := nofun
  have scans := prints [] [.token .eof] nothing Scans.eof
  rw [List.append_nil] at scans
  exact scans .start

/-- A parser that passes some leaves reads what prints as them. -/
theorem readsText_of_prints {leaves : List Leaf} (prints : Prints text leaves)
    (accepts : Accepts p leaves a [.token .eof]) : ReadsText p text a := by
  obtain ⟨lexemes, scanned, spelled⟩ := exists_lexemes_of_prints prints
  exact readsText_of_spells scanned spelled accepts

/-! ## Tokens -/

/-- The tokens are those of some text, and the parser reads every such text to its end with this
    answer. -/
structure ReadsTokens (p : Parser α) (tokens : List Token) (a : α) : Prop where
  exists_text : ∃ text lexemes, scan text = .ok lexemes
    ∧ lexemes.map (·.token) = tokens ++ [.eof]
  reads : ∀ text lexemes, scan text = .ok lexemes → lexemes.map (·.token) = tokens ++ [.eof] →
    ReadsText p text a

/-- The leaves of tokens in front of the end are spelled by lexemes with these tokens and no others. -/
theorem spells_plain_iff {tokens : List Token} {ls : List Lexeme} :
    Spells (plain tokens ++ [.token .eof]) ls ↔ ls.map (·.token) = tokens ++ [.eof] := by
  have joined : plain tokens ++ [.token .eof] = plain (tokens ++ [.eof]) := by
    rw [plain_append]
    rfl
  rw [joined]
  generalize tokens ++ [.eof] = tokens
  constructor
  · intro h
    induction tokens generalizing ls with
    | nil =>
      cases h
      rfl
    | cons t tokens ih =>
      obtain ⟨l, rest, rfl, token, spelled⟩ := h.of_token
      rw [List.map_cons, token, ih spelled]
  · rintro rfl
    exact Passed.spells_tokens ls

/-- A parser that passes the leaves of tokens reads the tokens, if a text prints as them. -/
theorem readsTokens_of_prints {tokens : List Token} (prints : Prints text (plain tokens))
    (accepts : Accepts p (plain tokens) a [.token .eof]) : ReadsTokens p tokens a where
  exists_text := by
    obtain ⟨lexemes, scanned, spelled⟩ := exists_lexemes_of_prints prints
    exact ⟨text, lexemes, scanned, spells_plain_iff.1 spelled⟩
  reads := fun _ _ scanned tokens =>
    readsText_of_spells scanned (spells_plain_iff.2 tokens) accepts

/-- A text prints as one list of tokens only. -/
theorem tokens_unique {tokens tokens' : List Token} (h : Prints text (plain tokens))
    (h' : Prints text (plain tokens')) : tokens = tokens' := by
  obtain ⟨lexemes, scanned, spelled⟩ := exists_lexemes_of_prints h
  obtain ⟨lexemes', scanned', spelled'⟩ := exists_lexemes_of_prints h'
  obtain rfl := Except.ok.inj (scanned.symm.trans scanned')
  exact List.append_cancel_right
    ((spells_plain_iff.1 spelled).symm.trans (spells_plain_iff.1 spelled'))

/-! ## Parts of a text -/

/-- At some lexeme of the text the parser reads this. -/
def ReadsIn (p : Parser α) (text : String) (a : α) : Prop :=
  ∃ front rest behind c, scan text = .ok (front ++ rest) ∧ rest ≠ []
    ∧ p ⟨behind, rest⟩ = .ok (a, c)

/-- A text that is read to its end is read at its first lexeme. -/
theorem ReadsText.readsIn (h : ReadsText p text a) : ReadsIn p text a := by
  obtain ⟨lexemes, behind, last, scanned, read, _⟩ := h
  exact ⟨[], lexemes, .nothing, _, scanned, (stream_of_scan scanned).ne_nil, read⟩

/-- What is read in a text is the value of a tree with legible leaves. -/
theorem ReadsIn.exists_tree {τ : Type} {leaves : τ → List Leaf} {value : τ → α} {ok : τ → Prop}
    (reads : Reads p leaves value ok) (h : ReadsIn p text a) :
    ∃ t, ok t ∧ value t = a ∧ ∀ leaf ∈ leaves t, leaf.Legible := by
  obtain ⟨front, rest, behind, c, scanned, more, read⟩ := h
  have legible := (legible_of_scanFrom scanned).1.of_append more
  obtain ⟨t, admissible, rfl, passed⟩ := reads _ _ _ legible.stream read
  -- behind the leaves stands the rest of the stream, which is not empty
  obtain ⟨run, left, split, spelled, behind⟩ :=
    (passed.spells _ (Passed.spells_tokens c.ahead)).of_append
  have split : rest = run ++ left := split
  have more : left ≠ [] := by
    rintro rfl
    cases hc : c.ahead with
    | nil => exact passed.stream.ne_nil hc
    | cons l ls =>
      rw [hc] at behind
      obtain ⟨_, _, none, _⟩ := behind.of_token
      cases none
  rw [split] at legible
  exact ⟨t, admissible, rfl, legible_of_spells spelled legible more⟩

end LibrarySpec.Parser
