/-
  Printed texts, scanned again.

  The printer puts a text together from spellings with blanks between them.  Read from its end, such
  a text is scanned piece by piece:

    1. `Scans text leaves`: wherever the text starts, the scanner cuts it into lexemes that spell the
       leaves.  A blank in front changes nothing, and the spelling of a token puts one leaf in front,
       as long as the token ends there.
    2. `Prints text leaves`: in front of every neutral text, the text puts the leaves in front.  All
       that the printer prints is followed by something neutral, so this is what is said of a type,
       a contract or a verbatim text as a whole.
    3. `Leaf.Legible`: what is known of the leaves of a text that was scanned.

  Main statement: `legible_of_scan`, the leaves that the lexemes of a text spell are legible.
-/
import LibrarySpec.Proofs.Grammar.Declaration
import LibrarySpec.Proofs.Scanning.Lexemes

namespace LibrarySpec.Grammar

open Text (Position isBlank)
open Token (Spelling Ends)

/-! ## Scanned texts -/

/-- The scanner cuts the text into lexemes that spell the leaves. -/
def Scans (text : List Char) (leaves : List Leaf) : Prop :=
  ∀ place, ∃ ls, scanFrom place text = .ok ls ∧ Spells leaves ls

/-- The gap in front of the first lexeme belongs to no leaf. -/
theorem Spells.regap {leaves : List Leaf} {ls : List Lexeme} (h : Spells leaves ls)
    (g : List Char) : Spells leaves (regap g ls) := by
  induction h with
  | nil => exact .nil
  | token l tail _ => exact .token { l with gap := g ++ l.gap } tail
  | @text run leaves rest tail ih =>
    cases run with
    | nil =>
      show Spells _ ([] ++ LibrarySpec.regap g rest)
      exact .text [] ih
    | cons l run => exact .text ({ l with gap := g ++ l.gap } :: run) tail

namespace Scans

variable {text after : List Char} {leaves more : List Leaf}

theorem eof : Scans [] [.token .eof] := by
  intro place
  have none : Gap.split [] = ([], []) := by rw [Gap.split]
  exact ⟨_, scanFrom_end none, .token ⟨[], .eof, [], place.advance []⟩ .nil⟩

theorem gap {g : List Char} (hg : Gap.Closed g) (h : Scans text leaves) :
    Scans (g ++ text) leaves := by
  intro place
  obtain ⟨ls, hs, spelled⟩ := h (place.advance g)
  refine ⟨LibrarySpec.regap g ls, ?_, spelled.regap g⟩
  rw [scanFrom_gap hg, hs]
  rfl

theorem blank {c : Char} (hc : isBlank c = true) (h : Scans text leaves) :
    Scans (c :: text) leaves :=
  h.gap (.blank hc .nil)

theorem space (h : Scans text leaves) : Scans (' ' :: text) leaves := h.blank (by decide)

theorem feed (h : Scans text leaves) : Scans ('\n' :: text) leaves := h.blank (by decide)

/-- What `printedItem` puts in front of an item. -/
theorem indent (h : Scans text leaves) : Scans (' ' :: ' ' :: ' ' :: ' ' :: text) leaves :=
  h.space.space.space.space

theorem token {t : Token} (spelling : Spelling t text) (ends : Ends t after)
    (h : Scans after more) : Scans (text ++ after) (.token t :: more) := by
  intro place
  obtain ⟨ls, hs, spelled⟩ := h (place.advance text)
  refine ⟨⟨[], t, text, place⟩ :: ls, ?_, .token ⟨[], t, text, place⟩ spelled⟩
  rw [scanFrom_token (Token.isRead_of_spelling spelling ends), hs]
  rfl

theorem symbol (s : Symbol) (ends : Ends (.symbol s) after) (h : Scans after more) :
    Scans (s.text.toList ++ after) (sym s :: more) :=
  h.token (.symbol s) ends

end Scans

/-! ## Printed pieces -/

/-- In front of every neutral text the text puts the leaves in front. -/
def Prints (text : String) (leaves : List Leaf) : Prop :=
  ∀ after more, Neutral after → Scans after more → Scans (text.toList ++ after) (leaves ++ more)

instance (text : List Char) : Decidable (Neutral text) :=
  match text with
  | [] => .isTrue fun _ hc => by cases hc
  | c :: _ => decidable_of_iff (Token.isWordPart c = false ∧ c ∉ ['.', '>', '=', '*', '/'])
      ⟨fun h _ hc => Option.some.inj hc ▸ h, fun h => h c rfl⟩

theorem neutral_append {text after : List Char} (h : Neutral text) (h' : Neutral after) :
    Neutral (text ++ after) := by
  cases text with
  | nil => exact h'
  | cons c text => exact h

theorem neutral_join {a b : String} (ha : Neutral a.toList) (hb : Neutral b.toList) :
    Neutral (a ++ b).toList := by
  rw [String.toList_append]
  exact neutral_append ha hb

/-- A text that begins with fixed characters. -/
theorem neutral_text {a : String} (b : String)
    (h : a.toList ≠ [] ∧ Neutral a.toList := by decide) : Neutral (a ++ b).toList := by
  rw [String.toList_append]
  cases ha : a.toList with
  | nil => exact absurd ha h.1
  | cons c text =>
    rw [ha] at h
    exact h.2

namespace Prints

variable {a b : String} {leaves more : List Leaf}

theorem empty : Prints "" [] := fun _ _ _ h => h

theorem token {t : Token} (spelling : Spelling t a.toList) : Prints a [.token t] :=
  fun _ _ neutral h => h.token spelling (Token.ends_of_neutral t neutral)

/-- A piece in front of another that begins neutrally. -/
theorem append (ha : Prints a leaves) (neutral : Neutral b.toList) (hb : Prints b more) :
    Prints (a ++ b) (leaves ++ more) := by
  intro after rest hn hs
  rw [String.toList_append, List.append_assoc, List.append_assoc]
  exact ha _ _ (neutral_append neutral hn) (hb after rest hn hs)

/-- A symbol that nothing makes longer, right in front of a piece. -/
theorem behind (s : Symbol) (h : Prints b more)
    (ends : ∀ c, s.goesOn c = false := by exact fun _ => rfl) : Prints (s.text ++ b) (sym s :: more) := by
  intro after rest hn hs
  rw [String.toList_append, List.append_assoc]
  exact (h after rest hn hs).symbol s fun c _ => ends c

/-- A piece between parentheses. -/
theorem inParens (h : Prints b more) :
    Prints ("(" ++ b ++ ")") (sym .openParen :: more ++ [sym .closeParen]) := by
  rw [String.append_assoc]
  exact (h.append (by decide) (.token (.symbol .closeParen))).behind .openParen

/-- A space in front of a piece. -/
theorem spaced (h : Prints b more) : Prints (" " ++ b) more := by
  intro after rest hn hs
  rw [String.toList_append]
  exact (h after rest hn hs).space

/-- A symbol and a space in front of a piece. -/
theorem apart (s : Symbol) (h : Prints b more) : Prints (s.text ++ (" " ++ b)) (sym s :: more) := by
  intro after rest hn hs
  rw [String.toList_append, List.append_assoc]
  refine (h.spaced after rest hn hs).symbol s ?_
  intro c hc
  rw [String.toList_append] at hc
  cases hc
  cases s <;> rfl

/-- A symbol between spaces, in front of a piece. -/
theorem operator (s : Symbol) (h : Prints b more) :
    Prints (" " ++ s.text ++ " " ++ b) (sym s :: more) := by
  rw [String.append_assoc, String.append_assoc]
  exact (h.apart s).spaced

/-- Two pieces with a symbol between them. -/
theorem joined (ha : Prints a leaves) (s : Symbol) (hb : Prints b more) :
    Prints (a ++ " " ++ s.text ++ " " ++ b) (leaves ++ sym s :: more) := by
  have text : a ++ " " ++ s.text ++ " " ++ b = a ++ (" " ++ (s.text ++ " " ++ b)) := by
    simp only [String.append_assoc]
  have tail : " " ++ (s.text ++ " " ++ b) = " " ++ s.text ++ " " ++ b := by
    simp only [String.append_assoc]
  rw [text]
  refine ha.append (neutral_text _) ?_
  rw [tail]
  exact hb.operator s

end Prints

/-! ## Joined texts -/

/-- Texts with a separator before each. -/
def following (separator : String) (texts : List String) : String :=
  String.join (texts.map (separator ++ ·))

theorem following_cons (separator a : String) (texts : List String) :
    following separator (a :: texts) = separator ++ a ++ following separator texts := by
  rw [following, List.map_cons, String.join_cons, following]

theorem intercalate_cons (separator a : String) (texts : List String) :
    separator.intercalate (a :: texts) = a ++ following separator texts := by
  induction texts generalizing a with
  | nil =>
    rw [String.intercalate_singleton, following, List.map_nil, String.join_nil,
      String.append_empty]
  | cons b texts ih =>
    rw [String.intercalate_cons_cons, ih, following_cons, String.append_assoc, String.append_assoc]

/-- The separator puts its symbol in front of a piece. -/
def Joint (separator : String) (s : Symbol) : Prop :=
  ∀ {b : String} {more : List Leaf}, Prints b more → Prints (separator ++ b) (sym s :: more)

theorem joint_comma : Joint ", " .comma := by
  intro b more h after rest hn hs
  rw [String.toList_append, List.append_assoc]
  exact (h after rest hn hs).space.symbol .comma fun _ _ => rfl

theorem neutral_following {separator : String} (texts : List String)
    (h : separator.toList ≠ [] ∧ Neutral separator.toList := by decide) :
    Neutral (following separator texts).toList := by
  cases texts with
  | nil => exact fun _ hc => by cases hc
  | cons a texts =>
    rw [following_cons, String.append_assoc]
    exact neutral_text _ h

theorem Joint.following_cons {separator : String} {s : Symbol} (joint : Joint separator s)
    (h : separator.toList ≠ [] ∧ Neutral separator.toList) {a : String} {texts : List String}
    {leaves more : List Leaf} (ha : Prints a leaves) (rest : Prints (following separator texts) more) :
    Prints (following separator (a :: texts)) (sym s :: leaves ++ more) := by
  rw [Grammar.following_cons]
  exact (joint ha).append (neutral_following texts h) rest

/-! ## Names and keywords -/

/-- The name spells an identifier. -/
def IsName (name : String) : Prop := Spelling (.identifier name) name.toList

/-- What spells an identifier is its name. -/
theorem isName_of_spelling {name : String} {text : List Char}
    (h : Spelling (.identifier name) text) : IsName name := by
  have same : text = name.toList := by
    generalize ht : Token.identifier name = t at h
    cases h with
    | word start all =>
      unfold Token.ofWord at ht
      split at ht
      · cases ht
      · cases ht
        rw [String.toList_ofList]
    | _ => cases ht
  rw [IsName, ← same]
  exact h

/-- A name is a word that is no keyword. -/
theorem isName_iff {name : String} : IsName name
    ↔ (∃ c rest, name.toList = c :: rest ∧ Token.isWordStart c = true
        ∧ rest.all Token.isWordPart = true) ∧ Keyword.ofText? name = none := by
  constructor
  · intro h
    unfold IsName at h
    generalize ht : Token.identifier name = t at h
    generalize htext : name.toList = text at h
    cases h with
    | @word c rest start all =>
      refine ⟨⟨c, rest, rfl, start, List.all_eq_true.2 all⟩, ?_⟩
      rw [← htext, String.ofList_toList, Token.ofWord] at ht
      split at ht
      · cases ht
      · assumption
    | _ => cases ht
  · rintro ⟨⟨c, rest, text, start, all⟩, noKeyword⟩
    have word : Token.ofWord (String.ofList (c :: rest)) = .identifier name := by
      rw [← text, String.ofList_toList, Token.ofWord, noKeyword]
    rw [IsName, text, ← word]
    exact .word start (List.all_eq_true.1 all)

instance (name : String) : Decidable (IsName name) :=
  match text : name.toList with
  | [] => .isFalse fun h => by
    obtain ⟨⟨c, rest, heq, _⟩, _⟩ := isName_iff.1 h
    rw [text] at heq
    cases heq
  | c :: rest =>
    decidable_of_iff
      ((Token.isWordStart c = true ∧ rest.all Token.isWordPart = true)
        ∧ Keyword.ofText? name = none)
      ⟨fun ⟨word, noKeyword⟩ => isName_iff.2 ⟨⟨c, rest, text, word⟩, noKeyword⟩, fun h => by
        obtain ⟨⟨c', rest', heq, word⟩, noKeyword⟩ := isName_iff.1 h
        rw [text] at heq
        cases heq
        exact ⟨word, noKeyword⟩⟩

theorem spelling_keyword (k : Keyword) : Spelling (.keyword k) k.text.toList := by
  obtain ⟨c, rest, text, start, all⟩ : ∃ c rest, k.text.toList = c :: rest
      ∧ Token.isWordStart c = true ∧ rest.all Token.isWordPart = true := by
    cases k <;> exact ⟨_, _, rfl, by decide, by decide⟩
  have word : Token.ofWord (String.ofList (c :: rest)) = .keyword k := by
    rw [← text, String.ofList_toList, Token.ofWord, Keyword.ofText?_text]
  rw [text, ← word]
  exact .word start (List.all_eq_true.1 all)

theorem Scans.keyword (k : Keyword) {after : List Char} {more : List Leaf}
    (ends : ∀ c ∈ after.head?, Token.isWordPart c = false) (h : Scans after more) :
    Scans (k.text.toList ++ after) (kw k :: more) :=
  h.token (spelling_keyword k) ends

theorem Scans.name {name : String} (hname : IsName name) {after : List Char} {more : List Leaf}
    (ends : ∀ c ∈ after.head?, Token.isWordPart c = false) (h : Scans after more) :
    Scans (name.toList ++ after) (ident name :: more) :=
  h.token hname ends

/-! ## Legible leaves -/

/-- A leaf that stands in some text. -/
def Leaf.Legible : Leaf → Prop
  | .token t => t = .eof ∨ ∃ text, Spelling t text
  | .text tokens source => Prints source [.text tokens source]

theorem legible_symbol (s : Symbol) : (sym s).Legible := .inr ⟨_, .symbol s⟩

theorem legible_name {name : String} (h : IsName name) : (ident name).Legible := .inr ⟨_, h⟩

theorem isName_of_legible {name : String} (h : (ident name).Legible) : IsName name := by
  rcases h with h | ⟨text, h⟩
  · cases h
  · exact isName_of_spelling h

/-- A run of lexemes prints as the text that it spans. -/
theorem prints_of_legible {run rest : List Lexeme} (h : LibrarySpec.Legible (run ++ rest))
    (hr : rest ≠ []) :
    Prints (String.ofList (Parser.spannedText run))
      [.text (run.map (·.token)) (String.ofList (Parser.spannedText run))] := by
  intro after more neutral hs place
  obtain ⟨run', tokens, texts, scanned⟩ := scan_spannedText h hr neutral place
  obtain ⟨ls, hls, spelled⟩ := hs (place.advance (Parser.spannedText run))
  refine ⟨run' ++ ls, ?_, ?_⟩
  · rw [String.toList_ofList, scanned, hls]
    rfl
  · rw [← tokens, ← texts]
    exact .text run' spelled

/-- Leaves that lexemes of a text spell are legible. -/
theorem legible_of_spells {leaves : List Leaf} {ls rest : List Lexeme} (h : Spells leaves ls)
    (legible : LibrarySpec.Legible (ls ++ rest)) (hr : rest ≠ []) :
    ∀ leaf ∈ leaves, leaf.Legible := by
  induction h with
  | nil => simp
  | @token l leaves ls _ ih =>
    obtain ⟨_, spelling, _, tail⟩ := legible.of_cons (by simp [hr])
    intro leaf hleaf
    rcases List.mem_cons.1 hleaf with rfl | hleaf
    · exact .inr ⟨l.text, spelling⟩
    · exact ih tail leaf hleaf
  | @text run leaves ls _ ih =>
    rw [List.append_assoc] at legible
    intro leaf hleaf
    rcases List.mem_cons.1 hleaf with rfl | hleaf
    · exact prints_of_legible legible (by simp [hr])
    · refine ih ?_ leaf hleaf
      exact legible.of_append (by simp [hr])

theorem Spells.of_append {a b : List Leaf} {ls : List Lexeme} (h : Spells (a ++ b) ls) :
    ∃ front back, ls = front ++ back ∧ Spells a front ∧ Spells b back := by
  induction a generalizing ls with
  | nil => exact ⟨[], ls, rfl, .nil, h⟩
  | cons leaf a ih =>
    rw [List.cons_append] at h
    cases h with
    | token l h =>
      obtain ⟨front, back, rfl, ha, hb⟩ := ih h
      exact ⟨l :: front, back, rfl, .token l ha, hb⟩
    | text run h =>
      obtain ⟨front, back, rfl, ha, hb⟩ := ih h
      exact ⟨run ++ front, back, (List.append_assoc _ _ _).symm, .text run ha, hb⟩

/-- The leaves of a text in front of the end of the input are legible. -/
theorem legible_of_scan {source : String} {leaves : List Leaf} {ls : List Lexeme}
    (h : scan source = .ok ls) (spelled : Spells (leaves ++ [.token .eof]) ls) :
    ∀ leaf ∈ leaves, leaf.Legible := by
  obtain ⟨front, back, rfl, hfront, hback⟩ := spelled.of_append
  refine legible_of_spells hfront (legible_of_scanFrom h).1 ?_
  obtain ⟨l, rest, rfl, _⟩ := hback.of_token
  simp

end LibrarySpec.Grammar
