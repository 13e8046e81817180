/-
  What it means that a parser reads a grammar.

  Two properties of a parser are kept apart, because they are proved apart.

    1. `Reads`: whatever the parser answers, the lexemes that it passed spell the leaves of some tree
       of the grammar, and the answer is the value of that tree.
    2. `Accepts`: in front of lexemes that spell the leaves of a tree, the parser answers the value of
       the tree and stops behind them.  What comes after matters to a parser that looks ahead, so the
       leaves after the tree are part of the statement.

  Both are stated of streams as scanning makes them: every lexeme but the last is solid, the last is
  the end of the input (`Stream`).  On such a stream the cursor never runs out of lexemes, and each
  combinator below keeps the two properties: `collect` in all its forms, lists with separators,
  verbatim text.
-/
import LibrarySpec.Proofs.Grammar.Basic

namespace LibrarySpec

open Grammar

/-! ## Streams -/

/-- A lexeme with a token and a spelling that begins and ends with visible characters. -/
structure Lexeme.Solid (l : Lexeme) : Prop where
  token_ne : l.token ≠ .eof
  text_ne : l.text ≠ []
  first : ∀ c ∈ l.text.head?, Text.isBlank c = false
  last : ∀ c ∈ l.text.getLast?, Text.isBlank c = false

/-- Solid lexemes and the end of the input. -/
inductive Stream : List Lexeme → Prop where
  | eof (l : Lexeme) (h : l.token = .eof) : Stream [l]
  | cons (l : Lexeme) {rest : List Lexeme} (solid : l.Solid) (tail : Stream rest) :
      Stream (l :: rest)

namespace Stream

theorem ne_nil {ls : List Lexeme} (h : Stream ls) : ls ≠ [] := by
  cases h <;> simp

/-- Past a token that is not the end of the input, a stream goes on. -/
theorem tail_of_token {l : Lexeme} {rest : List Lexeme} (h : Stream (l :: rest))
    (ht : l.token ≠ .eof) : Stream rest := by
  cases h with
  | eof _ he => exact absurd he ht
  | cons _ _ tail => exact tail

/-- A lexeme with others behind it is solid. -/
theorem solid_of_ne_nil {l : Lexeme} {rest : List Lexeme} (h : Stream (l :: rest))
    (hr : rest ≠ []) : l.Solid := by
  cases h with
  | eof => exact absurd rfl hr
  | cons _ solid => exact solid

/-- In front of other lexemes there are only solid ones, and the others are a stream. -/
theorem of_append {run rest : List Lexeme} (h : Stream (run ++ rest)) (hr : rest ≠ []) :
    (∀ l ∈ run, l.Solid) ∧ Stream rest := by
  induction run with
  | nil => exact ⟨by simp, h⟩
  | cons m run ih =>
    rw [List.cons_append] at h
    have solid : m.Solid := h.solid_of_ne_nil (by simp [hr])
    obtain ⟨all, st⟩ := ih (h.tail_of_token solid.token_ne)
    refine ⟨?_, st⟩
    intro l hl
    rcases List.mem_cons.1 hl with rfl | hl
    · exact solid
    · exact all l hl

/-- The end of the input is the end of a stream. -/
theorem eq_of_eof {l : Lexeme} {rest : List Lexeme} (h : Stream (l :: rest))
    (ht : l.token = .eof) : rest = [] := by
  cases h with
  | eof => rfl
  | cons _ solid => exact absurd ht solid.token_ne

end Stream

/-! ## Leaves and lexemes -/

namespace Grammar

@[simp] theorem plain_nil : plain [] = [] := rfl

@[simp] theorem plain_cons (t : Token) (ts : List Token) : plain (t :: ts) = .token t :: plain ts :=
  rfl

@[simp] theorem plain_append (a b : List Token) : plain (a ++ b) = plain a ++ plain b :=
  List.map_append

/-- How many lexemes spell a list of leaves. -/
def size : List Leaf → Nat
  | [] => 0
  | .token _ :: rest => size rest + 1
  | .text tokens _ :: rest => size rest + tokens.length

@[simp] theorem size_append (a b : List Leaf) : size (a ++ b) = size a + size b := by
  induction a with
  | nil => simp [size]
  | cons leaf a ih =>
    cases leaf with
    | token t => simp only [List.cons_append, size, ih]; omega
    | text ts s => simp only [List.cons_append, size, ih]; omega

@[simp] theorem size_plain (ts : List Token) : size (plain ts) = ts.length := by
  induction ts with
  | nil => rfl
  | cons t ts ih => simp [size, ih]

theorem Spells.length_eq {leaves : List Leaf} {ls : List Lexeme} (h : Spells leaves ls) :
    ls.length = size leaves := by
  induction h with
  | nil => rfl
  | token l _ ih => simp [size, ih]
  | text run _ ih => simp only [size, List.length_append, List.length_map, ih]; omega

theorem Spells.of_token {t : Token} {leaves : List Leaf} {ls : List Lexeme}
    (h : Spells (.token t :: leaves) ls) :
    ∃ l rest, ls = l :: rest ∧ l.token = t ∧ Spells leaves rest := by
  cases h with
  | token l hs => exact ⟨l, _, rfl, rfl, hs⟩

theorem Spells.of_text {tokens : List Token} {source : String} {leaves : List Leaf}
    {ls : List Lexeme} (h : Spells (.text tokens source :: leaves) ls) :
    ∃ run rest, ls = run ++ rest ∧ run.map (·.token) = tokens
      ∧ String.ofList (Parser.spannedText run) = source ∧ Spells leaves rest := by
  cases h with
  | text run hs => exact ⟨run, _, rfl, rfl, rfl, hs⟩

/-- The leaves begin with a token of some kind. -/
def Begins (F : Token → Prop) (leaves : List Leaf) : Prop :=
  ∃ t rest, leaves = .token t :: rest ∧ F t

@[simp] theorem begins_token {F : Token → Prop} {t : Token} {rest : List Leaf} :
    Begins F (.token t :: rest) ↔ F t := by
  constructor
  · rintro ⟨t', rest', h, hf⟩
    cases h
    exact hf
  · intro h
    exact ⟨t, rest, rfl, h⟩

theorem Begins.append {F : Token → Prop} {a : List Leaf} (h : Begins F a) (b : List Leaf) :
    Begins F (a ++ b) := by
  obtain ⟨t, rest, rfl, ht⟩ := h
  exact ⟨t, rest ++ b, rfl, ht⟩

theorem Begins.mono {F G : Token → Prop} {a : List Leaf} (h : Begins F a) (hfg : ∀ t, F t → G t) :
    Begins G a := by
  obtain ⟨t, rest, rfl, ht⟩ := h
  exact ⟨t, rest, rfl, hfg t ht⟩

theorem Begins.size_pos {F : Token → Prop} {a : List Leaf} (h : Begins F a) : 0 < size a := by
  obtain ⟨t, rest, rfl, _⟩ := h
  simp [size]

/-- In front of lexemes that begin with a token of some kind stands a lexeme with that token. -/
theorem Begins.spelled {F : Token → Prop} {leaves : List Leaf} {ls : List Lexeme}
    (h : Begins F leaves) (hs : Spells leaves ls) :
    ∃ l rest, ls = l :: rest ∧ F l.token := by
  obtain ⟨t, rest, rfl, ht⟩ := h
  cases hs with
  | token l _ => exact ⟨l, _, rfl, ht⟩

end Grammar

/-! ## Running parsers -/

namespace Parser

/-- Any cursor. -/
def Anywhere (_ : Cursor) : Prop := True

theorem bind_eq_ok {α β : Type} {p : Parser α} {q : α → Parser β} {c c' : Cursor} {b : β} :
    (p >>= q) c = .ok (b, c') ↔ ∃ a d, p c = .ok (a, d) ∧ q a d = .ok (b, c') := by
  show (p c >>= fun r => q r.1 r.2) = .ok (b, c') ↔ _
  cases h : p c with
  | error e => simp [bind, Except.bind]
  | ok r =>
    constructor
    · intro hq
      exact ⟨r.1, r.2, rfl, hq⟩
    · rintro ⟨a, d, hr, hq⟩
      cases hr
      exact hq

theorem bind_of_ok {α β : Type} {p : Parser α} {q : α → Parser β} {c d : Cursor} {a : α}
    (h : p c = .ok (a, d)) : (p >>= q) c = q a d := by
  show (p c >>= fun r => q r.1 r.2) = _
  rw [h]
  rfl

@[simp] theorem pure_apply {α : Type} (a : α) (c : Cursor) : (pure a : Parser α) c = .ok (a, c) := rfl

@[simp] theorem peek_apply (c : Cursor) : peek c = .ok (c.current.token, c) := rfl

@[simp] theorem peekSecond_apply (c : Cursor) : peekSecond c = .ok (c.second.token, c) := rfl

@[simp] theorem place_apply (c : Cursor) : place c = .ok (c.current.start, c) := rfl

@[simp] theorem advance_apply (c : Cursor) : advance c = .ok ((), c.next) := rfl

@[simp] theorem check_apply (t : Token) (c : Cursor) :
    check t c = .ok (decide (c.current.token = t), c) := rfl

theorem reject_ne_ok {α : Type} {fault : SyntaxFault} {c c' : Cursor} {a : α} :
    (reject fault : Parser α) c ≠ .ok (a, c') := by
  intro h
  cases h

theorem fail_ne_ok {α : Type} {wanted : String} {c c' : Cursor} {a : α} :
    (fail wanted : Parser α) c ≠ .ok (a, c') := by
  intro h
  cases h

theorem eat_apply (t : Token) (c : Cursor) :
    eat t c = if c.current.token = t then .ok (true, c.next) else .ok (false, c) := by
  by_cases h : c.current.token = t
  · have hc : check t c = .ok (true, c) := by simp [h]
    rw [eat, bind_of_ok hc, if_pos h]
    rfl
  · have hc : check t c = .ok (false, c) := by simp [h]
    rw [eat, bind_of_ok hc, if_neg h]
    rfl

theorem current_eq {c : Cursor} {l : Lexeme} {rest : List Lexeme} (h : c.ahead = l :: rest) :
    c.current = l := by
  rw [Cursor.current, h]
  rfl

theorem next_eq {c : Cursor} {l : Lexeme} {rest : List Lexeme} (h : c.ahead = l :: rest) :
    c.next = ⟨l, rest⟩ := by
  rw [Cursor.next, h]

/-! ## Passing leaves -/

/-- Between two cursors stand lexemes that spell these leaves. -/
structure Passed (c c' : Cursor) (leaves : List Leaf) : Prop where
  stream : Stream c'.ahead
  spells : ∀ after, Spells after c'.ahead → Spells (leaves ++ after) c.ahead

namespace Passed

theorem refl {c : Cursor} (h : Stream c.ahead) : Passed c c [] := ⟨h, fun _ h => h⟩

theorem trans {c d e : Cursor} {a b : List Leaf} (h : Passed c d a) (h' : Passed d e b) :
    Passed c e (a ++ b) := by
  refine ⟨h'.stream, fun after hs => ?_⟩
  rw [List.append_assoc]
  exact h.spells _ (h'.spells _ hs)

/-- The cursor passes the token under it. -/
theorem next {c : Cursor} {t : Token} (st : Stream c.ahead) (h : c.current.token = t)
    (ht : t ≠ .eof) : Passed c c.next [.token t] := by
  subst h
  cases hc : c.ahead with
  | nil => exact absurd hc st.ne_nil
  | cons l rest =>
    rw [current_eq hc] at ht ⊢
    rw [next_eq hc]
    rw [hc] at st
    refine ⟨st.tail_of_token ht, fun after hs => ?_⟩
    rw [hc]
    exact .token l hs

/-- Every list of lexemes spells its own tokens. -/
theorem spells_tokens (ls : List Lexeme) : Spells (plain (ls.map (·.token))) ls := by
  induction ls with
  | nil => exact .nil
  | cons l ls ih => exact .token l ih

/-- The token under a cursor that passes a token. -/
theorem current {c c' : Cursor} {t : Token} {leaves : List Leaf}
    (h : Passed c c' (.token t :: leaves)) : c.current.token = t := by
  obtain ⟨l, rest, hc, ht, _⟩ := (h.spells _ (spells_tokens c'.ahead)).of_token
  rw [current_eq hc, ht]

/-- The second token in front of a cursor that passes two. -/
theorem second {c c' : Cursor} {t u : Token} {leaves : List Leaf}
    (h : Passed c c' (.token t :: .token u :: leaves)) : c.second.token = u := by
  obtain ⟨l, rest, hc, _, hs⟩ := (h.spells _ (spells_tokens c'.ahead)).of_token
  obtain ⟨m, more, rfl, hu, _⟩ := hs.of_token
  rw [Cursor.second, hc, ← hu]
  rfl

/-- Between two cursors with the same token under them nothing may stand. -/
theorem current_of_nil {c c' : Cursor} (h : Passed c c' []) :
    c.current.token = c'.current.token := by
  cases hc : c'.ahead with
  | nil => exact absurd hc h.stream.ne_nil
  | cons l rest =>
    have hs := h.spells _ (spells_tokens c'.ahead)
    rw [hc] at hs
    obtain ⟨m, more, hm, ht, _⟩ := hs.of_token
    rw [current_eq hm, current_eq hc, ht]

end Passed

/-- Whatever the parser answers is the value of a tree whose leaves it passed. -/
def Reads {τ α : Type} (p : Parser α) (leaves : τ → List Leaf) (value : τ → α) (ok : τ → Prop) :
    Prop :=
  ∀ c a c', Stream c.ahead → p c = .ok (a, c') → ∃ t, ok t ∧ value t = a ∧ Passed c c' (leaves t)

theorem eat_eq_true {t : Token} {c c' : Cursor} (st : Stream c.ahead) (ht : t ≠ .eof)
    (h : eat t c = .ok (true, c')) : Passed c c' [.token t] := by
  rw [eat_apply] at h
  split at h
  · rename_i hc
    cases h
    exact .next st hc ht
  · cases h

theorem eat_eq_false {t : Token} {c c' : Cursor} (h : eat t c = .ok (false, c')) :
    c' = c ∧ c.current.token ≠ t := by
  rw [eat_apply] at h
  split at h
  · cases h
  · rename_i hc
    cases h
    exact ⟨rfl, hc⟩

theorem expect_eq_ok {t : Token} {wanted : String} {c c' : Cursor} (st : Stream c.ahead)
    (ht : t ≠ .eof) (h : expect t wanted c = .ok ((), c')) : Passed c c' [.token t] := by
  obtain ⟨b, d, hb, hd⟩ := bind_eq_ok.1 h
  cases b with
  | true =>
    cases hd
    exact eat_eq_true st ht hb
  | false => exact absurd hd fail_ne_ok

theorem identifier_eq_ok {wanted name : String} {c c' : Cursor} (st : Stream c.ahead)
    (h : identifier wanted c = .ok (name, c')) : Passed c c' [ident name] := by
  obtain ⟨t, d, hp, hd⟩ := bind_eq_ok.1 h
  cases hp
  cases ht : c.current.token with
  | identifier n =>
    rw [ht] at hd
    cases hd
    exact .next st ht (by simp)
  | _ =>
    rw [ht] at hd
    exact absurd hd fail_ne_ok

theorem reads_identifier (wanted : String) :
    Reads (identifier wanted) (fun name => [ident name]) id (fun _ => True) :=
  fun _ a _ st h => ⟨a, trivial, rfl, identifier_eq_ok st h⟩

/-! ## Repetition, read

  The tree of a repetition is the list of the trees of its items.  A repetition ends where its step
  answers `none`; `Done` is what is known of that place. -/

section Repetition

variable {τ α : Type} {step : Parser (Option α)} {leaves : τ → List Leaf} {value : τ → α}
  {ok : τ → Prop} {stop : List Leaf} {Done : Cursor → Prop}

theorem collectWithin_eq_ok
    (more : ∀ c a c', Stream c.ahead → step c = .ok (some a, c') →
      ∃ t, ok t ∧ value t = a ∧ Passed c c' (leaves t))
    (done : ∀ c c', Stream c.ahead → step c = .ok (none, c') → Passed c c' stop ∧ Done c')
    (limit : Nat) {c c' : Cursor} {as : List α} (st : Stream c.ahead)
    (h : collectWithin step limit c = .ok (as, c')) :
    ∃ ts : List τ, (∀ t ∈ ts, ok t) ∧ ts.map value = as ∧ Passed c c' (ts.flatMap leaves ++ stop)
      ∧ Done c' := by
  induction limit generalizing c as with
  | zero => cases h
  | succ limit ih =>
    obtain ⟨o, d, hs, hd⟩ := bind_eq_ok.1 h
    cases o with
    | none =>
      cases hd
      obtain ⟨passed, finished⟩ := done _ _ st hs
      exact ⟨[], by simp, rfl, by simpa using passed, finished⟩
    | some a =>
      obtain ⟨as', e, hr, he⟩ := bind_eq_ok.1 hd
      cases he
      obtain ⟨t, ht, rfl, passed⟩ := more _ _ _ st hs
      obtain ⟨ts, hts, rfl, rest, finished⟩ := ih passed.stream hr
      refine ⟨t :: ts, ?_, rfl, ?_, finished⟩
      · intro x hx
        rcases List.mem_cons.1 hx with rfl | hx
        · exact ht
        · exact hts x hx
      · have whole := passed.trans rest
        rw [← List.append_assoc, ← List.flatMap_cons] at whole
        exact whole

theorem collect_eq_ok
    (more : ∀ c a c', Stream c.ahead → step c = .ok (some a, c') →
      ∃ t, ok t ∧ value t = a ∧ Passed c c' (leaves t))
    (done : ∀ c c', Stream c.ahead → step c = .ok (none, c') → Passed c c' stop ∧ Done c')
    {c c' : Cursor} {as : List α} (st : Stream c.ahead) (h : collect step c = .ok (as, c')) :
    ∃ ts : List τ, (∀ t ∈ ts, ok t) ∧ ts.map value = as ∧ Passed c c' (ts.flatMap leaves ++ stop)
      ∧ Done c' := by
  obtain ⟨d, e, hd, he⟩ := bind_eq_ok.1 h
  cases hd
  exact collectWithin_eq_ok more done _ st he

/-- A repetition that passes nothing when it stops. -/
theorem repeat_eq_ok
    (more : ∀ c a c', Stream c.ahead → step c = .ok (some a, c') →
      ∃ t, ok t ∧ value t = a ∧ Passed c c' (leaves t))
    (done : ∀ c c', step c = .ok (none, c') → c' = c ∧ Done c)
    {c c' : Cursor} {as : List α} (st : Stream c.ahead) (h : collect step c = .ok (as, c')) :
    ∃ ts : List τ, (∀ t ∈ ts, ok t) ∧ ts.map value = as ∧ Passed c c' (ts.flatMap leaves)
      ∧ Done c' := by
  have stopped : ∀ c c', Stream c.ahead → step c = .ok (none, c') → Passed c c' [] ∧ Done c' := by
    intro c c' st h
    obtain ⟨rfl, finished⟩ := done c c' h
    exact ⟨.refl st, finished⟩
  obtain ⟨ts, hts, hv, passed, finished⟩ := collect_eq_ok more stopped st h
  rw [List.append_nil] at passed
  exact ⟨ts, hts, hv, passed, finished⟩

end Repetition

variable {τ α : Type} {item : Parser α} {leaves : τ → List Leaf} {value : τ → α} {ok : τ → Prop}

theorem afterEach_eq_ok {opening : Token} (ho : opening ≠ .eof) (hi : Reads item leaves value ok)
    {c c' : Cursor} {as : List α} (st : Stream c.ahead)
    (h : afterEach opening item c = .ok (as, c')) :
    ∃ ts : List τ, (∀ t ∈ ts, ok t) ∧ ts.map value = as
      ∧ Passed c c' (ts.flatMap fun t => .token opening :: leaves t)
      ∧ c'.current.token ≠ opening := by
  have more : ∀ c a c', Stream c.ahead →
      (do if ← eat opening then return some (← item) else return none : Parser (Option α)) c
        = .ok (some a, c') →
      ∃ t, ok t ∧ value t = a ∧ Passed c c' (.token opening :: leaves t) := by
    intro c a c' st h
    obtain ⟨b, d, hb, hd⟩ := bind_eq_ok.1 h
    cases b with
    | false => cases hd
    | true =>
      obtain ⟨a', e, he, hp⟩ := bind_eq_ok.1 hd
      cases hp
      have first := eat_eq_true st ho hb
      obtain ⟨t, ht, hv, rest⟩ := hi _ _ _ first.stream he
      exact ⟨t, ht, hv, first.trans rest⟩
  have done : ∀ c c',
      (do if ← eat opening then return some (← item) else return none : Parser (Option α)) c
        = .ok (none, c') → c' = c ∧ c.current.token ≠ opening := by
    intro c c' h
    obtain ⟨b, d, hb, hd⟩ := bind_eq_ok.1 h
    cases b with
    | false =>
      cases hd
      exact eat_eq_false hb
    | true =>
      obtain ⟨a', e, he, hp⟩ := bind_eq_ok.1 hd
      cases hp
  exact repeat_eq_ok more done st h

theorem upTo_eq_ok {closing : Token} (hc : closing ≠ .eof) (hi : Reads item leaves value ok)
    {c c' : Cursor} {as : List α} (st : Stream c.ahead) (h : upTo closing item c = .ok (as, c')) :
    ∃ ts : List τ, (∀ t ∈ ts, ok t) ∧ ts.map value = as
      ∧ Passed c c' (ts.flatMap leaves ++ [.token closing]) := by
  have more : ∀ c a c', Stream c.ahead →
      (do if ← eat closing then return none else return some (← item) : Parser (Option α)) c
        = .ok (some a, c') →
      ∃ t, ok t ∧ value t = a ∧ Passed c c' (leaves t) := by
    intro c a c' st h
    obtain ⟨b, d, hb, hd⟩ := bind_eq_ok.1 h
    cases b with
    | true => cases hd
    | false =>
      obtain ⟨rfl, _⟩ := eat_eq_false hb
      obtain ⟨a', e, he, hp⟩ := bind_eq_ok.1 hd
      cases hp
      exact hi _ _ _ st he
  have done : ∀ c c', Stream c.ahead →
      (do if ← eat closing then return none else return some (← item) : Parser (Option α)) c
        = .ok (none, c') → Passed c c' [.token closing] ∧ True := by
    intro c c' st h
    obtain ⟨b, d, hb, hd⟩ := bind_eq_ok.1 h
    cases b with
    | true =>
      cases hd
      exact ⟨eat_eq_true st hc hb, trivial⟩
    | false =>
      obtain ⟨a', e, he, hp⟩ := bind_eq_ok.1 hd
      cases hp
  obtain ⟨ts, hts, hv, passed, _⟩ := collect_eq_ok more done st h
  exact ⟨ts, hts, hv, passed⟩

theorem separated_eq_ok {separator : Symbol} (hi : Reads item leaves value ok) {c c' : Cursor}
    {as : List α} (st : Stream c.ahead) (h : separated (.symbol separator) item c = .ok (as, c')) :
    ∃ ts : Chain τ, (∀ t ∈ ts.toList, ok t) ∧ ts.toList.map value = as
      ∧ Passed c c' (separate separator leaves ts.toList) := by
  obtain ⟨a, d, ha, hd⟩ := bind_eq_ok.1 h
  obtain ⟨more, e, he, hp⟩ := bind_eq_ok.1 hd
  cases hp
  obtain ⟨t, ht, rfl, first⟩ := hi _ _ _ st ha
  obtain ⟨ts, hts, rfl, rest, _⟩ := afterEach_eq_ok (by simp) hi first.stream he
  refine ⟨⟨t, ts⟩, ?_, rfl, first.trans rest⟩
  intro x hx
  rcases List.mem_cons.1 hx with rfl | hx
  · exact ht
  · exact hts x hx

theorem inParens_eq_ok {closing : String} (hi : Reads item leaves value ok) {c c' : Cursor}
    {as : List α} (st : Stream c.ahead) (h : inParens item closing c = .ok (as, c')) :
    ∃ ts : List τ, (∀ t ∈ ts, ok t) ∧ ts.map value = as
      ∧ Passed c c' (separate .comma leaves ts ++ [sym .closeParen]) := by
  obtain ⟨b, d, hb, hd⟩ := bind_eq_ok.1 h
  rw [check_apply] at hb
  cases hb
  split at hd
  · rename_i hc
    cases hd
    have passed := Passed.next st (of_decide_eq_true hc) (by simp)
    exact ⟨[], by simp, rfl, passed⟩
  · obtain ⟨items, e, he, hr⟩ := bind_eq_ok.1 hd
    obtain ⟨_, g, hg, hp⟩ := bind_eq_ok.1 hr
    cases hp
    obtain ⟨ts, hts, hv, inside⟩ := separated_eq_ok hi st he
    exact ⟨ts.toList, hts, hv, inside.trans (expect_eq_ok inside.stream (by simp) hg)⟩

/-! ## Verbatim text -/

/-- Verbatim text goes on over a lexeme exactly as brackets open and close. -/
theorem depthAfter_eq {stop : Symbol} {wanted : String} {depth : Nat} {l : Lexeme}
    (hl : l.token ≠ .eof) (hs : ¬(depth = 0 ∧ l.token = .symbol stop)) :
    depthAfter stop wanted depth l =
      match depthPast depth l.token with
      | some d => .ok (some d)
      | none => .error (.syntactic (.unexpected wanted l.token l.start)) := by
  unfold depthAfter depthPast
  rw [if_neg hl, if_neg hs]
  by_cases ho : opens l.token
  · rw [if_pos ho]
    rcases ho with h | h | h <;> rw [h]
  · rw [if_neg ho]
    by_cases hc : closes l.token
    · rw [if_pos hc]
      rcases hc with h | h | h <;> rw [h] <;> by_cases hd : depth = 0 <;> simp [hd]
    · rw [if_neg hc]
      simp only [opens, not_or] at ho
      simp only [closes, not_or] at hc
      split <;> simp_all

theorem depthAfter_stop {stop : Symbol} {wanted : String} {l : Lexeme}
    (h : l.token = .symbol stop) : depthAfter stop wanted 0 l = .ok none := by
  simp [depthAfter, h]

/-- The lexemes that verbatim text passes are balanced, and the cursor stands behind them, at the stop
    symbol. -/
theorem lexemesTo_eq_ok {stop : Symbol} {wanted : String} {ls : List Lexeme} (st : Stream ls) :
    ∀ {depth : Nat} {behind : Lexeme} {passed : List Lexeme} {c' : Cursor},
      lexemesTo stop wanted depth behind ls = .ok (passed, c') →
      ls = passed ++ c'.ahead ∧ Stream c'.ahead ∧ (∀ l ∈ passed, l.Solid)
        ∧ Balanced stop depth (passed.map (·.token)) ∧ c'.behind = passed.getLastD behind
        ∧ c'.current.token = .symbol stop := by
  induction st with
  | eof l hl =>
    intro depth behind passed c' h
    simp only [lexemesTo, depthAfter, hl, if_true] at h
    cases h
  | @cons l rest solid tail ih =>
    intro depth behind passed c' h
    rw [lexemesTo] at h
    by_cases hs : depth = 0 ∧ l.token = .symbol stop
    · obtain ⟨rfl, ht⟩ := hs
      rw [depthAfter_stop ht] at h
      cases h
      exact ⟨rfl, .cons l solid tail, by simp, rfl, rfl, ht⟩
    · rw [depthAfter_eq solid.token_ne hs] at h
      cases hd : depthPast depth l.token with
      | none =>
        rw [hd] at h
        cases h
      | some d =>
        simp only [hd] at h
        cases hr : lexemesTo stop wanted d l rest with
        | error e =>
          rw [hr] at h
          cases h
        | ok r =>
          obtain ⟨run, e⟩ := r
          rw [hr] at h
          cases h
          obtain ⟨rfl, st', hrun, balanced, behind, stopped⟩ := ih hr
          refine ⟨rfl, st', ?_, ⟨hs, d, hd, balanced⟩, ?_, stopped⟩
          · intro x hx
            rcases List.mem_cons.1 hx with rfl | hx
            · exact solid
            · exact hrun x hx
          · rw [behind, List.getLastD_cons]

theorem spannedText_ne_nil {run : List Lexeme} (solid : ∀ l ∈ run, l.Solid) (hne : run ≠ []) :
    spannedText run ≠ [] := by
  cases run with
  | nil => exact absurd rfl hne
  | cons l rest =>
    have := (solid l (by simp)).text_ne
    simp [spannedText, this]

/-- The text that solid lexemes span begins and ends with visible characters: nothing is trimmed. -/
theorem trim_spannedText {run : List Lexeme} (solid : ∀ l ∈ run, l.Solid) :
    Text.trim (spannedText run) = spannedText run := by
  cases run with
  | nil => rfl
  | cons l rest =>
    have hl := solid l (by simp)
    apply Text.trim_eq_self
    · intro c hc
      rw [spannedText, List.head?_append, List.head?_eq_some_head hl.text_ne] at hc
      exact hl.first c (by rw [List.head?_eq_some_head hl.text_ne]; exact hc)
    · intro c hc
      rcases List.eq_nil_or_concat rest with rfl | ⟨front, m, rfl⟩
      · rw [spannedText, List.flatMap_nil, List.append_nil] at hc
        exact hl.last c hc
      · have hm := solid m (by simp)
        rw [spannedText, List.concat_eq_append, List.flatMap_append, List.flatMap_cons,
          List.flatMap_nil, List.append_nil, ← List.append_assoc, ← List.append_assoc,
          List.getLast?_append, List.getLast?_eq_some_getLast hm.text_ne] at hc
        exact hm.last c (by rw [List.getLast?_eq_some_getLast hm.text_ne]; exact hc)

/-- Verbatim text is what a balanced run of lexemes spans, and stops in front of the stop symbol. -/
theorem run_of_verbatim {stop : Symbol} {wanted text : String} {c c' : Cursor}
    (st : Stream c.ahead) (h : verbatim stop wanted c = .ok (text, c')) :
    ∃ run, run ≠ [] ∧ c.ahead = run ++ c'.ahead ∧ Stream c'.ahead ∧ (∀ l ∈ run, l.Solid)
      ∧ Balanced stop 0 (run.map (·.token)) ∧ text = String.ofList (spannedText run)
      ∧ c'.behind = run.getLastD c.behind ∧ c'.current.token = .symbol stop := by
  unfold verbatim at h
  split at h
  · cases h
  · rename_i run d hrun
    obtain ⟨hc, st', solid, balanced, behind, stopped⟩ := lexemesTo_eq_ok st hrun
    simp only [trim_spannedText solid] at h
    split at h
    · cases h
    · rename_i hne
      cases h
      refine ⟨run, ?_, hc, st', solid, balanced, rfl, behind, stopped⟩
      rintro rfl
      exact hne rfl

theorem verbatim_eq_ok {stop : Symbol} {wanted text : String} {c c' : Cursor}
    (st : Stream c.ahead) (h : verbatim stop wanted c = .ok (text, c')) :
    ∃ r : RawText, r.EndsAt stop ∧ r.source = text ∧ Passed c c' [r.leaf] := by
  obtain ⟨run, nonempty, hc, st', _, balanced, rfl, _⟩ := run_of_verbatim st h
  refine ⟨⟨run.map (·.token), String.ofList (spannedText run)⟩, ⟨?_, balanced⟩, rfl, st', ?_⟩
  · exact fun none => nonempty (List.map_eq_nil_iff.1 none)
  · intro after hs
    rw [hc]
    exact .text run hs

end Parser
end LibrarySpec
