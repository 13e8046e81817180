/-
  Parsers that accept what a grammar derives.

  `Accepts p leaves a after`: on a stream that spells `leaves` and then `after`, the parser `p`
  answers `a` and stops in front of what spells `after`.  The statement is about the whole rest of
  the stream, so the conditions under which a greedy parser stops at the right place are conditions
  on the first leaf of `after`.

    1. Sequencing (`Accepts.bind` and its special cases `look` and `step`).
    2. Single tokens.
    3. Repetition: every item has to begin with a token at which the step goes on, and `after` with
       one at which it stops.
    4. Verbatim text.
-/
import LibrarySpec.Proofs.Grammar.Reading

namespace LibrarySpec.Parser

open Grammar

/-- On lexemes that spell `leaves` and then `after`, the parser answers `a` and stops between. -/
def Accepts {α : Type} (p : Parser α) (leaves : List Leaf) (a : α) (after : List Leaf) : Prop :=
  ∀ c, Stream c.ahead → Spells (leaves ++ after) c.ahead →
    ∃ c', p c = .ok (a, c') ∧ Stream c'.ahead ∧ Spells after c'.ahead

/-! ## Sequencing -/

namespace Accepts

variable {α β : Type} {p : Parser α} {q : α → Parser β} {a : α} {b : β}
  {front back after : List Leaf}

theorem pure : Accepts (Pure.pure a) [] a after :=
  fun c st hs => ⟨c, rfl, st, hs⟩

theorem bind (hp : Accepts p front a (back ++ after)) (hq : Accepts (q a) back b after) :
    Accepts (p >>= q) (front ++ back) b after := by
  intro c st hs
  rw [List.append_assoc] at hs
  obtain ⟨d, hd, st', hs'⟩ := hp c st hs
  rw [bind_of_ok hd]
  exact hq d st' hs'

/-- A parser that only looks passes nothing. -/
theorem look (hp : Accepts p [] a (back ++ after)) (hq : Accepts (q a) back b after) :
    Accepts (p >>= q) back b after :=
  hp.bind hq

/-- A parser that passes one leaf. -/
theorem step {leaf : Leaf} (hp : Accepts p [leaf] a (back ++ after))
    (hq : Accepts (q a) back b after) : Accepts (p >>= q) (leaf :: back) b after :=
  hp.bind hq

/-- The answer of a parser, changed on the way out. -/
theorem andReturn {f : α → β} (hp : Accepts p front a after) :
    Accepts (p >>= fun x => Pure.pure (f x)) front (f a) after := by
  have h : Accepts (p >>= fun x => Pure.pure (f x)) (front ++ []) (f a) after :=
    hp.bind pure
  rwa [List.append_nil] at h

end Accepts

/-! ## Single tokens -/

variable {after : List Leaf}

theorem current_of_spells {t : Token} {c : Cursor} (h : Spells (.token t :: after) c.ahead) :
    ∃ l rest, c.ahead = l :: rest ∧ c.current = l ∧ l.token = t ∧ Spells after rest := by
  obtain ⟨l, rest, hc, ht, hs⟩ := h.of_token
  exact ⟨l, rest, hc, current_eq hc, ht, hs⟩

theorem accepts_peek {t : Token} : Accepts peek [] t (.token t :: after) := by
  intro c st hs
  obtain ⟨l, rest, _, hl, ht, _⟩ := current_of_spells hs
  exact ⟨c, by rw [peek_apply, hl, ht], st, hs⟩

/-- A look at the next token, when only its kind is known. -/
theorem accepts_peek_of {F : Token → Prop} (h : Begins F after) :
    ∃ t, F t ∧ Accepts peek [] t after := by
  obtain ⟨t, rest, rfl, ht⟩ := h
  exact ⟨t, ht, accepts_peek⟩

theorem accepts_peekSecond {s t : Token} :
    Accepts peekSecond [] t (.token s :: .token t :: after) := by
  intro c st hs
  obtain ⟨l, rest, hc, _, _, hrest⟩ := current_of_spells hs
  obtain ⟨m, _, rfl, rfl, _⟩ := hrest.of_token
  refine ⟨c, ?_, st, hs⟩
  rw [peekSecond_apply, Cursor.second, hc]
  rfl

theorem accepts_advance {t : Token} (ht : t ≠ .eof) : Accepts advance [.token t] () after := by
  intro c st hs
  obtain ⟨l, rest, hc, _, rfl, hrest⟩ := current_of_spells hs
  refine ⟨c.next, rfl, ?_, ?_⟩
  · rw [next_eq hc]
    rw [hc] at st
    exact st.tail_of_token ht
  · rw [next_eq hc]
    exact hrest

theorem accepts_check {t u : Token} : Accepts (check t) [] (decide (u = t)) (.token u :: after) := by
  intro c st hs
  obtain ⟨l, rest, _, hl, ht, _⟩ := current_of_spells hs
  exact ⟨c, by rw [check_apply, hl, ht], st, hs⟩

theorem accepts_check_false {t : Token} (h : Begins (· ≠ t) after) :
    Accepts (check t) [] false after := by
  obtain ⟨u, rest, rfl, hu⟩ := h
  have hd : decide (u = t) = false := decide_eq_false hu
  rw [← hd]
  exact accepts_check

theorem accepts_check_true {t : Token} : Accepts (check t) [] true (.token t :: after) := by
  have hd : decide (t = t) = true := decide_eq_true rfl
  rw [← hd]
  exact accepts_check

theorem accepts_eat {t : Token} (ht : t ≠ .eof) : Accepts (eat t) [.token t] true after := by
  refine accepts_check_true.look ?_
  exact (accepts_advance ht).andReturn

theorem accepts_eat_false {t : Token} (h : Begins (· ≠ t) after) :
    Accepts (eat t) [] false after :=
  (accepts_check_false h).look .pure

theorem accepts_expect {t : Token} {wanted : String} (ht : t ≠ .eof) :
    Accepts (expect t wanted) [.token t] () after :=
  (accepts_eat ht).step .pure

theorem accepts_identifier {wanted name : String} :
    Accepts (identifier wanted) [ident name] name after := by
  refine accepts_peek.look ?_
  exact (accepts_advance (by simp)).step .pure

theorem accepts_atIdentifier {name : String} :
    Accepts atIdentifier [] true (ident name :: after) :=
  accepts_peek.look .pure

/-- The token is no identifier. -/
def NotName (t : Token) : Prop := ∀ name, t ≠ .identifier name

theorem accepts_atIdentifier_false (h : Begins NotName after) :
    Accepts atIdentifier [] false after := by
  obtain ⟨t, rest, rfl, ht⟩ := h
  refine accepts_peek.look ?_
  cases t with
  | identifier name => exact absurd rfl (ht name)
  | _ => exact .pure

/-! ## Repetition -/

section Repetition

variable {τ α : Type} {step : Parser (Option α)} {leaves : τ → List Leaf} {value : τ → α}
  {stop : List Leaf} {F : Token → Prop}

theorem accepts_collectWithin (ts : List τ)
    (goOn : ∀ t ∈ ts, ∀ more, Begins F more → Accepts step (leaves t) (some (value t)) more)
    (begins : ∀ t ∈ ts, Begins F (leaves t)) (behind : Begins F (stop ++ after))
    (done : Accepts step stop none after) (limit : Nat) (hl : ts.length < limit) :
    Accepts (collectWithin step limit) (ts.flatMap leaves ++ stop) (ts.map value) after := by
  induction ts generalizing limit with
  | nil =>
    obtain ⟨limit, rfl⟩ := Nat.exists_eq_succ_of_ne_zero (Nat.ne_of_gt hl)
    have h : Accepts (collectWithin step (limit + 1)) (stop ++ []) [] after :=
      Accepts.bind done .pure
    rwa [List.append_nil] at h
  | cons t ts ih =>
    obtain ⟨limit, rfl⟩ := Nat.exists_eq_succ_of_ne_zero (Nat.ne_of_gt (Nat.zero_lt_of_lt hl))
    have tail : Accepts (collectWithin step limit) (ts.flatMap leaves ++ stop) (ts.map value) after :=
      ih (fun x hx => goOn x (List.mem_cons_of_mem t hx))
        (fun x hx => begins x (List.mem_cons_of_mem t hx)) limit (Nat.lt_of_succ_lt_succ hl)
    -- the next item, or what stands behind the last one, makes the step stop behind this item
    have next : Begins F ((ts.flatMap leaves ++ stop) ++ after) := by
      cases ts with
      | nil => exact behind
      | cons u us =>
        rw [List.flatMap_cons, List.append_assoc, List.append_assoc]
        exact (begins u (by simp)).append _
    rw [List.flatMap_cons, List.append_assoc]
    exact (goOn t (by simp) _ next).bind tail.andReturn

theorem accepts_collect (ts : List τ)
    (goOn : ∀ t ∈ ts, ∀ more, Begins F more → Accepts step (leaves t) (some (value t)) more)
    (begins : ∀ t ∈ ts, Begins F (leaves t)) (behind : Begins F (stop ++ after))
    (done : Accepts step stop none after) :
    Accepts (collect step) (ts.flatMap leaves ++ stop) (ts.map value) after := by
  intro c st hs
  have enough : ts.length ≤ size (ts.flatMap leaves) := by
    clear goOn behind done hs
    induction ts with
    | nil => simp
    | cons t ts ih =>
      have := (begins t (by simp)).size_pos
      have := ih fun x hx => begins x (List.mem_cons_of_mem t hx)
      simp only [List.length_cons, List.flatMap_cons, size_append]
      omega
  have total := hs.length_eq
  simp only [size_append] at total
  exact accepts_collectWithin ts goOn begins behind done (c.ahead.length + 1) (by omega) c st hs

/-- A repetition that passes nothing when it stops. -/
theorem accepts_repeat (ts : List τ)
    (goOn : ∀ t ∈ ts, ∀ more, Begins F more → Accepts step (leaves t) (some (value t)) more)
    (begins : ∀ t ∈ ts, Begins F (leaves t)) (behind : Begins F after)
    (done : Accepts step [] none after) :
    Accepts (collect step) (ts.flatMap leaves) (ts.map value) after := by
  have h : Accepts (collect step) (ts.flatMap leaves ++ []) (ts.map value) after :=
    accepts_collect ts goOn begins behind done
  rwa [List.append_nil] at h

end Repetition

variable {τ α : Type} {item : Parser α} {leaves : τ → List Leaf} {value : τ → α}
  {F : Token → Prop}

/-- Items behind an opening token each; `F` holds of the opening token and of the token behind. -/
theorem accepts_afterEach {opening : Token} (ho : opening ≠ .eof) (ts : List τ)
    (hi : ∀ t ∈ ts, ∀ more, Begins F more → Accepts item (leaves t) (value t) more)
    (hf : F opening) (behind : Begins (fun t => F t ∧ t ≠ opening) after) :
    Accepts (afterEach opening item) (ts.flatMap fun t => .token opening :: leaves t)
      (ts.map value) after := by
  have goOn : ∀ t ∈ ts, ∀ more, Begins F more →
      Accepts (do if ← eat opening then return some (← item) else return none)
        (.token opening :: leaves t) (some (value t)) more :=
    fun t ht more hm => (accepts_eat ho).step (hi t ht more hm).andReturn
  have done : Accepts (do if ← eat opening then return some (← item) else return none)
      [] (none : Option α) after :=
    (accepts_eat_false (behind.mono fun _ h => h.2)).look .pure
  exact accepts_repeat ts goOn (fun t _ => by simpa using hf) (behind.mono fun _ h => h.1) done

/-- Items up to a closing token, which none of them begins with. -/
theorem accepts_upTo {closing : Token} (hc : closing ≠ .eof) (ts : List τ)
    (hi : ∀ t ∈ ts, ∀ more, Begins F more → Accepts item (leaves t) (value t) more)
    (begins : ∀ t ∈ ts, Begins (fun t => F t ∧ t ≠ closing) (leaves t)) (hf : F closing) :
    Accepts (upTo closing item) (ts.flatMap leaves ++ [.token closing]) (ts.map value) after := by
  have goOn : ∀ t ∈ ts, ∀ more, Begins F more →
      Accepts (do if ← eat closing then return none else return some (← item))
        (leaves t) (some (value t)) more := by
    intro t ht more hm
    have notClosing : Begins (· ≠ closing) (leaves t ++ more) :=
      ((begins t ht).mono fun _ h => h.2).append more
    exact (accepts_eat_false notClosing).look (hi t ht more hm).andReturn
  exact accepts_collect ts goOn (fun t ht => (begins t ht).mono fun _ h => h.1)
    (by simpa using hf) ((accepts_eat hc).step .pure)

/-- One or more items with separators between them. -/
theorem accepts_separated {separator : Symbol} (ts : Chain τ)
    (hi : ∀ t ∈ ts.toList, ∀ more, Begins F more → Accepts item (leaves t) (value t) more)
    (hf : F (.symbol separator))
    (behind : Begins (fun t => F t ∧ t ≠ .symbol separator) after) :
    Accepts (separated (.symbol separator) item) (separate separator leaves ts.toList)
      (ts.toList.map value) after := by
  have tail : Accepts (afterEach (.symbol separator) item)
      (ts.rest.flatMap fun t => sym separator :: leaves t) (ts.rest.map value) after :=
    accepts_afterEach (by simp) ts.rest (fun t ht => hi t (List.mem_cons_of_mem _ ht)) hf behind
  have next : Begins F ((ts.rest.flatMap fun t => sym separator :: leaves t) ++ after) := by
    cases ts.rest with
    | nil => exact behind.mono fun _ h => h.1
    | cons u us => exact ⟨_, _, rfl, hf⟩
  exact (hi ts.first (by simp [Chain.toList]) _ next).bind tail.andReturn

/-- Items in parentheses with commas between them.  No item begins with the closing parenthesis. -/
theorem accepts_inParens {closing : String} (ts : List τ)
    (hi : ∀ t ∈ ts, ∀ more, Begins F more → Accepts item (leaves t) (value t) more)
    (begins : ∀ t ∈ ts, Begins (· ≠ .symbol .closeParen) (leaves t))
    (comma : F (.symbol .comma)) (close : F (.symbol .closeParen)) :
    Accepts (inParens item closing) (separate .comma leaves ts ++ [sym .closeParen])
      (ts.map value) after := by
  cases ts with
  | nil =>
    refine accepts_check_true.look ?_
    exact (accepts_advance (by simp)).step .pure
  | cons t rest =>
    have notClosed : Accepts (check (.symbol .closeParen)) [] false
        ((separate .comma leaves (t :: rest) ++ [sym .closeParen]) ++ after) := by
      apply accepts_check_false
      rw [separate, List.append_assoc, List.append_assoc]
      exact (begins t (by simp)).append _
    have inside : Accepts (separated (.symbol .comma) item) (separate .comma leaves (t :: rest))
        ((t :: rest).map value) ([sym .closeParen] ++ after) :=
      accepts_separated ⟨t, rest⟩ hi comma (by simpa [sym] using close)
    exact notClosed.look (inside.bind ((accepts_expect (by simp)).step .pure))

/-! ## Verbatim text -/

/-- A balanced run in front of its stop symbol is passed whole. -/
theorem lexemesTo_of_balanced {stop : Symbol} {wanted : String} {l : Lexeme} {rest : List Lexeme}
    (hl : l.token = .symbol stop) (run : List Lexeme) (solid : ∀ m ∈ run, m.Solid) :
    ∀ (depth : Nat) (behind : Lexeme), Balanced stop depth (run.map (·.token)) →
      lexemesTo stop wanted depth behind (run ++ l :: rest)
        = .ok (run, ⟨run.getLastD behind, l :: rest⟩) := by
  induction run with
  | nil =>
    intro depth behind balanced
    obtain rfl : depth = 0 := balanced
    rw [List.nil_append, lexemesTo, depthAfter_stop hl]
    rfl
  | cons m run ih =>
    intro depth behind balanced
    obtain ⟨hs, d, hd, balanced⟩ := balanced
    rw [List.cons_append, lexemesTo, depthAfter_eq (solid m (by simp)).token_ne hs, hd]
    simp only [ih (fun x hx => solid x (List.mem_cons_of_mem m hx)) d m balanced,
      List.getLastD_cons]
    rfl

/-- A balanced run in front of its stop symbol is verbatim text. -/
theorem verbatim_of_balanced {stop : Symbol} {wanted : String} {c : Cursor} {run : List Lexeme}
    {l : Lexeme} {rest : List Lexeme} (ahead : c.ahead = run ++ l :: rest)
    (hl : l.token = .symbol stop) (nonempty : run ≠ []) (solid : ∀ m ∈ run, m.Solid)
    (balanced : Balanced stop 0 (run.map (·.token))) :
    verbatim stop wanted c
      = .ok (String.ofList (spannedText run), ⟨run.getLastD c.behind, l :: rest⟩) := by
  have visible : (spannedText run).isEmpty = false :=
    List.isEmpty_eq_false_iff.2 (spannedText_ne_nil solid nonempty)
  unfold verbatim
  rw [ahead, lexemesTo_of_balanced hl run solid 0 c.behind balanced]
  simp only [trim_spannedText solid, visible]
  rfl

theorem accepts_verbatim {stop : Symbol} {wanted : String} {r : RawText} (hr : r.EndsAt stop) :
    Accepts (verbatim stop wanted) [r.leaf] r.source (sym stop :: after) := by
  intro c st hs
  obtain ⟨run, rest, hc, htokens, hsource, hrest⟩ := hs.of_text
  obtain ⟨l, tail, rfl, hl, _⟩ := hrest.of_token
  rw [hc] at st
  obtain ⟨solid, st'⟩ := st.of_append (by simp)
  obtain ⟨hne, balanced⟩ := hr
  rw [← htokens] at hne balanced
  refine ⟨⟨run.getLastD c.behind, l :: tail⟩, ?_, st', hrest⟩
  rw [← hsource]
  exact verbatim_of_balanced hc hl (fun h => hne (by rw [h]; rfl)) solid balanced

end LibrarySpec.Parser
