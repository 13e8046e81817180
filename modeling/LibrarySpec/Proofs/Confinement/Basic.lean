/-
  Parsers that stay inside their stream.

  A parser is confined if it never passes the end of the input.  A run does not show where its cursor
  has been, but it shows what it has looked at: so two runs are compared, one on a stream, the other
  on the same stream with more lexemes behind its end.  A parser that is confined cannot tell them
  apart.

    1. `SameAnswer` compares two answers.  They are one answer, up to the lexemes behind the end; a
       fault is one that a stream can give (`Located`), and so neither that of a token asked for
       where there is none nor that of a stream without end.
    2. `Agrees` compares two parsers.  They are usually one, but a parser of bounded depth is compared
       with that of another depth, since the depth is taken from the number of lexemes ahead.
    3. Sequencing, single tokens, repetition and verbatim text keep `Agrees`.

  How much a parser passes is part of the statement: a repetition ends because each of its items
  passes something.
-/
import LibrarySpec.Proofs.Grammar.Reading

namespace LibrarySpec.Parser

open Grammar
open Text (Position)

/-! ## Answers -/

/-- The faults that a stream can give.  A syntax fault is reported at one of the places. -/
def Located (places : Position → Prop) : Fault → Prop
  | .syntactic fault => places fault.place
  | .missingHandle _ | .ambiguousHandle _ _ => True
  | _ => False

variable {α β : Type} {places : Position → Prop}

/-- The answers on a stream and on the same with `junk` behind it are the same, and `spent` lexemes of
    the stream were passed. -/
inductive SameAnswer (places : Position → Prop) (ls junk : List Lexeme) (spent : α → Nat) :
    Except Fault (α × Cursor) → Except Fault (α × Cursor) → Prop where
  | ok (a : α) (behind : Lexeme) {rest : List Lexeme} (stream : Stream rest) (suffix : rest <:+ ls)
      (passed : rest.length + spent a ≤ ls.length) :
      SameAnswer places ls junk spent (.ok (a, ⟨behind, rest⟩)) (.ok (a, ⟨behind, rest ++ junk⟩))
  | error {fault : Fault} (located : Located places fault) :
      SameAnswer places ls junk spent (.error fault) (.error fault)

/-- No token is asked for where there is none. -/
theorem SameAnswer.ne_overrun {ls junk : List Lexeme} {spent : α → Nat}
    {x y : Except Fault (α × Cursor)} (h : SameAnswer places ls junk spent x y) :
    x ≠ .error .overrun := by
  rintro rfl
  cases h with
  | error located => exact located

/-- On a stream of at most `size` lexemes that begins with a token of some kind, the first parser
    answers what the second answers if there is more behind the stream. -/
def Agrees (places : Position → Prop) (F : Token → Prop) (size : Nat) (spent : α → Nat)
    (p q : Parser α) : Prop :=
  ∀ behind ls junk, Stream ls → (∀ l ∈ ls, places l.start) → F (Cursor.mk behind ls).current.token →
    ls.length ≤ size → SameAnswer places ls junk spent (p ⟨behind, ls⟩) (q ⟨behind, ls ++ junk⟩)

/-- The two parsers agree, whatever token comes first. -/
def Keeps (places : Position → Prop) (size : Nat) (p q : Parser α) : Prop :=
  Agrees places (fun _ => True) size (fun _ => 0) p q

/-- The two parsers agree, and pass something. -/
def Spends (places : Position → Prop) (size : Nat) (p q : Parser α) : Prop :=
  Agrees places (fun _ => True) size (fun _ => 1) p q

/-! ## Sequencing -/

variable {F G : Token → Prop} {size : Nat} {spent : α → Nat} {p q : Parser α} {f g : α → Parser β}

/-- The answers on the rest of a stream are answers on the stream. -/
theorem SameAnswer.behind {ls rest junk : List Lexeme} {spent' : α → Nat}
    {x y : Except Fault (α × Cursor)} (h : SameAnswer places rest junk spent x y)
    (suffix : rest <:+ ls) (more : ∀ a, rest.length + spent' a ≤ ls.length + spent a) :
    SameAnswer places ls junk spent' x y := by
  cases h with
  | ok a b stream suffix' passed =>
    have := more a
    exact .ok a b stream (suffix'.trans suffix) (by omega)
  | error located => exact .error located

theorem Agrees.weaken {size' : Nat} {spent' : α → Nat} (h : Agrees places F size spent p q)
    (kind : ∀ t, G t → F t) (small : size' ≤ size) (less : ∀ a, spent' a ≤ spent a) :
    Agrees places G size' spent' p q := by
  intro behind ls junk st inside first bound
  have answers := h behind ls junk st inside (kind _ first) (Nat.le_trans bound small)
  exact answers.behind (List.suffix_refl ls) fun a => Nat.add_le_add_left (less a) _

theorem Spends.keeps (h : Spends places size p q) : Keeps places size p q :=
  h.weaken (fun _ h => h) (Nat.le_refl _) fun _ => Nat.zero_le _

/-- Where a step passes something or not, it may pass nothing. -/
theorem Agrees.keeps (h : Agrees places (fun _ => True) size spent p q) : Keeps places size p q :=
  h.weaken (fun _ h => h) (Nat.le_refl _) fun _ => Nat.zero_le _

theorem Keeps.within {size' : Nat} (h : Keeps places size p q) (small : size' ≤ size) :
    Keeps places size' p q :=
  h.weaken (fun _ h => h) small fun _ => Nat.le_refl _

theorem Spends.within {size' : Nat} (h : Spends places size p q) (small : size' ≤ size) :
    Spends places size' p q :=
  h.weaken (fun _ h => h) small fun _ => Nat.le_refl _

/-- Where a parser agrees whatever comes first, it agrees in front of a token of some kind. -/
theorem Agrees.here (h : Agrees places (fun _ => True) size spent p q) :
    Agrees places F size spent p q :=
  h.weaken (fun _ _ => trivial) (Nat.le_refl _) fun _ => Nat.le_refl _

theorem Agrees.pure (a : α) (free : spent a = 0) :
    Agrees places F size spent (Pure.pure a) (Pure.pure a) :=
  fun behind ls _ st _ _ _ => .ok a behind st (List.suffix_refl ls) (by omega)

theorem Agrees.bind {total : β → Nat} (hp : Agrees places F size spent p q)
    (hf : ∀ a, Agrees places (fun _ => True) (size - spent a) (fun b => total b - spent a)
      (f a) (g a)) :
    Agrees places F size total (p >>= f) (q >>= g) := by
  intro behind ls junk st inside first bound
  have answers := hp behind ls junk st inside first bound
  show SameAnswer places ls junk total (p ⟨behind, ls⟩ >>= fun r => f r.1 r.2)
    (q ⟨behind, ls ++ junk⟩ >>= fun r => g r.1 r.2)
  revert answers
  generalize p ⟨behind, ls⟩ = x
  generalize q ⟨behind, ls ++ junk⟩ = y
  intro answers
  cases answers with
  | error located => exact .error located
  | @ok a b rest stream suffix passed =>
    -- the second parser runs on what the first left, again a stream, with the same lexemes behind
    have inside' : ∀ l ∈ rest, places l.start := fun l hl => inside l (suffix.subset hl)
    have second := hf a b rest junk stream inside' trivial (by omega)
    exact second.behind suffix fun b => by omega

theorem Keeps.bind (hp : Keeps places size p q) (hf : ∀ a, Keeps places size (f a) (g a)) :
    Keeps places size (p >>= f) (q >>= g) :=
  Agrees.bind hp hf

/-- What passes something first passes something. -/
theorem Spends.bind (hp : Spends places size p q)
    (hf : ∀ a, Keeps places (size - 1) (f a) (g a)) : Spends places size (p >>= f) (q >>= g) :=
  Agrees.bind hp hf

/-- What passes something last passes something. -/
theorem Keeps.bindSpends (hp : Keeps places size p q) (hf : ∀ a, Spends places size (f a) (g a)) :
    Spends places size (p >>= f) (q >>= g) :=
  Agrees.bind hp hf

/-- The answer of a parser, changed on the way out. -/
theorem Agrees.map {n : Nat} {k : α → β} (hp : Agrees places F size (fun _ => n) p q) :
    Agrees places F size (fun _ => n) (p >>= fun a => Pure.pure (k a))
      (q >>= fun a => Pure.pure (k a)) := by
  exact hp.bind fun a => .pure _ (Nat.sub_self n)

/-! ## Single tokens -/

theorem current_append {behind : Lexeme} {ls : List Lexeme} (st : Stream ls) (junk : List Lexeme) :
    (Cursor.mk behind (ls ++ junk)).current = (Cursor.mk behind ls).current := by
  cases ls with
  | nil => exact absurd rfl st.ne_nil
  | cons l rest => rfl

/-- The lexeme under the cursor is one of the stream. -/
theorem current_mem {behind : Lexeme} {ls : List Lexeme} (st : Stream ls) :
    (Cursor.mk behind ls).current ∈ ls := by
  cases ls with
  | nil => exact absurd rfl st.ne_nil
  | cons l rest => exact List.mem_cons_self

theorem Agrees.peek {f g : Token → Parser β} {spent : β → Nat}
    (h : ∀ t, F t → Agrees places (· = t) size spent (f t) (g t)) :
    Agrees places F size spent (peek >>= f) (peek >>= g) := by
  intro behind ls junk st inside first bound
  show SameAnswer places ls junk spent (f (Cursor.mk behind ls).current.token ⟨behind, ls⟩)
    (g (Cursor.mk behind (ls ++ junk)).current.token ⟨behind, ls ++ junk⟩)
  rw [current_append st]
  exact h _ first behind ls junk st inside rfl bound

theorem Agrees.place {f g : Position → Parser β} {spent : β → Nat}
    (h : ∀ p, places p → Agrees places F size spent (f p) (g p)) :
    Agrees places F size spent (place >>= f) (place >>= g) := by
  intro behind ls junk st inside first bound
  show SameAnswer places ls junk spent (f (Cursor.mk behind ls).current.start ⟨behind, ls⟩)
    (g (Cursor.mk behind (ls ++ junk)).current.start ⟨behind, ls ++ junk⟩)
  rw [current_append st]
  exact h _ (inside _ (current_mem st)) behind ls junk st inside first bound

/-- A token that is not the end of the input is passed. -/
theorem agrees_advance {t : Token} (ht : t ≠ .eof) :
    Agrees places (· = t) size (fun _ => 1) advance advance := by
  intro behind ls junk st _ first _
  cases ls with
  | nil => exact absurd rfl st.ne_nil
  | cons l rest =>
    subst first
    exact .ok () l (st.tail_of_token ht) (List.suffix_cons l rest) (Nat.le_refl _)

theorem Agrees.throw {fault : Fault} (located : Located places fault) :
    Agrees places F size spent (throw fault) (throw fault) :=
  fun _ _ _ _ _ _ _ => .error located

theorem Agrees.reject {fault : SyntaxFault} (located : places fault.place) :
    Agrees places F size spent (reject fault) (reject fault) :=
  .throw located

theorem Agrees.fail (wanted : String) :
    Agrees places F size spent (fail wanted) (fail wanted) := by
  refine .peek fun t _ => .place fun p hp => ?_
  exact .reject hp

theorem Agrees.check {t : Token} {f g : Bool → Parser β} {spent : β → Nat}
    (yes : Agrees places (· = t) size spent (f true) (g true))
    (no : Agrees places F size spent (f false) (g false)) :
    Agrees places F size spent (check t >>= f) (check t >>= g) := by
  intro behind ls junk st inside first bound
  show SameAnswer places ls junk spent
    (f (decide ((Cursor.mk behind ls).current.token = t)) ⟨behind, ls⟩)
    (g (decide ((Cursor.mk behind (ls ++ junk)).current.token = t)) ⟨behind, ls ++ junk⟩)
  rw [current_append st]
  by_cases h : (Cursor.mk behind ls).current.token = t
  · rw [decide_eq_true h]
    exact yes behind ls junk st inside h bound
  · rw [decide_eq_false h]
    exact no behind ls junk st inside first bound

/-- A known token is passed, and something else follows. -/
theorem Agrees.passing {t : Token} (ht : t ≠ .eof) (h : Keeps places (size - 1) p q) :
    Agrees places (· = t) size (fun _ => 1) (Parser.advance >>= fun _ => p)
      (Parser.advance >>= fun _ => q) :=
  (agrees_advance ht).bind fun _ => h

theorem agrees_eat {t : Token} (ht : t ≠ .eof) :
    Agrees places F size Bool.toNat (eat t) (eat t) := by
  refine .check ?_ (.pure false rfl)
  exact (agrees_advance ht).bind fun _ => .pure true rfl

theorem spends_expect {t : Token} (ht : t ≠ .eof) (wanted : String) :
    Spends places size (expect t wanted) (expect t wanted) := by
  refine (agrees_eat ht).bind fun b => ?_
  cases b with
  | true => exact .pure () rfl
  | false => exact .fail wanted

theorem spends_identifier (wanted : String) :
    Spends places size (identifier wanted) (identifier wanted) := by
  refine .peek fun t _ => ?_
  cases t with
  | identifier name => exact .passing (by simp) (.pure name rfl)
  | _ => exact .fail wanted

theorem keeps_atIdentifier : Keeps places size atIdentifier atIdentifier := by
  refine .peek fun t _ => ?_
  cases t with
  | identifier => exact .pure true rfl
  | _ => exact .pure false rfl

/-! ## Repetition

  Two repetitions agree if their steps do and both limits are large enough: every step that answers
  `some` passes a lexeme. -/

/-- Steps agree, and pass something unless they end the repetition. -/
def Steps (places : Position → Prop) (size : Nat) (p q : Parser (Option α)) : Prop :=
  Agrees places (fun _ => True) size (fun o => o.isSome.toNat) p q

/-- There is no stream without lexemes. -/
theorem Agrees.zero : Agrees places F 0 spent p q :=
  fun _ _ _ st _ _ bound => absurd (List.eq_nil_of_length_eq_zero (Nat.le_zero.1 bound)) st.ne_nil

theorem keeps_collectWithin {step step' : Parser (Option α)} {limit limit' : Nat}
    (h : Steps places size step step') (enough : size < limit) (enough' : size < limit') :
    Keeps places size (collectWithin step limit) (collectWithin step' limit') := by
  -- a step that goes on passes a lexeme, so the bound on the stream drops with both limits
  induction limit generalizing limit' size with
  | zero => omega
  | succ limit ih =>
    obtain ⟨limit', rfl⟩ := Nat.exists_eq_add_one_of_ne_zero (Nat.ne_zero_of_lt enough')
    refine h.bind fun o => ?_
    cases o with
    | none => exact .pure [] rfl
    | some a =>
      cases size with
      | zero => exact .zero
      | succ size =>
        have fewer : Steps places size step step' :=
          h.weaken (fun _ h => h) (Nat.le_succ size) fun _ => Nat.le_refl _
        exact (ih fewer (by omega) (by omega)).bind fun as => .pure (a :: as) rfl

theorem keeps_collect {step step' : Parser (Option α)} (h : Steps places size step step') :
    Keeps places size (collect step) (collect step') := by
  intro behind ls junk st inside first bound
  have fewer : Steps places ls.length step step' :=
    h.weaken (fun _ h => h) bound fun _ => Nat.le_refl _
  have longer : ls.length < (ls ++ junk).length + 1 := by
    rw [List.length_append]
    omega
  exact keeps_collectWithin fewer (Nat.lt_succ_self _) longer behind ls junk st inside first
    (Nat.le_refl _)

variable {item item' : Parser α}

theorem keeps_afterEach {opening : Token} (ho : opening ≠ .eof)
    (h : Keeps places (size - 1) item item') :
    Keeps places size (afterEach opening item) (afterEach opening item') := by
  refine keeps_collect ((agrees_eat ho).bind fun b => ?_)
  cases b with
  | true => exact Agrees.bind h fun a => .pure (some a) rfl
  | false => exact .pure none rfl

theorem keeps_upTo {closing : Token} (hc : closing ≠ .eof) (h : Spends places size item item') :
    Keeps places size (upTo closing item) (upTo closing item') := by
  refine keeps_collect ((agrees_eat hc).bind fun b => ?_)
  cases b with
  | true => exact .pure none rfl
  | false => exact Agrees.bind h fun a => .pure (some a) rfl

theorem spends_separated {separator : Token} (hs : separator ≠ .eof)
    (h : Spends places size item item') :
    Spends places size (separated separator item) (separated separator item') := by
  refine h.bind fun a => ?_
  have later : Keeps places (size - 1 - 1) item item' := h.keeps.within (by omega)
  exact (keeps_afterEach hs later).bind fun as => .pure (a :: as) rfl

theorem spends_inParens (closing : String) (h : Spends places size item item') :
    Spends places size (inParens item closing) (inParens item' closing) := by
  refine .check (.passing (by simp) (.pure [] rfl)) ?_
  refine (spends_separated (by simp) h).bind fun as => ?_
  exact (spends_expect (by simp) closing).keeps.bind fun _ => .pure as rfl

/-! ## Verbatim text -/

theorem sameAnswer_lexemesTo {stop : Symbol} {wanted : String} {ls : List Lexeme} (st : Stream ls)
    (inside : ∀ l ∈ ls, places l.start) (junk : List Lexeme) (depth : Nat) (behind : Lexeme) :
    SameAnswer places ls junk (fun _ => 0) (lexemesTo stop wanted depth behind ls)
      (lexemesTo stop wanted depth behind (ls ++ junk)) := by
  induction st generalizing depth behind with
  | eof l hl =>
    -- the end of the input is a fault, so what stands behind it is not looked at
    simp only [List.cons_append, List.nil_append, lexemesTo, depthAfter, hl, if_true]
    exact .error (inside l (List.mem_singleton_self l))
  | @cons l rest solid tail ih =>
    simp only [List.cons_append, lexemesTo]
    by_cases hs : depth = 0 ∧ l.token = .symbol stop
    · obtain ⟨rfl, ht⟩ := hs
      rw [depthAfter_stop ht]
      exact .ok [] behind (.cons l solid tail) (List.suffix_refl _) (Nat.le_refl _)
    · rw [depthAfter_eq solid.token_ne hs]
      cases hd : depthPast depth l.token with
      | none => exact .error (inside l List.mem_cons_self)
      | some d =>
        have answers := ih (fun m hm => inside m (List.mem_cons_of_mem l hm)) d l
        revert answers
        dsimp only
        generalize lexemesTo stop wanted d l rest = x
        generalize lexemesTo stop wanted d l (rest ++ junk) = y
        intro answers
        cases answers with
        | error located => exact .error located
        | ok run b stream suffix passed =>
          exact .ok (l :: run) b stream (suffix.trans (List.suffix_cons l _))
            (Nat.le_trans passed (Nat.le_succ _))

theorem keeps_verbatim (stop : Symbol) (wanted : String) :
    Keeps places size (verbatim stop wanted) (verbatim stop wanted) := by
  intro behind ls junk st inside _ _
  have answers : SameAnswer places ls junk (fun _ => 0) (lexemesTo stop wanted 0 behind ls)
      (lexemesTo stop wanted 0 behind (ls ++ junk)) :=
    sameAnswer_lexemesTo st inside junk 0 behind
  simp only [verbatim, current_append st]
  revert answers
  generalize lexemesTo stop wanted 0 behind ls = x
  generalize lexemesTo stop wanted 0 behind (ls ++ junk) = y
  intro answers
  cases answers with
  | error located => exact .error located
  | ok run b stream suffix passed =>
    dsimp only
    split
    · exact .error (inside _ (current_mem st))
    · exact .ok _ b stream suffix passed

end LibrarySpec.Parser
