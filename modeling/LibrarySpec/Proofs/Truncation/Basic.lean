/-
  Parsers on lists cut short.

  A list of lexemes that has lost its end shows its last lexeme again and again.  A parser that runs
  on it answers or fails, and what it fails with is one of three things.

    1. A fault that a stream could give too, reported at a lexeme of the list (`Located`).
    2. `overrun`, and then the list ends inside verbatim text (`EndsInText`): a token opens such a text
       and what stands behind it does not reach the stop symbol.
    3. `endless`, and then the last token is one of the three that a repetition or a recursion goes on
       with (`Token.Feeds`): an identifier, a star or an opening parenthesis.

  `Bears` says so of a parser.  It says how much is passed only for lists whose last token feeds
  nothing: there `Copes` asks for nothing, `Pays` for a lexeme that is passed or a fault, and `Paces`
  for as much of a step that repeats, hence no limit is reached.  Where the cursor stands is a condition
  on it, usually which token it has passed (`Past`).  Past the last lexeme this is the token that is
  seen again, and so the parser behind it is known to fail.

  Both bad endings exist: `verbatim_overrun` and `collectWithin_endless` say where.
-/
import LibrarySpec.Proofs.Confinement.Basic

namespace LibrarySpec

open Grammar LibrarySpec.Parser
open Text (Position)

/-! ## What the last lexemes allow -/

/-- A token that something goes on with as long as it is seen: atoms of a type, marks of an atom,
    groups inside groups. -/
def Token.Feeds (t : Token) : Prop :=
  (∃ name, t = .identifier name) ∨ t = .symbol .star ∨ t = .symbol .openParen

/-- The last token feeds what sees it again and again. -/
def Feeding (kept : List Lexeme) : Prop := ∃ l ∈ kept.getLast?, l.token.Feeds

/-- The tokens behind which verbatim text begins, and the symbol that it ends before. -/
inductive OpensText : Token → Symbol → Prop where
  | codeType : OpensText (.symbol .openParen) .closeParen
  | expression : OpensText (.symbol .minus) .semicolon
  | value : OpensText (.symbol .assign) .semicolon

/-- A text that is entered `depth` brackets deep, closes no bracket that is not open, and has no stop
    symbol outside all brackets. -/
def Unfinished (stop : Symbol) : Nat → List Token → Prop
  | _, [] => True
  | depth, t :: rest =>
    ¬(depth = 0 ∧ t = .symbol stop) ∧ ∃ d, depthPast depth t = some d ∧ Unfinished stop d rest

/-- A verbatim text has begun and not reached its stop symbol. -/
def EndsInText (kept : List Lexeme) : Prop :=
  ∃ front opener run stop, kept = front ++ opener :: run ∧ OpensText opener.token stop
    ∧ Unfinished stop 0 (run.map (·.token))

/-- What a parser may report on the lexemes that were kept. -/
def Reported (kept : List Lexeme) (fault : Fault) : Prop :=
  Located (fun p => ∃ l ∈ kept, l.start = p) fault
    ∨ fault = .overrun ∧ EndsInText kept ∨ fault = .endless ∧ Feeding kept

/-! ## Cursors -/

namespace Cursor

variable {kept : List Lexeme} {c d : Cursor}

/-- The cursor stands in the list and sees one of its lexemes. -/
structure Inside (kept : List Lexeme) (c : Cursor) : Prop where
  split : ∃ front, kept = front ++ c.ahead ∧ c.behind = front.getLastD .nothing
  current_mem : c.current ∈ kept

theorem inside_ofList (h : kept ≠ []) : Inside kept (.ofList kept) := by
  refine ⟨⟨[], rfl, rfl⟩, ?_⟩
  cases kept with
  | nil => exact absurd rfl h
  | cons l rest => exact List.mem_cons_self

theorem Inside.next (h : c.Inside kept) : c.next.Inside kept := by
  obtain ⟨behind, ahead⟩ := c
  obtain ⟨⟨front, split, _⟩, here⟩ := h
  cases ahead with
  | nil => exact ⟨⟨front, split, ‹_›⟩, here⟩
  | cons l rest =>
    have split : kept = (front ++ [l]) ++ rest := by rw [split, List.append_assoc]; rfl
    refine ⟨⟨front ++ [l], split, by rw [Cursor.next, List.getLastD_concat]⟩, ?_⟩
    cases rest with
    | nil => exact here
    | cons m rest =>
      rw [split]
      exact List.mem_append_right _ List.mem_cons_self

/-- There is one place past the last lexeme. -/
theorem Inside.eq_of_nil (hc : c.Inside kept) (hd : d.Inside kept) (nil : c.ahead = [])
    (nil' : d.ahead = []) : d = c := by
  obtain ⟨⟨front, split, behind⟩, _⟩ := hc
  obtain ⟨⟨front', split', behind'⟩, _⟩ := hd
  obtain ⟨b, ahead⟩ := c
  obtain ⟨b', ahead'⟩ := d
  subst nil nil'
  rw [List.append_nil] at split split'
  subst split split'
  exact congrArg (Cursor.mk · []) (behind'.trans behind.symm)

theorem Inside.last (h : c.Inside kept) (nil : c.ahead = []) : kept.getLast? = some c.current := by
  obtain ⟨⟨front, split, behind⟩, here⟩ := h
  have same : c.current = c.behind := by rw [current, nil]; rfl
  rw [nil, List.append_nil] at split
  subst split
  rw [same, behind, List.getLastD_eq_getLast?]
  cases last : kept.getLast? with
  | none =>
    rw [List.getLast?_eq_none_iff.1 last] at here
    exact absurd here List.not_mem_nil
  | some l => rfl

/-- A token that feeds nothing else is seen once. -/
theorem Inside.live {t : Token} (h : c.Inside kept) (here : c.current.token = t) (feeds : t.Feeds)
    (starved : ¬Feeding kept) : c.ahead ≠ [] :=
  fun nil => starved ⟨c.current, h.last nil, here ▸ feeds⟩

/-- The token passed last. -/
def Past (t : Token) (c : Cursor) : Prop := c.behind.token = t

theorem past_next (h : c.current.token = t) : c.next.Past t := by
  obtain ⟨behind, _ | ⟨l, rest⟩⟩ := c
  · exact h
  · exact h

/-- Past the last lexeme, the token passed last is seen. -/
theorem Past.current {t : Token} (h : c.Past t) (nil : c.ahead = []) : c.current.token = t := by
  rw [Cursor.current, nil]
  exact h

theorem length_next_le (c : Cursor) : c.next.ahead.length ≤ c.ahead.length := by
  obtain ⟨behind, _ | ⟨l, rest⟩⟩ := c
  · exact Nat.le_refl _
  · exact Nat.le_succ _

theorem length_next (h : c.ahead ≠ []) : c.next.ahead.length + 1 = c.ahead.length := by
  obtain ⟨behind, _ | ⟨l, rest⟩⟩ := c
  · exact absurd rfl h
  · rfl

end Cursor

/-! ## Outcomes -/

namespace Parser

open Cursor (Inside Past)

variable {α β : Type} {kept : List Lexeme} {P Q : Cursor → Prop} {n m : Nat}
  {spent : α → Nat} {total : β → Nat} {p : Parser α} {q : Parser β} {f : α → Parser β} {t : Token}

/-- The outcome of a run with `room` lexemes ahead.  What it spends counts where nothing is fed. -/
inductive Outcome (kept : List Lexeme) (room : Nat) (spent : α → Nat) :
    Except Fault (α × Cursor) → Prop where
  | ok (a : α) {c : Cursor} (inside : c.Inside kept)
      (passed : ¬Feeding kept → c.ahead.length + spent a ≤ room) : Outcome kept room spent (.ok (a, c))
  | error {fault : Fault} (reported : Reported kept fault) : Outcome kept room spent (.error fault)

/-- The outcome of a run is also that of a longer one. -/
theorem Outcome.lift {room room' : Nat} {spent' : α → Nat} {x : Except Fault (α × Cursor)}
    (h : Outcome kept room spent x)
    (more : ∀ a, ¬Feeding kept → room + spent' a ≤ room' + spent a) : Outcome kept room' spent' x := by
  cases h with
  | error reported => exact .error reported
  | ok a inside passed =>
    refine .ok a inside fun starved => ?_
    have := passed starved
    have := more a starved
    omega

/-- In the list that was kept, at a cursor of some kind and with at most `n` lexemes ahead, the parser
    has an outcome. -/
def Bears (kept : List Lexeme) (P : Cursor → Prop) (n : Nat) (spent : α → Nat) (p : Parser α) : Prop :=
  ∀ c, Inside kept c → P c → (¬Feeding kept → c.ahead.length ≤ n) →
    Outcome kept c.ahead.length spent (p c)

/-- The parser has an outcome. -/
def Copes (kept : List Lexeme) (P : Cursor → Prop) (n : Nat) (p : Parser α) : Prop :=
  Bears kept P n (fun _ => 0) p

/-- The parser passes something or fails. -/
def Pays (kept : List Lexeme) (P : Cursor → Prop) (n : Nat) (p : Parser α) : Prop :=
  Bears kept P n (fun _ => 1) p

/-! ## Sequencing -/

theorem Bears.weaken {spent' : α → Nat} (h : Bears kept P n spent p) (kind : ∀ c, Q c → P c)
    (small : ¬Feeding kept → m ≤ n) (less : ∀ a, spent' a ≤ spent a) : Bears kept Q m spent' p := by
  intro c inside here bound
  have outcome := h c inside (kind c here) fun starved => Nat.le_trans (bound starved) (small starved)
  exact outcome.lift fun _ _ => Nat.add_le_add_left (less _) _

theorem Bears.copes (h : Bears kept P n spent p) : Copes kept P n p :=
  h.weaken (fun _ h => h) (fun _ => Nat.le_refl _) fun _ => Nat.zero_le _

theorem Bears.mono (h : Bears kept P n spent p) (kind : ∀ c, Q c → P c) : Bears kept Q n spent p :=
  h.weaken kind (fun _ => Nat.le_refl _) fun _ => Nat.le_refl _

theorem Bears.within (h : Bears kept P n spent p) (small : m ≤ n) : Bears kept P m spent p :=
  h.weaken (fun _ h => h) (fun _ => small) fun _ => Nat.le_refl _

theorem Bears.pure (a : α) (free : spent a = 0) : Bears kept P n spent (Pure.pure a) :=
  fun _ inside _ _ => .ok a inside fun _ => by omega

/-- Behind a parser that has spent something there was room for it. -/
theorem Bears.bindRoom (hp : Bears kept P n spent p)
    (hf : ∀ a, (¬Feeding kept → spent a ≤ n) →
      Bears kept Anywhere (n - spent a) (fun b => total b - spent a) (f a)) :
    Bears kept P n total (p >>= f) := by
  intro c inside here bound
  have outcome := hp c inside here bound
  show Outcome kept c.ahead.length total (p c >>= fun r => f r.1 r.2)
  revert outcome
  generalize p c = x
  intro outcome
  cases outcome with
  | error reported => exact .error reported
  | @ok a d inside' passed =>
    have room : ¬Feeding kept → d.ahead.length + spent a ≤ n :=
      fun starved => Nat.le_trans (passed starved) (bound starved)
    have second := hf a (fun starved => by have := room starved; omega) d inside' trivial
      fun starved => by have := room starved; omega
    exact second.lift fun b starved => by have := passed starved; omega

theorem Bears.bind (hp : Bears kept P n spent p)
    (hf : ∀ a, Bears kept Anywhere (n - spent a) (fun b => total b - spent a) (f a)) :
    Bears kept P n total (p >>= f) :=
  hp.bindRoom fun a _ => hf a

theorem Copes.bind (hp : Copes kept P n p) (hf : ∀ a, Bears kept Anywhere n total (f a)) :
    Bears kept P n total (p >>= f) :=
  Bears.bind hp hf

/-- What passes something first passes something. -/
theorem Pays.bind (hp : Pays kept P n p) (hf : ∀ a, Copes kept Anywhere (n - 1) (f a)) :
    Pays kept P n (p >>= f) :=
  Bears.bind hp hf

/-- The answer of a parser, changed on the way out. -/
theorem Pays.map {k : α → β} (hp : Pays kept P n p) :
    Pays kept P n (p >>= fun a => Pure.pure (k a)) :=
  hp.bind fun _ => .pure _ rfl

theorem bind_of_error {p : Parser α} {f : α → Parser β} {c : Cursor} {fault : Fault}
    (h : p c = .error fault) : (p >>= f) c = .error fault := by
  show (p c >>= fun r => f r.1 r.2) = _
  rw [h]
  rfl

/-! ## Single tokens -/

theorem Bears.peek {f : Token → Parser β}
    (h : ∀ t, Bears kept (fun c => P c ∧ c.current.token = t) n total (f t)) :
    Bears kept P n total (peek >>= f) :=
  fun c inside here bound => h c.current.token c inside ⟨here, rfl⟩ bound

theorem Bears.place {f : Position → Parser β}
    (h : ∀ s, (∃ l ∈ kept, l.start = s) → Bears kept P n total (f s)) :
    Bears kept P n total (place >>= f) :=
  fun c inside here bound => h c.current.start ⟨_, inside.current_mem, rfl⟩ c inside here bound

theorem Bears.throw {fault : Fault} (located : Located (fun p => ∃ l ∈ kept, l.start = p) fault) :
    Bears kept P n spent (throw fault) :=
  fun _ _ _ _ => .error (.inl located)

theorem Bears.reject {fault : SyntaxFault} (here : ∃ l ∈ kept, l.start = fault.place) :
    Bears kept P n spent (reject fault) :=
  .throw here

theorem Bears.fail (wanted : String) : Bears kept P n spent (fail wanted) :=
  .peek fun _ => .place fun _ here => .reject here

theorem Bears.check {f : Bool → Parser β}
    (yes : Bears kept (fun c => P c ∧ c.current.token = t) n total (f true))
    (no : Bears kept P n total (f false)) : Bears kept P n total (check t >>= f) := by
  intro c inside here bound
  rw [bind_of_ok (check_apply t c)]
  by_cases h : c.current.token = t
  · rw [decide_eq_true h]
    exact yes c inside ⟨here, h⟩ bound
  · rw [decide_eq_false h]
    exact no c inside here bound

/-- Behind a known token, what follows knows which it was. -/
theorem Bears.next (h : Bears kept (Past t) n total q) {c : Cursor} (inside : c.Inside kept)
    (here : c.current.token = t) (bound : ¬Feeding kept → c.ahead.length ≤ n) :
    Outcome kept c.ahead.length total (q c.next) := by
  have shorter := c.length_next_le
  have outcome := h c.next inside.next (Cursor.past_next here)
    fun starved => Nat.le_trans shorter (bound starved)
  exact outcome.lift fun _ _ => Nat.add_le_add_right shorter _

/-- A known token is passed, if there is one to pass. -/
theorem Bears.skipping (h : Bears kept (Past t) n total q) :
    Bears kept (fun c => P c ∧ c.current.token = t) n total (advance >>= fun _ => q) :=
  fun _ inside here bound => h.next inside here.2 bound

/-- A known token is passed, and that it is there counts. -/
theorem Bears.passing (cost : Nat)
    (pays : ∀ c, Inside kept c → P c → c.current.token = t → ¬Feeding kept →
      c.next.ahead.length + cost ≤ c.ahead.length)
    (h : (¬Feeding kept → cost ≤ n) → Copes kept (Past t) (n - cost) q) :
    Bears kept (fun c => P c ∧ c.current.token = t) n (fun _ => cost) (advance >>= fun _ => q) := by
  rintro c inside ⟨before, here⟩ bound
  have paid := pays c inside before here
  have outcome := h (fun starved => by have := paid starved; have := bound starved; omega) c.next
    inside.next (Cursor.past_next here)
    fun starved => by have := paid starved; have := bound starved; omega
  exact outcome.lift fun _ starved => by have := paid starved; omega

/-- The same where every cursor has what it costs. -/
theorem Bears.costing {cost : Nat} (pays : ∀ c, P c → c.next.ahead.length + cost ≤ c.ahead.length)
    (h : Copes kept (Past t) (n - cost) q) :
    Bears kept (fun c => P c ∧ c.current.token = t) n (fun _ => cost) (advance >>= fun _ => q) :=
  .passing cost (fun c _ here _ _ => pays c here) fun _ => h

/-- A token that feeds is passed, or there is nothing to count. -/
theorem Pays.feeding (feeds : t.Feeds)
    (h : (¬Feeding kept → 1 ≤ n) → Copes kept (Past t) (n - 1) q) :
    Pays kept (fun c => P c ∧ c.current.token = t) n (advance >>= fun _ => q) :=
  .passing 1 (fun _ inside _ here starved =>
    Nat.le_of_eq (Cursor.length_next (inside.live here feeds starved))) h

theorem Bears.eat {f : Bool → Parser β} (yes : Bears kept (Past t) n total (f true))
    (no : Bears kept P n total (f false)) : Bears kept P n total (eat t >>= f) := by
  intro c inside here bound
  by_cases seen : c.current.token = t
  · have eaten : Parser.eat t c = .ok (true, c.next) := by rw [eat_apply, if_pos seen]
    rw [bind_of_ok eaten]
    exact yes.next inside seen bound
  · have left : Parser.eat t c = .ok (false, c) := by rw [eat_apply, if_neg seen]
    rw [bind_of_ok left]
    exact no c inside here bound

/-- A token that feeds is passed if it is there, or there is nothing to count. -/
theorem bears_eat (feeds : t.Feeds) : Bears kept P n Bool.toNat (eat t) := by
  have eaten : Pays kept (fun c => P c ∧ c.current.token = t) n
      (advance >>= fun _ => Pure.pure true) := .feeding feeds fun _ => .pure true rfl
  refine .check ?_ (.pure false rfl)
  exact eaten.weaken (fun _ h => h) (fun _ => Nat.le_refl _) Bool.toNat_le

theorem Bears.expect {wanted : String} (h : Bears kept (Past t) n total q) :
    Bears kept P n total (expect t wanted >>= fun _ => q) := by
  intro c inside here bound
  show Outcome kept c.ahead.length total (Parser.expect t wanted c >>= fun r => q r.2)
  by_cases seen : c.current.token = t
  · have eaten : Parser.eat t c = .ok (true, c.next) := by rw [eat_apply, if_pos seen]
    rw [Parser.expect, bind_of_ok eaten]
    exact h.next inside seen bound
  · have left : Parser.eat t c = .ok (false, c) := by rw [eat_apply, if_neg seen]
    rw [Parser.expect, bind_of_ok left]
    exact .error (.inl ⟨_, inside.current_mem, rfl⟩)

theorem pays_identifier (wanted : String) : Pays kept P n (identifier wanted) := by
  refine .peek fun t => ?_
  cases t with
  | identifier name => exact Pays.feeding (.inl ⟨name, rfl⟩) fun _ => .pure name rfl
  | _ => exact .fail wanted

theorem copes_atIdentifier : Copes kept P n atIdentifier := by
  refine .peek fun t => ?_
  cases t with
  | identifier => exact .pure true rfl
  | _ => exact .pure false rfl

/-! ## Repetition

  A step that answers `some` passes a lexeme, unless something is fed; then the limit may be reached. -/

/-- The step passes something unless it ends the repetition. -/
def Paces (kept : List Lexeme) (P : Cursor → Prop) (n : Nat) (step : Parser (Option α)) : Prop :=
  Bears kept P n (fun o => o.isSome.toNat) step

theorem Pays.step {k : α → β} (hp : Pays kept P n p) :
    Paces kept P n (p >>= fun a => Pure.pure (some (k a))) :=
  Bears.bind hp fun a => .pure (some (k a)) rfl

theorem paces_none : Paces kept P n (Pure.pure none : Parser (Option α)) := Bears.pure none rfl

theorem copes_collectWithin {step : Parser (Option α)} {limit : Nat}
    (h : Paces kept Anywhere n step) (enough : ¬Feeding kept → n < limit) :
    Copes kept Anywhere n (collectWithin step limit) := by
  -- a step that goes on leaves less ahead, so the limit drops no faster than what is ahead
  induction limit generalizing n with
  | zero =>
    have fed : Feeding kept := Classical.not_not.1 fun starved => Nat.not_lt_zero _ (enough starved)
    exact fun _ _ _ _ => .error (.inr (.inr ⟨rfl, fed⟩))
  | succ limit ih =>
    refine h.bindRoom fun o room => ?_
    cases o with
    | none => exact .pure [] rfl
    | some a =>
      have fewer : Paces kept Anywhere (n - 1) step := h.within (Nat.sub_le n 1)
      have enough' : ¬Feeding kept → n - 1 < limit := by
        intro starved
        have goes : 1 ≤ n := room starved
        have := enough starved
        omega
      exact Bears.bind (ih fewer enough') fun as => .pure (a :: as) rfl

theorem copes_collect {step : Parser (Option α)} (h : Paces kept Anywhere n step) :
    Copes kept P n (collect step) := by
  intro c inside _ bound
  have fewer : Paces kept Anywhere c.ahead.length step :=
    h.weaken (fun _ h => h) bound fun _ => Nat.le_refl _
  exact copes_collectWithin fewer (fun _ => Nat.lt_succ_self _) c inside trivial
    fun _ => Nat.le_refl _

/-- A step that goes on where it is has no end, whatever the limit. -/
theorem collectWithin_endless {step : Parser (Option α)} {c : Cursor} {a : α}
    (h : step c = .ok (some a, c)) (limit : Nat) : collectWithin step limit c = .error .endless := by
  induction limit with
  | zero => rfl
  | succ limit ih =>
    rw [collectWithin, bind_of_ok h]
    exact bind_of_error ih

variable {item : Parser α}

theorem copes_afterEach (h : Pays kept (Past t) n item) : Copes kept P n (afterEach t item) :=
  copes_collect (.eat h.step paces_none)

theorem copes_upTo (h : Pays kept Anywhere n item) : Copes kept P n (upTo t item) :=
  copes_collect (.eat paces_none h.step)

theorem pays_separated (h : Pays kept P n item) (later : Pays kept (Past t) n item) :
    Pays kept P n (separated t item) := by
  refine h.bind fun a => ?_
  exact Copes.bind (copes_afterEach (later.within (Nat.sub_le n 1))) fun as => .pure (a :: as) rfl

theorem copes_inParens {closing : String} (h : Pays kept P n item)
    (later : Pays kept (Past (.symbol .comma)) n item) : Copes kept P n (inParens item closing) := by
  refine .check (.skipping (.pure [] rfl)) ?_
  exact (pays_separated h later).copes.bind fun as => .expect (.pure as rfl)

/-- An item and the token that closes it, which the item does not begin with: past the last lexeme
    one of the two is not there. -/
theorem pays_closed {wanted : String} (live : Pays kept (·.ahead ≠ []) n item)
    (idle : Copes kept Anywhere n item)
    (refuses : ∀ c r, c.current.token = t → item c ≠ .ok r) :
    Pays kept P n (item >>= fun a => expect t wanted >>= fun _ => Pure.pure a) := by
  have closing : ∀ a m, Copes kept Anywhere m (expect t wanted >>= fun _ => (Pure.pure a : Parser α)) :=
    fun a m => .expect (.pure a rfl)
  intro c inside _ bound
  by_cases nil : c.ahead = []
  · by_cases fed : Feeding kept
    · exact (idle.bind fun a => closing a n) c inside trivial bound |>.lift fun _ h => absurd fed h
    · have outcome := idle c inside trivial bound
      cases ran : item c with
      | error fault =>
        rw [ran] at outcome
        cases outcome with
        | error reported =>
          rw [bind_of_error ran]
          exact .error reported
      | ok r =>
        obtain ⟨a, d⟩ := r
        rw [ran] at outcome
        cases outcome with
        | ok _ inside' passed =>
          have nil' : d.ahead = [] := by simpa [nil] using passed fed
          obtain rfl := inside.eq_of_nil inside' nil nil'
          have left : Parser.eat t d = .ok (false, d) := by
            rw [eat_apply, if_neg fun here => refuses d _ here ran]
          rw [bind_of_ok ran]
          show Outcome kept _ _ (expect t wanted d >>= fun r => .ok (a, r.2))
          rw [Parser.expect, bind_of_ok left]
          exact .error (.inl ⟨_, inside.current_mem, rfl⟩)
  · exact live.bind (fun a => closing a (n - 1)) c inside nil bound

/-! ## Verbatim text -/

theorem depthAfter_cases (stop : Symbol) (wanted : String) (depth : Nat) (l : Lexeme) :
    (∃ fault : SyntaxFault, fault.place = l.start
        ∧ depthAfter stop wanted depth l = .error (.syntactic fault))
      ∨ depthAfter stop wanted depth l = .ok none
      ∨ ∃ d, depthAfter stop wanted depth l = .ok (some d)
        ∧ ¬(depth = 0 ∧ l.token = .symbol stop) ∧ depthPast depth l.token = some d := by
  by_cases eof : l.token = .eof
  · exact .inl ⟨_, rfl, if_pos eof⟩
  · by_cases stops : depth = 0 ∧ l.token = .symbol stop
    · exact .inr (.inl (by rw [stops.1]; exact depthAfter_stop stops.2))
    · have goesOn : depthAfter stop wanted depth l = _ := depthAfter_eq eof stops
      cases past : depthPast depth l.token with
      | none =>
        rw [past] at goesOn
        exact .inl ⟨_, rfl, goesOn⟩
      | some d =>
        rw [past] at goesOn
        exact .inr (.inr ⟨d, goesOn, stops, rfl⟩)

/-- Verbatim text ends in the list, or what is wrong with it is reported at one of the lexemes, or the
    list ends first. -/
theorem lexemesTo_outcome (stop : Symbol) (wanted : String) (depth : Nat) {behind : Lexeme}
    {ls : List Lexeme} (inside : (Cursor.mk behind ls).Inside kept) :
    (∃ fault : SyntaxFault, (∃ l ∈ kept, l.start = fault.place)
        ∧ lexemesTo stop wanted depth behind ls = .error (.syntactic fault))
      ∨ lexemesTo stop wanted depth behind ls = .error .overrun
        ∧ Unfinished stop depth (ls.map (·.token))
      ∨ ∃ run c, lexemesTo stop wanted depth behind ls = .ok (run, c) ∧ c.Inside kept
        ∧ c.ahead.length ≤ ls.length := by
  induction ls generalizing depth behind with
  | nil =>
    rw [lexemesTo]
    rcases depthAfter_cases stop wanted depth behind with ⟨fault, place, h⟩ | h | ⟨d, h, _⟩
    · exact .inl ⟨fault, ⟨behind, inside.current_mem, place.symm⟩, by rw [h]⟩
    · exact .inr (.inr ⟨[], ⟨behind, []⟩, by rw [h], inside, Nat.le_refl _⟩)
    · exact .inr (.inl ⟨by rw [h], trivial⟩)
  | cons l rest ih =>
    rw [lexemesTo]
    rcases depthAfter_cases stop wanted depth l with ⟨fault, place, h⟩ | h | ⟨d, h, goesOn, past⟩
    · exact .inl ⟨fault, ⟨l, inside.current_mem, place.symm⟩, by rw [h]⟩
    · exact .inr (.inr ⟨[], ⟨behind, l :: rest⟩, by rw [h], inside, Nat.le_refl _⟩)
    · simp only [h]
      rcases ih d inside.next with ⟨fault, place, h⟩ | ⟨h, unfinished⟩ | ⟨run, c, h, inside', le⟩
      · exact .inl ⟨fault, place, by rw [h]; rfl⟩
      · exact .inr (.inl ⟨by rw [h]; rfl, goesOn, d, past, unfinished⟩)
      · exact .inr (.inr ⟨l :: run, c, by rw [h]; rfl, inside', Nat.le_succ_of_le le⟩)

/-- Behind the token that opens it, verbatim text is read, or the list ends in it. -/
theorem copes_verbatim {stop : Symbol} {wanted : String} (opens : OpensText t stop) :
    Copes kept (Past t) n (verbatim stop wanted) := by
  intro c inside past _
  rw [verbatim]
  rcases lexemesTo_outcome stop wanted 0 inside with
    ⟨fault, place, h⟩ | ⟨h, unfinished⟩ | ⟨run, d, h, inside', le⟩
  · rw [h]
    exact .error (.inl place)
  · rw [h]
    refine .error (.inr (.inl ⟨rfl, ?_⟩))
    obtain ⟨front, split, behind⟩ := inside.split
    -- nothing is behind the start, so the token that opens is in the list
    rcases List.eq_nil_or_concat front with rfl | ⟨front, opener, rfl⟩
    · have none : Token.eof = t := by rw [← past, behind]; rfl
      subst none
      cases opens
    · rw [List.concat_eq_append, List.getLastD_concat] at behind
      rw [List.concat_eq_append, List.append_assoc] at split
      exact ⟨front, opener, c.ahead, stop, split, by rwa [← behind, past], unfinished⟩
  · rw [h]
    dsimp only
    split
    · exact .error (.inl ⟨_, inside.current_mem, rfl⟩)
    · exact .ok _ inside' fun _ => le

/-- Behind the token that opens it, verbatim text asks for a token that is not there. -/
theorem verbatim_overrun {l : Lexeme} {stop : Symbol} {wanted : String}
    (opens : OpensText l.token stop) : verbatim stop wanted ⟨l, []⟩ = .error .overrun := by
  have goesOn : ∃ d, depthAfter stop wanted 0 l = .ok (some d) := by
    generalize ht : l.token = t at opens
    cases opens
    all_goals simp [depthAfter, ht]
  obtain ⟨d, goesOn⟩ := goesOn
  simp only [verbatim, lexemesTo, goesOn]

end Parser
end LibrarySpec
