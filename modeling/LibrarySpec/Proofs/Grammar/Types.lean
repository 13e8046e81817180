/-
  The parser of semantic types reads the grammar.

  An atom takes all the marks behind its name, and a type takes all the adjacent atoms.  So an atom
  stops in front of any token that is no mark, and a type in front of any token that is neither a
  mark nor a name (`EndsAtom`, `EndsType`).  A bracket that opens no mark is never in that place in
  the grammar, and it is left out of both.
-/
import LibrarySpec.Proofs.Grammar.Accepting
import LibrarySpec.SemanticType.Parser

namespace LibrarySpec

open Grammar LibrarySpec.Parser

namespace Grammar

/-- Tokens in front of which an atom ends. -/
def EndsAtom (t : Token) : Prop := t ≠ .symbol .star ∧ t ≠ .symbol .openBracket

/-- Tokens in front of which a type ends. -/
def EndsType (t : Token) : Prop := EndsAtom t ∧ NotName t

theorem endsAtom_identifier (name : String) : EndsAtom (.identifier name) := by
  simp [EndsAtom]

theorem endsType_symbol {s : Symbol} (h : s ≠ .star ∧ s ≠ .openBracket) :
    EndsType (.symbol s) := by
  refine ⟨⟨?_, ?_⟩, ?_⟩
  · simpa using h.1
  · simpa using h.2
  · intro name
    simp

theorem endsType_eof : EndsType .eof := ⟨⟨nofun, nofun⟩, nofun⟩

/-! ## Trees -/

theorem TypeAtom.begins {F : Token → Prop} (a : TypeAtom) (h : F (.identifier a.name)) :
    Begins F a.leaves := by
  rw [TypeAtom.leaves, TypeAtom.tokens, plain_cons]
  exact begins_token.2 h

theorem TypeNode.begins {F : Token → Prop} (t : TypeNode) (h : ∀ name, F (.identifier name)) :
    Begins F t.leaves := by
  cases t with
  | atom a => exact a.begins (h a.name)
  | adjacent a inner =>
    rw [TypeNode.leaves, TypeNode.tokens, plain_append]
    exact (a.begins (h a.name)).append _

theorem plain_flatMap {α : Type} (f : α → List Token) (items : List α) :
    plain (items.flatMap f) = items.flatMap fun a => plain (f a) :=
  List.map_flatMap

/-- The leaves of adjacent atoms. -/
theorem TypeNode.leaves_ofAtoms (a : TypeAtom) (rest : List TypeAtom) :
    (TypeNode.ofAtoms a rest).leaves = a.leaves ++ rest.flatMap TypeAtom.leaves := by
  induction rest generalizing a with
  | nil => rw [ofAtoms, List.flatMap_nil, List.append_nil]; rfl
  | cons b rest ih => rw [ofAtoms, leaves, tokens, plain_append, List.flatMap_cons, ← ih]; rfl

/-- The type of adjacent atoms. -/
theorem TypeNode.type_ofAtoms (a : TypeAtom) (rest : List TypeAtom) :
    (TypeNode.ofAtoms a rest).type = SemanticType.nest a.type (rest.map TypeAtom.type) := by
  induction rest generalizing a with
  | nil => rfl
  | cons b rest ih => rw [ofAtoms, type, ih, List.map_cons, SemanticType.nest]

/-- Every type is made of adjacent atoms. -/
theorem TypeNode.exists_ofAtoms (t : TypeNode) : ∃ a rest, t = TypeNode.ofAtoms a rest := by
  induction t with
  | atom a => exact ⟨a, [], rfl⟩
  | adjacent a inner ih =>
    obtain ⟨b, rest, rfl⟩ := ih
    exact ⟨a, b :: rest, rfl⟩

end Grammar

namespace Parser

/-- Behind a token that is not the end of the input stands the second token. -/
theorem current_next {c : Cursor} (st : Stream c.ahead) (h : c.current.token ≠ .eof) :
    c.next.current = c.second := by
  cases hc : c.ahead with
  | nil => exact absurd hc st.ne_nil
  | cons l rest =>
    rw [current_eq hc] at h
    rw [hc] at st
    cases rest with
    | nil => exact absurd rfl (st.tail_of_token h).ne_nil
    | cons m more =>
      rw [next_eq hc, current_eq rfl, Cursor.second, hc]
      rfl

theorem atIdentifier_eq_ok {b : Bool} {c c' : Cursor} (h : atIdentifier c = .ok (b, c')) :
    c' = c ∧ (b = false → NotName c.current.token) := by
  obtain ⟨t, d, ht, hd⟩ := bind_eq_ok.1 h
  cases ht
  cases hc : c.current.token with
  | identifier name =>
    rw [hc] at hd
    cases hd
    exact ⟨rfl, by simp⟩
  | _ =>
    rw [hc] at hd
    cases hd
    exact ⟨rfl, fun _ => by simp [NotName]⟩

end Parser

namespace SemanticType

/-! ## What is read -/

theorem mark_eq_some {wrap : SemanticType → SemanticType} {c c' : Cursor} (st : Stream c.ahead)
    (h : mark c = .ok (some wrap, c')) :
    ∃ m : TypeMark, True ∧ m.wrap = wrap ∧ Passed c c' (plain m.tokens) := by
  obtain ⟨b, d, hb, hd⟩ := bind_eq_ok.1 h
  cases hb
  obtain ⟨t, d, ht, hd⟩ := bind_eq_ok.1 hd
  cases ht
  split at hd
  · rename_i hbrackets
    cases hd
    simp only [Bool.and_eq_true, decide_eq_true_eq] at hbrackets
    have notEnd : c.current.token ≠ .eof := by simp [hbrackets.1]
    have first := Passed.next st hbrackets.1 (by simp)
    have closing : c.next.current.token = .symbol .closeBracket := by
      rw [current_next st notEnd]
      exact hbrackets.2
    have second := Passed.next first.stream closing (by simp)
    exact ⟨.array, trivial, rfl, first.trans second⟩
  · obtain ⟨b, e, hb, he⟩ := bind_eq_ok.1 hd
    cases b with
    | false => cases he
    | true =>
      cases he
      exact ⟨.pointer, trivial, rfl, eat_eq_true st (by simp) hb⟩

theorem mark_eq_none {c c' : Cursor} (h : mark c = .ok (none, c')) : c' = c := by
  obtain ⟨b, d, hb, hd⟩ := bind_eq_ok.1 h
  cases hb
  obtain ⟨t, d, ht, hd⟩ := bind_eq_ok.1 hd
  cases ht
  split at hd
  · cases hd
  · obtain ⟨b, e, hb, he⟩ := bind_eq_ok.1 hd
    cases b with
    | false =>
      cases he
      exact (eat_eq_false hb).1
    | true => cases he

theorem reads_atom :
    Reads atom TypeAtom.leaves TypeAtom.type (fun _ => True) := by
  intro c t c' st h
  obtain ⟨name, d, hn, hd⟩ := bind_eq_ok.1 h
  obtain ⟨wraps, e, hw, he⟩ := bind_eq_ok.1 hd
  cases he
  have first := identifier_eq_ok st hn
  obtain ⟨marks, _, rfl, rest, _⟩ := repeat_eq_ok (fun _ _ _ st h => mark_eq_some st h)
    (fun _ _ h => ⟨mark_eq_none h, trivial⟩) first.stream hw
  refine ⟨⟨name, marks⟩, trivial, ?_, ?_⟩
  · rw [TypeAtom.type, List.foldl_map]
  · have whole := first.trans rest
    rw [← plain_flatMap] at whole
    exact whole

theorem reads_type : Reads parser TypeNode.leaves TypeNode.type (fun _ => True) := by
  intro c t c' st h
  obtain ⟨a, d, ha, hd⟩ := bind_eq_ok.1 h
  obtain ⟨more, e, hm, he⟩ := bind_eq_ok.1 hd
  cases he
  obtain ⟨outer, _, rfl, first⟩ := reads_atom _ _ _ st ha
  have step : ∀ c a c', Stream c.ahead →
      (do if ← atIdentifier then return some (← atom) else return none : Parser _) c
        = .ok (some a, c') →
      ∃ b : TypeAtom, True ∧ b.type = a ∧ Passed c c' (b.leaves) := by
    intro c a c' st h
    obtain ⟨b, d, hb, hd⟩ := bind_eq_ok.1 h
    obtain ⟨rfl, _⟩ := atIdentifier_eq_ok hb
    cases b with
    | false => cases hd
    | true =>
      obtain ⟨a', e, he, hp⟩ := bind_eq_ok.1 hd
      cases hp
      exact reads_atom _ _ _ st he
  have done : ∀ c c',
      (do if ← atIdentifier then return some (← atom) else return none : Parser _) c
        = .ok (none, c') → c' = c ∧ True := by
    intro c c' h
    obtain ⟨b, d, hb, hd⟩ := bind_eq_ok.1 h
    cases b with
    | false =>
      cases hd
      exact ⟨(atIdentifier_eq_ok hb).1, trivial⟩
    | true =>
      obtain ⟨a', e, he, hp⟩ := bind_eq_ok.1 hd
      cases hp
  obtain ⟨atoms, _, rfl, rest, _⟩ := repeat_eq_ok step done first.stream hm
  refine ⟨.ofAtoms outer atoms, trivial, TypeNode.type_ofAtoms outer atoms, ?_⟩
  rw [TypeNode.leaves_ofAtoms]
  exact first.trans rest

/-! ## What is accepted -/

variable {after : List Leaf}

theorem accepts_mark (m : TypeMark) :
    Accepts mark (plain m.tokens) (some m.wrap) after := by
  cases m with
  | array =>
    refine accepts_check_true.look ?_
    refine accepts_peekSecond.look ?_
    exact (accepts_advance (by simp)).step ((accepts_advance (by simp)).step .pure)
  | pointer =>
    have notBracket : Accepts (check (.symbol .openBracket)) [] false
        (plain TypeMark.pointer.tokens ++ after) := accepts_check_false (by simp [TypeMark.tokens])
    refine notBracket.look ?_
    intro c st hs
    have stars : Accepts (do if ← eat (.symbol .star) then return some pointer else return none)
        (plain TypeMark.pointer.tokens) (some TypeMark.pointer.wrap) after :=
      (accepts_eat (by simp)).step .pure
    rw [bind_of_ok (peekSecond_apply c)]
    exact stars c st hs

theorem accepts_mark_none (h : Begins EndsAtom after) :
    Accepts mark [] (none : Option (SemanticType → SemanticType)) after := by
  have notBracket : Accepts (check (.symbol .openBracket)) [] false after :=
    accepts_check_false (h.mono fun _ ht => ht.2)
  refine notBracket.look ?_
  intro c st hs
  have stops : Accepts (do if ← eat (.symbol .star) then return some pointer else return none)
      [] (none : Option (SemanticType → SemanticType)) after :=
    (accepts_eat_false (h.mono fun _ ht => ht.1)).look .pure
  rw [bind_of_ok (peekSecond_apply c)]
  exact stops c st hs

theorem accepts_atom (a : TypeAtom) (h : Begins EndsAtom after) :
    Accepts atom a.leaves a.type after := by
  have marks : Accepts (collect mark) (a.marks.flatMap fun m => plain m.tokens)
      (a.marks.map TypeMark.wrap) after :=
    accepts_repeat (F := fun _ => True) a.marks (fun m _ _ _ => accepts_mark m)
      (fun m _ => by cases m <;> simp [TypeMark.tokens])
      (h.mono fun _ _ => trivial) (accepts_mark_none h)
  rw [← plain_flatMap] at marks
  have folded : a.type = (a.marks.map TypeMark.wrap).foldl (fun t wrap => wrap t) (.simple a.name) := by
    rw [List.foldl_map]
    rfl
  rw [folded]
  exact accepts_identifier.step marks.andReturn

theorem accepts_type (t : TypeNode) (h : Begins EndsType after) :
    Accepts parser t.leaves t.type after := by
  obtain ⟨a, rest, rfl⟩ := t.exists_ofAtoms
  rw [TypeNode.leaves_ofAtoms, TypeNode.type_ofAtoms]
  have step : ∀ b ∈ rest, ∀ more, Begins EndsAtom more →
      Accepts (do if ← atIdentifier then return some (← atom) else return none)
        (b.leaves) (some b.type) more := by
    intro b _ more hm
    have name : Accepts atIdentifier [] true (b.leaves ++ more) := accepts_atIdentifier
    refine name.look ?_
    exact (accepts_atom b hm).andReturn
  have done : Accepts (do if ← atIdentifier then return some (← atom) else return none)
      [] (none : Option SemanticType) after :=
    (accepts_atIdentifier_false (h.mono fun _ ht => ht.2)).look .pure
  have tail := accepts_repeat rest step (fun b _ => b.begins (endsAtom_identifier b.name))
    (h.mono fun _ ht => ht.1) done
  have next : Begins EndsAtom (rest.flatMap TypeAtom.leaves ++ after) := by
    cases rest with
    | nil => exact h.mono fun _ ht => ht.1
    | cons b more =>
      rw [List.flatMap_cons, List.append_assoc]
      exact (b.begins (endsAtom_identifier b.name)).append _
  exact (accepts_atom a next).bind tail.andReturn

end SemanticType
end LibrarySpec
