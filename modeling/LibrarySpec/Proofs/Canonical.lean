/-
  What the canonical text identifies.

  Two libraries that were parsed, and have no infinite number in a contract, have the same text
  exactly if they are the same: the text is parsed to the library again.

  The equality `==` is coarser than that.  It compares semantic types by structure, which makes no
  difference to types that are written, and it compares floating-point numbers as numbers, for which
  zero has two signs but one value.  The text keeps the sign.  `Library.unsigned` takes it off every
  zero, and `==` is equality of what remains.

    1. Every node of a contract is compared with its namesake by induction over the node.
    2. `beq_iff_map_eq` does the lists, and one lemma each the records: `==` holds of two records if
       it holds of their parts, and each part is the same up to signs.

  An infinity prints as a word, and then the text says less: `beq_iff_print_eq_fails` has a pair of
  libraries for either way in which `==` and the texts can differ.

  Main statement: `print_eq_iff`.
-/
import LibrarySpec.Proofs.Printing.Libraries
import LibrarySpec.Proofs.SemanticTypes

namespace LibrarySpec

/-! ## Numbers -/

/-- The number, with no sign on a zero. -/
def Binary64.unsigned (x : Binary64) : Binary64 :=
  ⟨x.negative && x.magnitude != 0, x.magnitude, x.magnitude_le⟩

/-- Floating-point numbers are equal as numbers if they are the same up to the sign of zero. -/
theorem Binary64.beq_iff {x y : Binary64} : (x == y) = true ↔ x.unsigned = y.unsigned := by
  obtain ⟨s, m, hm⟩ := x
  obtain ⟨s', m', hm'⟩ := y
  show (m == m' && (s == s' || m == 0)) = true
    ↔ (⟨s && m != 0, m, hm⟩ : Binary64) = ⟨s' && m' != 0, m', hm'⟩
  simp only [Binary64.mk.injEq]
  by_cases same : m = m'
  · subst same
    by_cases zero : m = 0
    · simp [zero]
    · have nonzero : (m != 0) = true := bne_iff_ne.2 zero
      simp [zero, nonzero]
  · simp [same]

/-- The number, with no sign on a floating-point zero. -/
def Number.unsigned : Number → Number
  | int value => int value
  | float value => float value.unsigned

theorem Number.beq_iff {n m : Number} : (n == m) = true ↔ n.unsigned = m.unsigned := by
  cases n with
  | int a =>
    cases m with
    | int b =>
      show (a == b) = true ↔ int a = int b
      simp
    | float y =>
      show false = true ↔ int a = float y.unsigned
      simp
  | float x =>
    cases m with
    | int b =>
      show false = true ↔ float x.unsigned = int b
      simp
    | float y =>
      show (x == y) = true ↔ float x.unsigned = float y.unsigned
      rw [Binary64.beq_iff, float.injEq]

/-! ## Contracts -/

mutual

/-- The contract, with no sign on a zero. -/
def Contract.unsigned : Contract → Contract
  | .all clauses => .all (Clause.unsignedList clauses)

/-- The clauses, with no sign on a zero. -/
def Clause.unsignedList : List Clause → List Clause
  | [] => []
  | c :: rest => Clause.unsigned c :: Clause.unsignedList rest

/-- The clause, with no sign on a zero. -/
def Clause.unsigned : Clause → Clause
  | .any terms inverted => .any (Term.unsignedList terms) inverted

/-- The terms, with no sign on a zero. -/
def Term.unsignedList : List Term → List Term
  | [] => []
  | t :: rest => Term.unsigned t :: Term.unsignedList rest

/-- The term, with no sign on a zero. -/
def Term.unsigned : Term → Term
  | .comparison left sign right inverted =>
    .comparison (Operand.unsigned left) sign (Operand.unsigned right) inverted
  | .lone operand inverted => .lone (Operand.unsigned operand) inverted

/-- The operand, with no sign on a zero. -/
def Operand.unsigned : Operand → Operand
  | .arithmetic value => .arithmetic (Arithmetic.unsigned value)
  | .text value => .text value
  | .group contract => .group (Contract.unsigned contract)

/-- The operands, with no sign on a zero. -/
def Operand.unsignedList : List Operand → List Operand
  | [] => []
  | o :: rest => Operand.unsigned o :: Operand.unsignedList rest

/-- The arithmetic expression, with no sign on a zero. -/
def Arithmetic.unsigned : Arithmetic → Arithmetic
  | .variableName name => .variableName name
  | .call name arguments => .call name (Operand.unsignedList arguments)
  | .number value => .number value.unsigned
  | .binary operator left right =>
    .binary operator (Arithmetic.unsigned left) (Arithmetic.unsigned right)

end

deriving instance ReflBEq, LawfulBEq for Comparison, Operator

-- by recursion on the first node; of two different constructors neither side holds
mutual

theorem Contract.same_iff : ∀ a b : Contract, a.same b = true ↔ a.unsigned = b.unsigned
  | .all as, .all bs => by simp [Contract.same, Contract.unsigned, Clause.sameList_iff as bs]

theorem Clause.sameList_iff : ∀ as bs : List Clause,
    Clause.sameList as bs = true ↔ Clause.unsignedList as = Clause.unsignedList bs
  | [], [] | [], _ :: _ | _ :: _, [] => by simp [Clause.sameList, Clause.unsignedList]
  | a :: as, b :: bs => by
    simp [Clause.sameList, Clause.unsignedList, Clause.same_iff a b, Clause.sameList_iff as bs]

theorem Clause.same_iff : ∀ a b : Clause, a.same b = true ↔ a.unsigned = b.unsigned
  | .any as _, .any bs _ => by simp [Clause.same, Clause.unsigned, Term.sameList_iff as bs]

theorem Term.sameList_iff : ∀ as bs : List Term,
    Term.sameList as bs = true ↔ Term.unsignedList as = Term.unsignedList bs
  | [], [] | [], _ :: _ | _ :: _, [] => by simp [Term.sameList, Term.unsignedList]
  | a :: as, b :: bs => by
    simp [Term.sameList, Term.unsignedList, Term.same_iff a b, Term.sameList_iff as bs]

theorem Term.same_iff : ∀ a b : Term, a.same b = true ↔ a.unsigned = b.unsigned
  | .comparison l _ r _, .comparison l' _ r' _ => by
    simp [Term.same, Term.unsigned, Operand.same_iff l l', Operand.same_iff r r',
      and_assoc]
  | .lone a _, .lone b _ => by simp [Term.same, Term.unsigned, Operand.same_iff a b]
  | .comparison .., .lone .. | .lone .., .comparison .. => by simp [Term.same, Term.unsigned]

theorem Operand.same_iff : ∀ a b : Operand, a.same b = true ↔ a.unsigned = b.unsigned
  | .arithmetic a, .arithmetic b => by
    simp [Operand.same, Operand.unsigned, Arithmetic.same_iff a b]
  | .text _, .text _ => by simp [Operand.same, Operand.unsigned]
  | .group a, .group b => by simp [Operand.same, Operand.unsigned, Contract.same_iff a b]
  | .arithmetic _, .text _ | .arithmetic _, .group _ | .text _, .arithmetic _ | .text _, .group _
  | .group _, .arithmetic _ | .group _, .text _ => by simp [Operand.same, Operand.unsigned]

theorem Operand.sameList_iff : ∀ as bs : List Operand,
    Operand.sameList as bs = true ↔ Operand.unsignedList as = Operand.unsignedList bs
  | [], [] | [], _ :: _ | _ :: _, [] => by simp [Operand.sameList, Operand.unsignedList]
  | a :: as, b :: bs => by
    simp [Operand.sameList, Operand.unsignedList, Operand.same_iff a b, Operand.sameList_iff as bs]

theorem Arithmetic.same_iff : ∀ a b : Arithmetic, a.same b = true ↔ a.unsigned = b.unsigned
  | .variableName _, b => by cases b <;> simp [Arithmetic.same, Arithmetic.unsigned]
  | .number _, b => by cases b <;> simp [Arithmetic.same, Arithmetic.unsigned, Number.beq_iff]
  | .call _ as, .call _ bs => by
    simp [Arithmetic.same, Arithmetic.unsigned, Operand.sameList_iff as bs]
  | .binary _ l r, .binary _ l' r' => by
    simp [Arithmetic.same, Arithmetic.unsigned, Arithmetic.same_iff l l',
      Arithmetic.same_iff r r', and_assoc]
  | .call .., .variableName _ | .call .., .number _ | .call .., .binary .. => by
    simp [Arithmetic.same, Arithmetic.unsigned]
  | .binary .., .variableName _ | .binary .., .number _ | .binary .., .call .. => by
    simp [Arithmetic.same, Arithmetic.unsigned]

end

/-- Contracts are equal if they are the same up to the signs of zeros. -/
theorem Contract.beq_iff {a b : Contract} : (a == b) = true ↔ a.unsigned = b.unsigned :=
  a.same_iff b

/-! ## Lists and options -/

section Lists

variable {α β : Type} [BEq α] {norm : α → β}

/-- Lists are equal if their elements are, one by one. -/
theorem beq_iff_map_eq {as bs : List α}
    (h : ∀ a ∈ as, ∀ b ∈ bs, ((a == b) = true ↔ norm a = norm b)) :
    (as == bs) = true ↔ as.map norm = bs.map norm := by
  induction as generalizing bs with
  | nil => cases bs <;> simp
  | cons a as ih =>
    cases bs with
    | nil => simp
    | cons b bs =>
      have first := h a List.mem_cons_self b List.mem_cons_self
      have rest := ih fun x hx y hy =>
        h x (List.mem_cons_of_mem a hx) y (List.mem_cons_of_mem b hy)
      rw [List.cons_beq_cons, Bool.and_eq_true, first, rest, List.map_cons, List.map_cons,
        List.cons.injEq]

/-- Lists are equal if equality of their elements is that of `=`. -/
theorem beq_iff_eq_of_forall {as bs : List α}
    (h : ∀ a ∈ as, ∀ b ∈ bs, ((a == b) = true ↔ a = b)) : (as == bs) = true ↔ as = bs := by
  have mapped : (as == bs) = true ↔ as.map id = bs.map id := beq_iff_map_eq h
  rwa [List.map_id, List.map_id] at mapped

theorem option_beq_iff {o o' : Option α}
    (h : ∀ a ∈ o, ∀ b ∈ o', ((a == b) = true ↔ norm a = norm b)) :
    (o == o') = true ↔ o.map norm = o'.map norm := by
  cases o with
  | none => cases o' <;> simp
  | some a =>
    cases o' with
    | none => simp
    | some b => simpa using h a rfl b rfl

end Lists

/-! ## Records -/

deriving instance ReflBEq, LawfulBEq for State, Shift, Action, Property, Ownership

/-- Types that are written are equal if they have the same structure. -/
theorem SemanticType.Written.beq_iff {s t : SemanticType} (hs : s.Written) (ht : t.Written) :
    (s == t) = true ↔ s = t :=
  ⟨hs.built.eq_of_beq ht.built, fun same => same ▸ BEq.rfl⟩

theorem TypeDecl.Written.beq_iff {d e : TypeDecl} (hd : d.Written) (he : e.Written) :
    (d == e) = true ↔ d = e := by
  obtain ⟨t, code⟩ := d
  obtain ⟨t', code'⟩ := e
  show (t == t' && code == code') = true ↔ _
  rw [Bool.and_eq_true, hd.type.beq_iff he.type, beq_iff_eq, mk.injEq]

theorem Converter.Written.beq_iff {c d : Converter} (hc : c.Written) (hd : d.Written) :
    (c == d) = true ↔ c = d := by
  obtain ⟨t, expression⟩ := c
  obtain ⟨t', expression'⟩ := d
  show (t == t' && expression == expression') = true ↔ _
  rw [Bool.and_eq_true, hc.type.beq_iff hd.type, beq_iff_eq, mk.injEq]

theorem Variable.beq_iff {v w : Variable} (hv : v.type.Written) (hw : w.type.Written) :
    (v == w) = true ↔ v = w := by
  obtain ⟨name, t⟩ := v
  obtain ⟨name', t'⟩ := w
  show (name == name' && t == t') = true ↔ _
  rw [Bool.and_eq_true, beq_iff_eq, hv.beq_iff hw, mk.injEq]

theorem Assignment.beq_iff {a b : Assignment} (ha : a.automaton.Written)
    (hb : b.automaton.Written) : (a == b) = true ↔ a = b := by
  obtain ⟨name, t, arguments⟩ := a
  obtain ⟨name', t', arguments'⟩ := b
  show (name == name' && (t == t' && arguments == arguments')) = true ↔ _
  rw [Bool.and_eq_true, Bool.and_eq_true, beq_iff_eq, ha.beq_iff hb, beq_iff_eq, mk.injEq]

theorem Argument.Written.beq_iff {a b : Argument} (ha : a.Written) (hb : b.Written) :
    (a == b) = true ↔ a = b := by
  obtain ⟨name, t, annotations⟩ := a
  obtain ⟨name', t', annotations'⟩ := b
  show (name == name' && (t == t' && annotations == annotations')) = true ↔ _
  rw [Bool.and_eq_true, Bool.and_eq_true, beq_iff_eq, ha.type.beq_iff hb.type, beq_iff_eq,
    mk.injEq]

theorem Result.Written.beq_iff {r s : Result} (hr : r.Written) (hs : s.Written) :
    (r == s) = true ↔ r = s := by
  obtain ⟨t, annotations⟩ := r
  obtain ⟨t', annotations'⟩ := s
  show (t == t' && annotations == annotations') = true ↔ _
  rw [Bool.and_eq_true, hr.type.beq_iff hs.type, beq_iff_eq, mk.injEq]

/-- The contracts, with no sign on a zero. -/
def Contracts.unsigned (c : Contracts) : Contracts :=
  ⟨c.requires.map Contract.unsigned, c.ensures.map Contract.unsigned⟩

theorem Contracts.beq_iff {c d : Contracts} : (c == d) = true ↔ c.unsigned = d.unsigned := by
  obtain ⟨requires, ensures⟩ := c
  obtain ⟨requires', ensures'⟩ := d
  show (requires == requires' && ensures == ensures') = true ↔ _
  rw [Bool.and_eq_true, option_beq_iff fun _ _ _ _ => Contract.beq_iff,
    option_beq_iff fun _ _ _ _ => Contract.beq_iff, unsigned, unsigned, mk.injEq]

/-! ## Functions, automata and libraries -/

namespace FunctionSpec

/-- The function, with no sign on a zero. -/
def unsigned (f : FunctionSpec) : FunctionSpec := { f with contracts := f.contracts.unsigned }

theorem Written.assignments {f : FunctionSpec} (h : f.Written) :
    ∀ a ∈ f.assignments, a.automaton.Written := by
  intro a ha
  have part : Part.assignment a ∈ f.parts := by
    exact List.mem_append_right _ (List.mem_map_of_mem ha)
  exact (h.parts _ part).2.1

/-- Written functions are equal if they are the same up to the signs of zeros. -/
theorem Written.beq_iff {f g : FunctionSpec} (hf : f.Written) (hg : g.Written) :
    (f == g) = true ↔ f.unsigned = g.unsigned := by
  have parts : (f == g) = (f.owner == g.owner && (f.ownership == g.ownership
      && (f.name == g.name && (f.arguments == g.arguments && (f.actions == g.actions
      && (f.result == g.result && (f.staticName == g.staticName && (f.properties == g.properties
      && (f.assignments == g.assignments && (f.contracts == g.contracts
      && f.builtin == g.builtin)))))))))) := by
    cases f
    cases g
    rfl
  have arguments := beq_iff_eq_of_forall fun a ha b hb =>
    (hf.arguments a ha).beq_iff (hg.arguments b hb)
  have result : (f.result == g.result) = true ↔ f.result.map id = g.result.map id :=
    option_beq_iff fun r hr s hs => (hf.result r hr).beq_iff (hg.result s hs)
  have assignments := beq_iff_eq_of_forall fun a ha b hb =>
    Assignment.beq_iff (hf.assignments a ha) (hg.assignments b hb)
  rw [Option.map_id] at result
  rw [parts, unsigned, unsigned, mk.injEq]
  simp only [Bool.and_eq_true, hf.owner_written.beq_iff hg.owner_written, arguments, result,
    assignments, Contracts.beq_iff, beq_iff_eq, id_eq]

end FunctionSpec

namespace Automaton

/-- The automaton, with no sign on a zero. -/
def unsigned (a : Automaton) : Automaton :=
  { a with functions := a.functions.map FunctionSpec.unsigned }

/-- Written automata without functions are equal if they are the same. -/
theorem Written.beq_iff {a b : Automaton} (ha : a.Written) (hb : b.Written)
    (bare : a.functions = []) (bare' : b.functions = []) :
    (a == b) = true ↔ a.unsigned = b.unsigned := by
  have parts : (a == b) = (a.type == b.type && (a.package == b.package && (a.states == b.states
      && (a.shifts == b.shifts && (a.extendable == b.extendable && (a.vars == b.vars
      && a.functions == b.functions)))))) := by
    cases a
    cases b
    rfl
  have vars := beq_iff_eq_of_forall fun v hv w hw =>
    Variable.beq_iff (ha.vars v hv).2 (hb.vars w hw).2
  rw [parts, unsigned, unsigned, mk.injEq, bare, bare']
  have none : (([] : List FunctionSpec) == []) = true := rfl
  simp only [Bool.and_eq_true, ha.type.beq_iff hb.type, vars, beq_iff_eq, List.map_nil, none]

end Automaton

namespace Library

/-- The library, with no sign on a zero. -/
def unsigned (l : Library) : Library :=
  { l with
    automata := l.automata.map Automaton.unsigned
    functions := l.functions.map FunctionSpec.unsigned }

/-- Written libraries that are what their texts say are equal if they are the same up to the signs
    of zeros. -/
theorem Written.beq_iff {l m : Library} (hl : l.Written) (hm : m.Written)
    (same : l.reparsed = l) (same' : m.reparsed = m) :
    (l == m) = true ↔ l.unsigned = m.unsigned := by
  have parts : (l == m) = (l.name == m.name && (l.imports == m.imports
      && (l.includes == m.includes && (l.automata == m.automata
      && (l.types.decls == m.types.decls && (l.converters == m.converters
      && l.functions == m.functions)))))) := by
    cases l
    cases m
    rfl
  have automata := beq_iff_map_eq fun a ha b hb => (hl.automata a ha).beq_iff (hm.automata b hb)
    (bare_of_reparsed same a ha) (bare_of_reparsed same' b hb)
  have decls := beq_iff_eq_of_forall fun d hd e he => (hl.types d hd).beq_iff (hm.types e he)
  have types : l.types.decls = m.types.decls ↔ l.types = m.types :=
    ⟨TypeTable.eq_of_decls_eq, congrArg TypeTable.decls⟩
  have converters := beq_iff_eq_of_forall fun c hc d hd =>
    (hl.converters c hc).beq_iff (hm.converters d hd)
  have functions := beq_iff_map_eq fun f hf g hg =>
    (hl.functions f hf (declared_of_reparsed same f hf)).beq_iff
      (hm.functions g hg (declared_of_reparsed same' g hg))
  rw [parts, unsigned, unsigned, mk.injEq]
  simp only [Bool.and_eq_true, automata, decls, types, converters, functions, beq_iff_eq]

/-- Libraries that were parsed have one text exactly if they are one, and are equal exactly if they
    are one up to the signs of zeros. -/
theorem print_eq_iff {source₁ source₂ : String} {l₁ l₂ : Library} (h₁ : parse source₁ = .ok l₁)
    (h₂ : parse source₂ = .ok l₂) (finite₁ : l₁.Finite) (finite₂ : l₂.Finite) :
    (l₁.print = l₂.print ↔ l₁ = l₂) ∧ ((l₁ == l₂) = true ↔ l₁.unsigned = l₂.unsigned) := by
  obtain ⟨written₁, same₁⟩ := written_of_parse h₁ finite₁
  obtain ⟨written₂, same₂⟩ := written_of_parse h₂ finite₂
  refine ⟨⟨fun text => ?_, congrArg print⟩, written₁.beq_iff written₂ same₁ same₂⟩
  -- either library is what the reader makes of its text, and the text is one
  have again := parse_print_of_written written₁
  rw [text, parse_print_of_written written₂, same₁, same₂] at again
  exact (Except.ok.inj again).symm

/-- A source in which a variable is compared with a given text. -/
def comparing (text : List Char) : List Char :=
  "library l; types \x7b\x7d A f() requires x == ".toList ++ text ++ " \x7b\x7d".toList

/-- A number of 310 digits before the point. -/
def overflowing : List Char := '1' :: List.replicate 309 '0' ++ ".0".toList

/-- Two texts are parsed to libraries that pass a test. -/
theorem exists_parsed (text text' : List Char) (test : Library → Library → Bool)
    (h : ((scanFrom .start text).toOption.any fun ls => (ofLexemes ls).toOption.any fun l =>
      (scanFrom .start text').toOption.any fun ls' => (ofLexemes ls').toOption.any (test l)) = true) :
    ∃ l l', parse (String.ofList text) = .ok l ∧ parse (String.ofList text') = .ok l'
      ∧ test l l' = true := by
  have parsed : ∀ {text : List Char} {test : Library → Bool},
      ((scanFrom .start text).toOption.any fun ls => (ofLexemes ls).toOption.any test) = true →
      ∃ l, parse (String.ofList text) = .ok l ∧ test l = true := by
    intro text test h
    obtain ⟨ls, scanned, h⟩ := (Option.any_eq_true _ _).1 h
    obtain ⟨l, found, h⟩ := (Option.any_eq_true _ _).1 h
    refine ⟨l, ?_, h⟩
    have scanned : scan (String.ofList text) = .ok ls := by
      rw [scan, String.toList_ofList]
      exact eq_ok_of_toOption scanned
    rw [parse_of_scan scanned]
    exact eq_ok_of_toOption found
  obtain ⟨l, hl, h⟩ := parsed h
  obtain ⟨l', hl', h⟩ := parsed h
  exact ⟨l, l', hl, hl', h⟩

theorem print_eq_iff_zeros :
    ∃ l₁ l₂, parse (String.ofList (comparing "0.0".toList)) = .ok l₁
      ∧ parse (String.ofList (comparing "-0.0".toList)) = .ok l₂ ∧ l₁.Finite ∧ l₂.Finite
      ∧ (l₁.print = l₂.print ↔ l₁ = l₂) ∧ ((l₁ == l₂) = true ↔ l₁.unsigned = l₂.unsigned) := by
  obtain ⟨l, l', h, h', test⟩ := exists_parsed (comparing "0.0".toList)
    (comparing "-0.0".toList) (fun l l' => decide (l.Finite ∧ l'.Finite)) (by decide +kernel)
  obtain ⟨finite, finite'⟩ := of_decide_eq_true test
  exact ⟨l, l', h, h', finite, finite', print_eq_iff h h' finite finite'⟩

/-- Zeros of different signs are equal and print differently; an infinite number and a variable are
    different and print alike. -/
theorem beq_iff_print_eq_fails :
    (∃ l₁ l₂, parse (String.ofList (comparing "0.0".toList)) = .ok l₁
      ∧ parse (String.ofList (comparing "-0.0".toList)) = .ok l₂
      ∧ (l₁ == l₂) = true ∧ l₁.print ≠ l₂.print)
    ∧ ∃ l₁ l₂, parse (String.ofList (comparing overflowing)) = .ok l₁
      ∧ parse (String.ofList (comparing "inf".toList)) = .ok l₂
      ∧ (l₁ == l₂) = false ∧ l₁.print = l₂.print := by
  constructor
  · obtain ⟨l, l', h, h', test⟩ := exists_parsed (comparing "0.0".toList)
      (comparing "-0.0".toList) (fun l l' => l == l' && l.print != l'.print) (by decide +kernel)
    obtain ⟨same, different⟩ := Bool.and_eq_true_iff.1 test
    exact ⟨l, l', h, h', same, bne_iff_ne.1 different⟩
  · obtain ⟨l, l', h, h', test⟩ := exists_parsed (comparing overflowing)
      (comparing "inf".toList) (fun l l' => !(l == l') && l.print == l'.print) (by decide +kernel)
    obtain ⟨different, same⟩ := Bool.and_eq_true_iff.1 test
    rw [Bool.not_eq_true'] at different
    exact ⟨l, l', h, h', different, eq_of_beq same⟩

end Library
end LibrarySpec
