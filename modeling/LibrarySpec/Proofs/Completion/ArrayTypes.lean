/-
  Declaring array types.

  The pass takes the array types of arguments in the order in which they are first mentioned.  The
  code type of an array is made from that of its item, which is looked up in the table as it stands
  at that moment, with the arrays before it added.  So an array of arrays is declared if the inner
  array was declared or comes first, and it makes the pass fail if the inner array comes later.

    1. `Ready`: every item of an array that is not declared is declared or comes before it.  A step
       takes the first array off (`ready_cons`), and so the pass succeeds where the arrays of arguments
       are ready, and nowhere else (`exists_declareArrayTypes_iff`).
    2. `TypeTable.convertedCode?` is the code type that a type can have, read off the table that the
       library began with.  `Converted` says that every declaration has the code type that it can
       have; one step keeps this, and so does the pass.
    3. In another order of functions and arguments the same array types are wanted.  Where the pass
       succeeds in both orders it declares the same types, and by 2 with the same code types.

  Main statements: `declareArrayTypes_shuffled`, and `run_arrays_behind_rules`, by which the pass has
  nothing left to do where rules have declared the types of signatures.
-/
import LibrarySpec.Proofs.Completion.Additions
import LibrarySpec.Proofs.Completion.Order
import LibrarySpec.Proofs.Printing.Libraries

namespace LibrarySpec

open Grammar

namespace TypeTable

variable {table : TypeTable} {t u : SemanticType}

/-- The code type that a type can have: that of its declaration, or else what a conversion makes of
    the code type of its inner type. -/
def convertedCode? (table : TypeTable) (convert : String → String) : SemanticType → Option String
  | .simple name => (table.get? (.simple name)).map (·.codeType)
  | .complex display enclosing inner =>
    match table.get? (.complex display enclosing inner) with
    | some d => some d.codeType
    | none => (convertedCode? table convert inner).map convert

theorem convertedCode?_of_get? {convert : String → String} {d : TypeDecl}
    (h : table.get? t = some d) : table.convertedCode? convert t = some d.codeType := by
  cases t with
  | simple => rw [convertedCode?, h, Option.map_some]
  | complex => rw [convertedCode?, h]

theorem convertedCode?_of_inner {convert : String → String} (none : table.contains t = false)
    (inner : t.inner? = some u) :
    table.convertedCode? convert t = (table.convertedCode? convert u).map convert := by
  cases t with
  | simple => cases inner
  | complex display enclosing inner =>
    cases inner
    rw [convertedCode?, get?_of_not_contains none]

end TypeTable

namespace Library

/-! ## Items first -/

variable {convert : String → String} {l l' : Library} {t item : SemanticType}

/-- A type of this structure comes before another type. -/
def Before (types : List SemanticType) (u t : SemanticType) : Prop :=
  ∃ v, (v == u) = true ∧ [v, t].Sublist types

theorem before_cons {first : SemanticType} {types : List SemanticType} {u : SemanticType} :
    Before (first :: types) u t ↔ (first == u) = true ∧ t ∈ types ∨ Before types u t := by
  simp only [Before, List.cons_sublist_cons', List.singleton_sublist]
  constructor
  · rintro ⟨v, same, later | ⟨rfl, mem⟩⟩
    · exact .inr ⟨v, same, later⟩
    · exact .inl ⟨same, mem⟩
  · rintro (⟨same, mem⟩ | ⟨v, same, later⟩)
    · exact ⟨first, same, .inr ⟨rfl, mem⟩⟩
    · exact ⟨v, same, .inl later⟩

/-- Every item of a type of the list is declared or comes before it, unless the type is declared
    itself. -/
def Ready (declared : SemanticType → Bool) (types : List SemanticType) : Prop :=
  ∀ t ∈ types, declared t = false → ∀ item, t.inner? = some item →
    declared item = true ∨ Before types item t

/-- The first type has nothing before it, and behind it one more type is declared. -/
theorem ready_cons {declared : SemanticType → Bool} {types : List SemanticType}
    (inner : t.inner? = some item) (apart : ∀ u ∈ types, (t == u) = false) :
    Ready declared (t :: types) ↔ (declared t = true ∨ declared item = true)
      ∧ Ready (fun u => declared u || t == u) types := by
  have once : t ∉ types := by
    intro again
    have different := apart t again
    rw [BEq.rfl] at different
    cases different
  have nothing : ¬Before (t :: types) item t := by
    intro before
    rcases before_cons.1 before with ⟨_, mem⟩ | ⟨_, _, sub⟩
    · exact once mem
    · exact once (sub.subset (by simp))
  have first : (declared t = false → ∀ i, t.inner? = some i →
      declared i = true ∨ Before (t :: types) i t) ↔ declared t = true ∨ declared item = true := by
    cases declared t with
    | true => simp
    | false => simp [inner, nothing]
  refine List.forall_mem_cons.trans (and_congr first (forall₂_congr fun u hu => ?_))
  simp only [before_cons, Bool.or_eq_false_iff, Bool.or_eq_true, apart u hu, hu, and_true, or_assoc]

/-- The array types of arguments are ready to be declared in the order in which they are listed. -/
def ItemsFirst (l : Library) : Prop := Ready l.types.contains l.argumentArrays

/-- An array type is declared or passed over exactly if it or its item is declared. -/
theorem exists_declareArray (convert : String → String) (inner : t.inner? = some item) :
    (∃ l', declareArray convert l t = .ok l')
      ↔ l.types.contains t = true ∨ l.types.contains item = true := by
  constructor
  · rintro ⟨l', ok⟩
    rcases (declareArray_eq_ok inner).1 ok with ⟨declared, _⟩ | ⟨_, d, found, _⟩
    · exact .inl declared
    · exact .inr (TypeTable.exists_get?.1 ⟨d, found⟩)
  · intro ready
    cases declared : l.types.contains t with
    | true => exact ⟨l, (declareArray_eq_ok inner).2 (.inl ⟨declared, rfl⟩)⟩
    | false =>
      rw [declared] at ready
      obtain ⟨d, found⟩ := TypeTable.exists_get?.2 (ready.resolve_left Bool.false_ne_true)
      exact ⟨_, (declareArray_eq_ok inner).2 (.inr ⟨declared, d, found, rfl⟩)⟩

/-- Arrays that are all different are declared exactly if they are ready. -/
theorem exists_foldlM_declareArray {types : List SemanticType}
    (arrays : ∀ t ∈ types, t.isArray = true)
    (distinct : types.Pairwise fun t u => (t == u) = false) :
    (∃ l', types.foldlM (declareArray convert) l = .ok l') ↔ Ready l.types.contains types := by
  induction types generalizing l with
  | nil => exact iff_of_true ⟨l, rfl⟩ (List.forall_mem_nil _)
  | cons t types ih =>
    obtain ⟨array, arrays⟩ := List.forall_mem_cons.1 arrays
    obtain ⟨apart, distinct⟩ := List.pairwise_cons.1 distinct
    obtain ⟨item, inner⟩ := inner?_of_isArray array
    -- a step goes through exactly if the first type is ready, and one more type is declared then
    simp only [foldlM_cons_eq_ok, ready_cons inner apart,
      ← exists_declareArray convert inner]
    constructor
    · rintro ⟨l', next, step, done⟩
      refine ⟨⟨next, step⟩, ?_⟩
      rw [← funext (contains_of_declareArray inner step)]
      exact (ih arrays distinct).1 ⟨l', done⟩
    · rintro ⟨⟨next, step⟩, ready⟩
      rw [← funext (contains_of_declareArray inner step)] at ready
      obtain ⟨l', done⟩ := (ih arrays distinct).2 ready
      exact ⟨l', next, step, done⟩

/-- The array types are declared exactly if items come first. -/
theorem exists_declareArrayTypes_iff :
    (∃ l', l.declareArrayTypes convert = .ok l') ↔ l.ItemsFirst :=
  exists_foldlM_declareArray isArray_of_mem_argumentArrays argumentArrays_distinct

/-! ## Code types -/

/-- What was declared in the table is declared in the library, and what is declared in the library
    has the code type that it can have by the table. -/
structure Converted (table : TypeTable) (convert : String → String) (l : Library) : Prop where
  kept : ∀ t, table.contains t = true → l.types.contains t = true
  codes : ∀ t d, l.types.get? t = some d → table.convertedCode? convert t = some d.codeType

/-- A library has the code types that its own table gives. -/
theorem Converted.refl (l : Library) : Converted l.types convert l where
  kept := fun _ declared => declared
  codes := fun _ _ found => TypeTable.convertedCode?_of_get? found

/-- A type of the structure of one with an inner type has an inner type of the same structure. -/
theorem exists_inner {u : SemanticType} (same : (t == u) = true) (inner : t.inner? = some item) :
    ∃ v, u.inner? = some v ∧ (item == v) = true := by
  cases t with
  | simple => cases inner
  | complex =>
    cases u with
    | simple => cases same
    | complex _ _ v =>
      cases inner
      exact ⟨v, rfl, (SemanticType.complex_beq_iff.1 same).2⟩

/-- One step keeps the code types. -/
theorem Converted.declareArray {table : TypeTable} (h : Converted table convert l)
    (ok : declareArray convert l t = .ok l') : Converted table convert l' := by
  cases inner : t.inner? with
  | none =>
    rw [Library.declareArray, inner] at ok
    cases ok
    exact h
  | some item =>
    rcases (declareArray_eq_ok inner).1 ok with ⟨_, rfl⟩ | ⟨_, d, found, rfl⟩
    · exact h
    · refine ⟨fun u hu => ?_, fun u e hu => ?_⟩
      · rw [contains_of_declareArray inner ok, h.kept u hu, Bool.true_or]
      · rw [declare, TypeTable.get?_push] at hu
        cases known : l.types.get? u with
        | some e' =>
          rw [known] at hu
          cases hu
          exact h.codes u e known
        | none =>
          rw [known, Option.none_or] at hu
          -- the type is declared by this step, so its code type is made from its own item
          obtain ⟨same, new⟩ := Option.ite_none_right_eq_some.1 hu
          cases new
          obtain ⟨v, innerU, sameItem⟩ := exists_inner same inner
          have undeclared : table.contains u = false := by
            cases declared : table.contains u with
            | false => rfl
            | true =>
              obtain ⟨e, he⟩ := TypeTable.exists_get?.2 (h.kept u declared)
              rw [known] at he
              cases he
          rw [TypeTable.get?_congr sameItem] at found
          rw [TypeTable.convertedCode?_of_inner undeclared innerU, h.codes v d found,
            Option.map_some]

/-- The pass keeps the code types. -/
theorem Converted.foldlM {table : TypeTable} {types : List SemanticType}
    (h : Converted table convert l)
    (ok : types.foldlM (Library.declareArray convert) l = .ok l') : Converted table convert l' := by
  induction types generalizing l with
  | nil =>
    cases ok
    exact h
  | cons t types ih =>
    obtain ⟨_, step, ok⟩ := foldlM_cons_eq_ok.1 ok
    exact ih (h.declareArray step) ok

/-- Libraries that declare the same types by conversion give them the same code types. -/
theorem Converted.code_eq {m : Library} {table : TypeTable} (h : Converted table convert l)
    (h' : Converted table convert m) (same : l.types.contains t = m.types.contains t) :
    (l.types.get? t).map (·.codeType) = (m.types.get? t).map (·.codeType) := by
  cases declared : l.types.contains t with
  | false =>
    rw [declared] at same
    rw [TypeTable.get?_of_not_contains declared, TypeTable.get?_of_not_contains same.symm]
  | true =>
    rw [declared] at same
    obtain ⟨d, found⟩ := TypeTable.exists_get?.2 declared
    obtain ⟨e, found'⟩ := TypeTable.exists_get?.2 same.symm
    have code := h.codes t d found
    rw [h'.codes t e found'] at code
    rw [found, found', Option.map_some, Option.map_some]
    exact code.symm

/-! ## Other orders -/

/-- The types of arguments are built. -/
def ArgumentsBuilt (l : Library) : Prop := ∀ f ∈ l.functions, ∀ x ∈ f.arguments, x.type.Built

variable {m : Library}

theorem Shuffled.mem_arguments (h : l.Shuffled m) :
    t ∈ l.functions.flatMap (fun f => f.arguments.map (·.type))
      ↔ t ∈ m.functions.flatMap fun f => f.arguments.map (·.type) := by
  cases h with
  | intro order owned =>
    refine order.mem_flatMap fun f g shuffled => ?_
    cases shuffled with
    | intro order => exact (order.map Argument.type).mem_iff

/-- The array types of arguments are the same up to their order. -/
theorem argumentArrays_shuffled (built : l.ArgumentsBuilt) (shuffled : l.Shuffled m) :
    l.argumentArrays.Perm m.argumentArrays := by
  have argument : ∀ t ∈ l.functions.flatMap (fun f => f.arguments.map (·.type)), t.Built := by
    intro t ht
    obtain ⟨f, hf, ht⟩ := List.mem_flatMap.1 ht
    obtain ⟨x, hx, rfl⟩ := List.mem_map.1 ht
    exact built f hf x hx
  rw [argumentArrays, argumentArrays, arrays_eq, arrays_eq]
  refine (fresh_firstsBy _).perm (fresh_firstsBy _) (fun t => ?_) fun t ht u hu => ?_
  · rw [List.mem_filter, List.mem_filter, shuffled.mem_arguments]
  · exact (argument t (List.mem_filter.1 ht).1).eq_of_beq (argument u (List.mem_filter.1 hu).1)

/-- The arguments of a library that was parsed have built types. -/
theorem argumentsBuilt_of_parse {source : String} (h : parse source = .ok l) :
    l.ArgumentsBuilt := by
  obtain ⟨s, rfl, _, legible⟩ := exists_of_parse h
  simp only [Specification.leaves, List.cons_append, List.append_assoc, legibleLeaves_cons,
    legibleLeaves_append] at legible
  obtain ⟨_, _, _, _, _, _, _, _, _, _, _, functions, _⟩ := legible
  intro f hf x hx
  obtain ⟨n, hn, rfl⟩ := List.mem_map.1 hf
  obtain ⟨a, ha, rfl⟩ := List.mem_map.1 hx
  have leaves := functions.of_flatMap hn
  simp only [FunctionNode.leaves, List.cons_append, List.append_assoc, legibleLeaves_cons,
    legibleLeaves_append] at leaves
  obtain ⟨_, _, _, arguments, _⟩ := leaves
  have argument := arguments.of_separate ha
  simp only [ArgumentNode.leaves, legibleLeaves_append, legibleLeaves_cons] at argument
  exact TypeNode.built argument.2.2.2

/-- Where neither an array type nor its item is declared, the item comes before it in both libraries
    or in none of them. -/
def SameNesting (l m : Library) : Prop :=
  ∀ t item, t.inner? = some item → l.types.contains t = false → l.types.contains item = false →
    (Before l.argumentArrays item t ↔ Before m.argumentArrays item t)

theorem ItemsFirst.of_sameNesting (items : l.ItemsFirst)
    (types : m.types = l.types) (arrays : ∀ t, t ∈ m.argumentArrays → t ∈ l.argumentArrays)
    (nesting : SameNesting l m) : m.ItemsFirst := by
  intro t ht undeclared item inner
  rw [types] at undeclared ⊢
  cases declared : l.types.contains item with
  | true => exact .inl rfl
  | false =>
    have before := (items t (arrays t ht) undeclared item inner).resolve_left (by simp [declared])
    exact .inr ((nesting t item inner undeclared declared).1 before)

/-- The array types of a library that was parsed are declared exactly if items come first, and so they
    are in another order of functions and arguments.  Orders in which the same items come before their
    arrays succeed together.  Wherever two orders succeed, the same types are declared, and each is
    looked up with the same code type. -/
theorem declareArrayTypes_shuffled {source : String} (convert : String → String)
    (parsed : parse source = .ok l) (shuffled : l.Shuffled m) :
    (((∃ l', l.declareArrayTypes convert = .ok l') ↔ l.ItemsFirst)
        ∧ ((∃ m', m.declareArrayTypes convert = .ok m') ↔ m.ItemsFirst))
      ∧ (SameNesting l m → ((∃ l', l.declareArrayTypes convert = .ok l')
        ↔ ∃ m', m.declareArrayTypes convert = .ok m'))
      ∧ ∀ l' m', l.declareArrayTypes convert = .ok l' → m.declareArrayTypes convert = .ok m' →
        (l'.types.decls.map (·.semanticType)).Perm (m'.types.decls.map (·.semanticType))
          ∧ ∀ t, (l'.types.get? t).map (·.codeType) = (m'.types.get? t).map (·.codeType) := by
  have arrays := argumentArrays_shuffled (argumentsBuilt_of_parse parsed) shuffled
  have types : m.types = l.types := by
    cases shuffled
    rfl
  refine ⟨⟨exists_declareArrayTypes_iff, exists_declareArrayTypes_iff⟩, fun nesting => ?_,
    fun l' m' hl hm => ?_⟩
  · rw [exists_declareArrayTypes_iff, exists_declareArrayTypes_iff]
    constructor
    · exact fun items => items.of_sameNesting types (fun t => arrays.mem_iff.2) nesting
    · refine fun items => items.of_sameNesting types.symm (fun t => arrays.mem_iff.1) ?_
      intro t item inner undeclared undeclaredItem
      rw [types] at undeclared undeclaredItem
      exact (nesting t item inner undeclared undeclaredItem).symm
  · have converted := (Converted.refl l).foldlM hl
    have converted' := (Converted.refl m).foldlM hm
    rw [types] at converted'
    obtain ⟨decls, keys, rfl⟩ := declareArrayTypes_eq_ok hl
    obtain ⟨decls', keys', rfl⟩ := declareArrayTypes_eq_ok hm
    have same : ((l.types.extend decls).decls.map (·.semanticType)).Perm
        ((m.types.extend decls').decls.map (·.semanticType)) := by
      rw [TypeTable.decls_extend, TypeTable.decls_extend, List.map_append, List.map_append, keys,
        keys', types]
      exact (arrays.filter _).append_left _
    refine ⟨same, fun t => converted.code_eq converted' ?_⟩
    rw [Completion.contains_eq_any_map, Completion.contains_eq_any_map]
    exact same.any_eq

/-- A source in which an array of arrays is mentioned behind the inner array. -/
def rowsSource : String :=
  "library l;types\x7bByte(u8);\x7dautomaton A\x7b\x7d"
    ++ "A f(row:Byte[],name:Byte*)\x7b\x7dA g(rows:Byte[][])\x7b\x7d"

/-- The arguments of each function in the reverse order. -/
def reversedArguments (l : Library) : Library :=
  { l with functions := l.functions.map fun f => { f with arguments := f.arguments.reverse } }

theorem shuffled_reversedArguments (l : Library) : l.Shuffled l.reversedArguments := by
  refine .of_functions l ⟨_, .refl _, ?_⟩
  rw [List.forall₂_map_right_iff, List.forall₂_same]
  exact fun f _ => .intro f.arguments.reverse_perm.symm

/-- Two orders of arguments in which the same types are declared. -/
theorem declareArrayTypes_shuffled_rows :
    ∃ l l' m', parse rowsSource = .ok l ∧ l.Shuffled l.reversedArguments
      ∧ l.declareArrayTypes (Template.fill "\x7b\x7d[]") = .ok l'
      ∧ l.reversedArguments.declareArrayTypes (Template.fill "\x7b\x7d[]") = .ok m'
      ∧ l'.types.decls.map (·.codeType) = ["u8", "u8[]", "u8[][]"]
      ∧ ∀ t, (l'.types.get? t).map (·.codeType) = (m'.types.get? t).map (·.codeType) := by
  have checked : ((parse rowsSource).toOption.any fun l =>
      ((l.declareArrayTypes (Template.fill "\x7b\x7d[]")).toOption.any fun l' =>
          decide (l'.types.decls.map (·.codeType) = ["u8", "u8[]", "u8[][]"]))
        && (l.reversedArguments.declareArrayTypes (Template.fill "\x7b\x7d[]")).toOption.any
          fun _ => true) = true := by
    decide +kernel
  obtain ⟨l, parsed, checked⟩ := exists_ok_of_any checked
  obtain ⟨checked, checked'⟩ := Bool.and_eq_true_iff.1 checked
  obtain ⟨l', hl, codes⟩ := exists_ok_of_any checked
  obtain ⟨m', hm, _⟩ := exists_ok_of_any checked'
  have shuffled := shuffled_reversedArguments l
  exact ⟨l, l', m', parsed, shuffled, hl, hm, of_decide_eq_true codes,
    ((declareArrayTypes_shuffled _ parsed shuffled).2.2 l' m' hl hm).2⟩

/-- With its functions in the reverse order, a library whose array types can be declared has an array
    of arrays in front of the inner array, and then they cannot be. -/
theorem declareArrayTypes_shuffled_fails :
    ∃ l, parse rowsSource = .ok l ∧ l.Shuffled { l with functions := l.functions.reverse }
      ∧ (∃ l', l.declareArrayTypes (Template.fill "\x7b\x7d[]") = .ok l')
      ∧ ¬∃ m', Library.declareArrayTypes { l with functions := l.functions.reverse }
        (Template.fill "\x7b\x7d[]") = .ok m' := by
  have checked : ((parse rowsSource).toOption.any fun l =>
      ((l.declareArrayTypes (Template.fill "\x7b\x7d[]")).toOption.any fun _ => true)
        && (Library.declareArrayTypes { l with functions := l.functions.reverse }
          (Template.fill "\x7b\x7d[]")).toOption.isNone) = true := by
    decide +kernel
  obtain ⟨l, parsed, checked⟩ := exists_ok_of_any checked
  obtain ⟨checked, none⟩ := Bool.and_eq_true_iff.1 checked
  obtain ⟨l', hl, _⟩ := exists_ok_of_any checked
  refine ⟨l, parsed, ?_, ⟨l', hl⟩, ?_⟩
  · exact .of_functions l ⟨_, l.functions.reverse_perm.symm, List.forall₂_same.2
      fun f _ => .intro (.refl _)⟩
  · rintro ⟨m', hm⟩
    rw [hm] at none
    cases none

end Library

/-! ## Behind rules -/

namespace Library

variable {l l' : Library} {rules : Rules} {t item : SemanticType}

/-- Rules declare every composite type of a signature. -/
theorem complexDeclared_of_declareComplexTypes (h : l.declareComplexTypes rules = .ok l') :
    l'.ComplexDeclared := by
  -- the step of completion for these rules is the pass
  have step : (⟨some rules, none⟩ : Completion).declareComplexTypes l = .ok l' := h
  obtain ⟨decls, fresh, bare, _, rfl⟩ := Completion.declareComplexTypes_eq_ok step
  intro f hf t ht complex
  have wanted : t ∈ (⟨some rules, none⟩ : Completion).wantedComplex l :=
    Completion.mem_wantedComplex.2 ⟨Option.some_ne_none rules, ⟨f, hf, ht⟩, complex⟩
  obtain ⟨u, hu, same⟩ := fresh.complete t wanted
  rw [Completion.contains_eq_any_map, TypeTable.decls_extend, List.map_append]
  exact List.any_eq_true.2 ⟨u, hu, same⟩

/-- Where the composite types of signatures are declared, so are the array types of arguments. -/
theorem ComplexDeclared.arraysDeclared (h : l.ComplexDeclared) : l.ArraysDeclared := by
  refine arraysDeclared_iff.2 fun f hf x hx array => ?_
  exact h f hf x.type (List.mem_append_left _ (List.mem_map_of_mem hx))
    (Additions.Sound.isComplex_of_isArray array)

/-- A type of the structure of an array is an array, however it is displayed. -/
theorem isArray_of_beq_array (h : (t == .array item) = true) : t.isArray = true := by
  cases t with
  | simple => cases h
  | complex display enclosing inner =>
    have outside := (SemanticType.complex_beq_iff.1 h).1
    rw [SemanticType.beq_simple, decide_eq_true_iff] at outside
    rw [outside]
    rfl

/-- An array is not rendered by rules without one for arrays. -/
theorem not_render_of_isArray {table : TypeTable} (array : t.isArray = true)
    (none : rules.rule? SemanticType.arrayName = none) : ¬∃ code, rules.render table t = .ok code := by
  cases t with
  | simple => cases array
  | complex display enclosing inner =>
    have name : enclosing.name = SemanticType.arrayName :=
      Option.some.inj (beq_iff_eq.1 array)
    rintro ⟨code, rendered⟩
    rw [Rules.render_complex, name, none] at rendered
    cases rendered

/-- Rules without one for arrays do not declare a signature with a type that is not declared, if all
    types of its structure in signatures are arrays. -/
theorem not_declareComplexTypes {f : FunctionSpec} (hf : f ∈ l.functions) (ht : t ∈ f.signature)
    (undeclared : l.types.contains t = false) (none : rules.rule? SemanticType.arrayName = none)
    (arrays : ∀ g ∈ l.functions, ∀ u ∈ g.signature, (u == t) = true → u.isArray = true) :
    ¬∃ l', l.declareComplexTypes rules = .ok l' := by
  rw [exists_declareComplexTypes_iff]
  intro rendered
  have complex : t.isComplex = true :=
    Additions.Sound.isComplex_of_isArray (arrays f hf t ht BEq.rfl)
  have wanted : t ∈ (l.functions.flatMap (·.signature)).filter
      fun t => t.isComplex && !l.types.contains t := by
    refine List.mem_filter.2 ⟨List.mem_flatMap.2 ⟨f, hf, ht⟩, ?_⟩
    rw [complex, undeclared]
    rfl
  -- the type that is listed for this one may be another of its structure
  obtain ⟨u, hu, same⟩ := (fresh_firstsBy _).complete t wanted
  obtain ⟨g, hg, mentioned⟩ := List.mem_flatMap.1 (mem_signatures_of_mem_undeclaredTypes hu)
  exact not_render_of_isArray (arrays g hg u mentioned same) none (rendered u hu)

end Library

namespace Completion

open Library

/-- With rules, a run is the declaration of composite types and the passes that cannot fail. -/
theorem run_of_rules (l : Library) (rules : Rules) (conversion : Option (String → String)) :
    run ⟨some rules, conversion⟩ l = (l.associate.declareComplexTypes rules).map
      fun declared => declared.addHandlers.addDefaultStates.addMissingAutomata := by
  show (l.associate.declareComplexTypes rules >>= fun declared =>
    declareArrayTypes ⟨some rules, conversion⟩ declared >>= fun declared =>
      pure declared.addHandlers.addDefaultStates.addMissingAutomata) = _
  cases step : l.associate.declareComplexTypes rules with
  | error fault => rfl
  | ok declared =>
    have arrays : declareArrayTypes ⟨some rules, conversion⟩ declared = .ok declared := by
      cases conversion with
      | none => rfl
      | some convert =>
        exact declareArrayTypes_eq_self convert
          (complexDeclared_of_declareComplexTypes step).arraysDeclared
    show (declareArrayTypes ⟨some rules, conversion⟩ declared >>= fun declared =>
      pure declared.addHandlers.addDefaultStates.addMissingAutomata) = _
    rw [arrays]
    rfl

/-- Where there are rules, a conversion for arrays makes no difference to a run.  An array type of an
    argument that is neither declared nor has a rule makes the run fail, whatever the conversion.  So
    does a type that only its display makes an array, unless a signature has a type of the same
    structure that is displayed as none. -/
theorem run_arrays_behind_rules (l : Library) (rules : Rules) (convert : String → String) :
    run ⟨some rules, some convert⟩ l = run ⟨some rules, none⟩ l
      ∧ ∀ f ∈ l.functions, ∀ x ∈ f.arguments, l.types.contains x.type = false →
        rules.rule? SemanticType.arrayName = none →
        (∀ item, (x.type == .array item) = true →
          ∃ fault, run ⟨some rules, some convert⟩ l = .error fault)
        ∧ (x.type.isArray = true → (∃ fault, run ⟨some rules, some convert⟩ l = .error fault)
          ∨ ∃ g ∈ l.functions, ∃ t ∈ g.signature, (t == x.type) = true ∧ t.isArray = false) := by
  refine ⟨by rw [run_of_rules, run_of_rules], ?_⟩
  intro f hf x hx undeclared none
  have failed (arrays : ∀ g ∈ l.functions, ∀ t ∈ g.signature, (t == x.type) = true →
      t.isArray = true) : ∃ fault, run ⟨some rules, some convert⟩ l = .error fault := by
    have stuck : ¬∃ l', l.associate.declareComplexTypes rules = .ok l' :=
      not_declareComplexTypes hf (List.mem_append_left _ (List.mem_map_of_mem hx)) undeclared
        none arrays
    rw [run_of_rules]
    cases step : l.associate.declareComplexTypes rules with
    | error fault => exact ⟨fault, rfl⟩
    | ok l' => exact absurd ⟨l', step⟩ stuck
  constructor
  · intro item array
    exact failed fun g hg t ht same => isArray_of_beq_array (BEq.trans same array)
  · intro _
    by_cases arrays : ∀ g ∈ l.functions, ∀ t ∈ g.signature, (t == x.type) = true → t.isArray = true
    · exact .inl (failed arrays)
    · push Not at arrays
      obtain ⟨g, hg, t, ht, same, other⟩ := arrays
      exact .inr ⟨g, hg, t, ht, same, eq_false_of_ne_true other⟩

/-- A conversion declares the array if there are no rules, and cannot declare it beside rules. -/
theorem run_arrays_behind_rules_row :
    let l := buffers [("fill", [row])]
    let rules := Rules.ofList [("*", "\x7b\x7d*")]
    (row.type == .array (.simple "Byte")) = true ∧ l.types.contains row.type = false
      ∧ rules.rule? SemanticType.arrayName = none
      ∧ (∃ fault, run ⟨some rules, some (Template.fill "\x7b\x7d[]")⟩ l = .error fault)
      ∧ ∃ l', run ⟨none, some (Template.fill "\x7b\x7d[]")⟩ l = .ok l' := by
  intro l rules
  have array : (row.type == .array (.simple "Byte")) = true := by decide
  have undeclared : l.types.contains row.type = false := by decide
  have none : rules.rule? SemanticType.arrayName = none := by decide
  obtain ⟨failed, _⟩ := (run_arrays_behind_rules l rules (Template.fill "\x7b\x7d[]")).2 _
    List.mem_cons_self row List.mem_cons_self undeclared none
  exact ⟨array, undeclared, none, failed _ array, _, rfl⟩

end Completion
end LibrarySpec
