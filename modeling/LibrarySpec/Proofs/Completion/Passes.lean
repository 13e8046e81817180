/-
  What each pass of completion adds.

  Every pass is a fold over a list that it reads off the library, with a guard that leaves alone what
  is there already.  For every pass there are two lemmas:

    1. what it adds behind the lists of the library: the declarations it was asked for, in order, and
       builtin functions and automata that are fresh, each once and none that was there;
    2. where everything it would add is there already, the pass changes nothing.

  Types compare by structure, so "is declared" is a matter of `==`, and the equivalence of `==` does
  the work where lists of types were thinned out.
-/
import LibrarySpec.Completion.Basic
import LibrarySpec.Proofs.Completion.Rendering
import LibrarySpec.Proofs.Completion.Thinning

namespace LibrarySpec

/-- A fold that may fail goes one step, and goes on from there. -/
theorem foldlM_cons_eq_ok {ε α β : Type} {step : β → α → Except ε β} {x : α} {xs : List α}
    {first last : β} : (x :: xs).foldlM step first = .ok last
      ↔ ∃ next, step first x = .ok next ∧ xs.foldlM step next = .ok last := by
  rw [List.foldlM_cons]
  cases step first x with
  | error e => exact iff_of_false (by rintro ⟨⟩) (by rintro ⟨_, ⟨⟩, _⟩)
  | ok next =>
    constructor
    · exact fun h => ⟨next, rfl, h⟩
    · rintro ⟨_, same, h⟩
      rw [← Except.ok.inj same] at h
      exact h

namespace Library

/-! ## Association -/

@[simp] theorem associate_functions (l : Library) : l.associate.functions = l.functions := rfl

@[simp] theorem associate_types (l : Library) : l.associate.types = l.types := rfl

/-- Associating once more changes nothing. -/
theorem associate_associate (l : Library) : l.associate.associate = l.associate := by
  simp [associate]

/-! ## Composite types -/

/-- Every composite type of a signature is declared. -/
def ComplexDeclared (l : Library) : Prop :=
  ∀ f ∈ l.functions, ∀ t ∈ f.signature, t.isComplex = true → l.types.contains t = true

/-- An automaton is added unless there is one of its type. -/
theorem withAutomaton_eq_keepFirst (l : Library) (a : Automaton) :
    l.withAutomaton a = { l with automata := keepFirst (·.type) l.automata a } := by
  rw [withAutomaton, automaton?, List.isSome_find?, keepFirst]
  split <;> rfl

/-- Declares one composite type by the rules. -/
def declareComplex (rules : Rules) (l : Library) (t : SemanticType) : Except Fault Library := do
  let codeType ← rules.render l.types t
  return (l.declare t codeType).withAutomaton (.bare t)

theorem declareComplexTypes_eq (l : Library) (rules : Rules) :
    l.declareComplexTypes rules = l.undeclaredTypes.foldlM (declareComplex rules) l := rfl

/-- A composite type that is declared makes no difference to what is rendered, for only simple types
    are looked up. -/
theorem render_push (rules : Rules) {table : TypeTable} {d : TypeDecl}
    (complex : d.semanticType.isComplex = true) (t : SemanticType) :
    rules.render (table.push d) t = rules.render table t :=
  Rules.render_congr rfl rfl (TypeTable.firstOf?_push complex t.leaf)

theorem declareComplex_eq_ok {rules : Rules} {l l' : Library} {t : SemanticType} :
    declareComplex rules l t = .ok l' ↔ ∃ code, rules.render l.types t = .ok code
      ∧ l' = (l.declare t code).withAutomaton (.bare t) := by
  cases hr : rules.render l.types t with
  | error fault =>
    rw [declareComplex, hr]
    constructor
    · intro h
      cases h
    · rintro ⟨_, none, _⟩
      cases none
  | ok code =>
    rw [declareComplex, hr]
    constructor
    · intro h
      exact ⟨code, rfl, (Except.ok.inj h).symm⟩
    · rintro ⟨_, same, rfl⟩
      rw [Except.ok.inj same]
      rfl

/-- Composite types are declared by the rules, in order, each as it is rendered in the table that the
    library began with; each of them has an automaton then. -/
theorem foldlM_declareComplex_eq_ok {rules : Rules} {types : List SemanticType} {l l' : Library}
    (complex : ∀ t ∈ types, t.isComplex = true) :
    types.foldlM (declareComplex rules) l = .ok l'
      ↔ ∃ decls, decls.map TypeDecl.semanticType = types
        ∧ (∀ d ∈ decls, rules.render l.types d.semanticType = .ok d.codeType)
        ∧ l' = { l with
            types := l.types.extend decls
            automata := types.foldl (fun found t => keepFirst (·.type) found (Automaton.bare t))
              l.automata } := by
  induction types generalizing l with
  | nil =>
    constructor
    · intro h
      cases h
      exact ⟨[], rfl, List.forall_mem_nil _, rfl⟩
    · rintro ⟨decls, none, _, rfl⟩
      rw [List.map_eq_nil_iff.1 none]
      rfl
  | cons t types ih =>
    obtain ⟨first, rest⟩ := List.forall_mem_cons.1 complex
    -- the table was added to, but what is rendered behind it is what was rendered in front
    have later : ∀ code u, rules.render (l.types.push ⟨t, code⟩) u = rules.render l.types u :=
      fun code u => render_push rules first u
    rw [foldlM_cons_eq_ok]
    constructor
    · rintro ⟨_, step, h⟩
      obtain ⟨code, rendered, rfl⟩ := declareComplex_eq_ok.1 step
      rw [withAutomaton_eq_keepFirst] at h
      obtain ⟨decls, types, renders, rfl⟩ := (ih rest).1 h
      refine ⟨⟨t, code⟩ :: decls, by rw [List.map_cons, types], ?_, rfl⟩
      refine List.forall_mem_cons.2 ⟨rendered, fun d hd => ?_⟩
      rw [← later code]
      exact renders d hd
    · rintro ⟨decls, same, renders, rfl⟩
      cases decls with
      | nil => cases same
      | cons d decls =>
        obtain ⟨rfl, types⟩ := List.cons.inj same
        obtain ⟨rendered, renders⟩ := List.forall_mem_cons.1 renders
        refine ⟨_, declareComplex_eq_ok.2 ⟨d.codeType, rendered, rfl⟩, ?_⟩
        rw [withAutomaton_eq_keepFirst]
        refine (ih rest).2 ⟨decls, types, fun d' hd' => ?_, rfl⟩
        exact (later d.codeType _).trans (renders d' hd')

theorem isComplex_of_mem_undeclaredTypes {l : Library} :
    ∀ t ∈ l.undeclaredTypes, t.isComplex = true := by
  intro t ht
  have undeclared := (List.mem_filter.1 (mem_of_mem_firstsBy ht)).2
  rw [Bool.and_eq_true] at undeclared
  exact undeclared.1

/-- The types declared by the rules are the undeclared ones, in order, and the automata that are added
    are those of types that have none. -/
theorem declareComplexTypes_eq_ok {rules : Rules} {l l' : Library}
    (h : l.declareComplexTypes rules = .ok l') :
    ∃ decls, decls.map TypeDecl.semanticType = l.undeclaredTypes
      ∧ (∀ d ∈ decls, rules.render l.types d.semanticType = .ok d.codeType)
      ∧ ∃ bare : List SemanticType, Fresh (l.automata.map (·.type)) l.undeclaredTypes bare
      ∧ l' = { l with
          types := l.types.extend decls
          automata := l.automata ++ bare.map Automaton.bare } := by
  rw [declareComplexTypes_eq, foldlM_declareComplex_eq_ok isComplex_of_mem_undeclaredTypes] at h
  obtain ⟨decls, types, renders, rfl⟩ := h
  obtain ⟨bare, folded, fresh⟩ := foldl_keepFirst_map Automaton.type Automaton.bare (fun _ => rfl)
    l.undeclaredTypes l.automata
  exact ⟨decls, types, renders, bare, fresh, by rw [folded]⟩

/-- The types are declared by the rules exactly if each of them is rendered in the table that the
    library has. -/
theorem exists_declareComplexTypes_iff {rules : Rules} {l : Library} :
    (∃ l', l.declareComplexTypes rules = .ok l')
      ↔ ∀ t ∈ l.undeclaredTypes, ∃ code, rules.render l.types t = .ok code := by
  constructor
  · rintro ⟨l', h⟩ t ht
    obtain ⟨decls, types, renders, _⟩ := declareComplexTypes_eq_ok h
    rw [← types] at ht
    obtain ⟨d, hd, rfl⟩ := List.mem_map.1 ht
    exact ⟨d.codeType, renders d hd⟩
  · intro rendered
    let decl (t : SemanticType) : TypeDecl := ⟨t, (rules.render l.types t).toOption.getD ""⟩
    have types : (l.undeclaredTypes.map decl).map TypeDecl.semanticType = l.undeclaredTypes := by
      rw [List.map_map]
      exact List.map_id _
    refine ⟨_, (foldlM_declareComplex_eq_ok isComplex_of_mem_undeclaredTypes).2
      ⟨l.undeclaredTypes.map decl, types, fun d hd => ?_, rfl⟩⟩
    obtain ⟨t, ht, rfl⟩ := List.mem_map.1 hd
    obtain ⟨code, hcode⟩ := rendered t ht
    show rules.render l.types t = .ok ((rules.render l.types t).toOption.getD "")
    rw [hcode]
    rfl

/-- Where every composite type is declared, nothing is left to declare. -/
theorem declareComplexTypes_eq_self {l : Library} (rules : Rules) (h : l.ComplexDeclared) :
    l.declareComplexTypes rules = .ok l := by
  have none : (l.functions.flatMap (·.signature)).filter
      (fun t => t.isComplex && !l.types.contains t) = [] := by
    refine List.filter_eq_nil_iff.2 fun t ht => ?_
    obtain ⟨f, hf, ht⟩ := List.mem_flatMap.1 ht
    cases hc : t.isComplex with
    | false => simp
    | true => simp [h f hf t ht hc]
  rw [declareComplexTypes, undeclaredTypes, none]
  rfl

/-! ## Array types -/

/-- Every array type of an argument is declared. -/
def ArraysDeclared (l : Library) : Prop :=
  ∀ t ∈ l.argumentArrays, l.types.contains t = true

/-- The array types of arguments are thinned out by structure. -/
theorem arrays_eq (types : List SemanticType) :
    SemanticType.arrays types = firstsBy id (types.filter (·.isArray)) := by
  rw [firstsBy_eq, List.foldl_filter, SemanticType.arrays]
  congr 1
  funext found t
  have known : found.any (id · == id t) = found.contains t := by
    rw [List.contains_eq_any_beq]
    congr 1
    funext u
    exact SemanticType.beq_comm u t
  rw [keepFirst, known]
  cases t.isArray <;> cases found.contains t <;> rfl

/-- The types listed as arrays are arrays. -/
theorem isArray_of_mem_arrays {types : List SemanticType} {t : SemanticType}
    (h : t ∈ SemanticType.arrays types) : t.isArray = true := by
  rw [arrays_eq] at h
  exact (List.mem_filter.1 (mem_of_mem_firstsBy h)).2

/-- The list of array types stands for the types of all arguments. -/
theorem arraysDeclared_iff {l : Library} : l.ArraysDeclared ↔ ∀ f ∈ l.functions,
    ∀ x ∈ f.arguments, x.type.isArray = true → l.types.contains x.type = true := by
  constructor
  · intro h f hf x hx array
    have wanted : x.type ∈ (l.functions.flatMap fun f => f.arguments.map (·.type)).filter
        (·.isArray) :=
      List.mem_filter.2 ⟨List.mem_flatMap.2 ⟨f, hf, List.mem_map_of_mem hx⟩, array⟩
    have kept : l.argumentArrays.any (· == x.type) = true := by
      rw [argumentArrays, arrays_eq]
      exact any_foldl_keepFirst (.inr wanted)
    -- the list may hold another type of the same structure, which is declared as well
    obtain ⟨t, ht, same⟩ := List.any_eq_true.1 kept
    rw [← TypeTable.contains_congr same]
    exact h t ht
  · intro h t ht
    rw [argumentArrays, arrays_eq] at ht
    obtain ⟨argument, array⟩ := List.mem_filter.1 (mem_of_mem_firstsBy ht)
    obtain ⟨f, hf, ht⟩ := List.mem_flatMap.1 argument
    obtain ⟨x, hx, rfl⟩ := List.mem_map.1 ht
    exact h f hf x hx array

/-- An array has an inner type. -/
theorem inner?_of_isArray {t : SemanticType} (h : t.isArray = true) : ∃ u, t.inner? = some u := by
  cases t with
  | simple name => cases h
  | complex display enclosing inner => exact ⟨inner, rfl⟩

/-- Declares one array type from its item. -/
def declareArray (convert : String → String) (l : Library) (t : SemanticType) :
    Except Fault Library :=
  match t.inner? with
  | none => .ok l
  | some item =>
    if l.types.contains t then .ok l
    else do
      let itemDecl ← l.types.get item
      return l.declare t (convert itemDecl.codeType)

theorem declareArrayTypes_eq (l : Library) (convert : String → String) :
    l.declareArrayTypes convert = l.argumentArrays.foldlM (declareArray convert) l := rfl

/-- An array type is passed over, or it is declared by the code type of its item. -/
theorem declareArray_eq_ok {convert : String → String} {l l' : Library} {t item : SemanticType}
    (inner : t.inner? = some item) : declareArray convert l t = .ok l'
      ↔ l.types.contains t = true ∧ l' = l
        ∨ l.types.contains t = false
          ∧ ∃ d, l.types.get? item = some d ∧ l' = l.declare t (convert d.codeType) := by
  simp only [declareArray, inner, ← TypeTable.get_eq_ok]
  cases l.types.contains t with
  | true => simp [eq_comm]
  | false => cases l.types.get item <;> simp [bind, Except.bind, pure, Except.pure, eq_comm]

/-- Behind a step one more array type is declared. -/
theorem contains_of_declareArray {convert : String → String} {l l' : Library}
    {t item : SemanticType} (inner : t.inner? = some item)
    (ok : declareArray convert l t = .ok l') (u : SemanticType) :
    l'.types.contains u = (l.types.contains u || t == u) := by
  rcases (declareArray_eq_ok inner).1 ok with ⟨declared, rfl⟩ | ⟨_, d, _, rfl⟩
  · cases same : t == u with
    | false => rw [Bool.or_false]
    | true => rw [← TypeTable.contains_congr same, declared, Bool.or_true]
  · exact TypeTable.contains_push ..

/-- Of arrays that are all different, those are declared that were not, in order. -/
theorem foldlM_declareArray_eq_ok {convert : String → String} {types : List SemanticType}
    {l l' : Library} (arrays : ∀ t ∈ types, t.isArray = true)
    (distinct : types.Pairwise fun t u => (t == u) = false)
    (h : types.foldlM (declareArray convert) l = .ok l') :
    ∃ decls, decls.map TypeDecl.semanticType = types.filter (fun t => !l.types.contains t)
      ∧ l' = { l with types := l.types.extend decls } := by
  induction types generalizing l with
  | nil =>
    cases h
    exact ⟨[], rfl, rfl⟩
  | cons t types ih =>
    obtain ⟨array, arrays⟩ := List.forall_mem_cons.1 arrays
    obtain ⟨apart, distinct⟩ := List.pairwise_cons.1 distinct
    obtain ⟨item, hitem⟩ := inner?_of_isArray array
    obtain ⟨_, step, h⟩ := foldlM_cons_eq_ok.1 h
    obtain ⟨decls, same, rfl⟩ := ih arrays distinct h
    rcases (declareArray_eq_ok hitem).1 step with ⟨declared, rfl⟩ | ⟨declared, d, _, rfl⟩
    · exact ⟨decls, by rw [same, List.filter_cons, declared]; rfl, rfl⟩
    · refine ⟨⟨t, convert d.codeType⟩ :: decls, ?_, rfl⟩
      -- the type just declared is none of those that follow
      have still : types.filter (fun u => !(l.declare t (convert d.codeType)).types.contains u)
          = types.filter (fun u => !l.types.contains u) := by
        refine List.filter_congr fun u hu => ?_
        rw [contains_of_declareArray hitem step, apart u hu, Bool.or_false]
      rw [List.map_cons, same, still, List.filter_cons, declared]
      rfl

theorem isArray_of_mem_argumentArrays {l : Library} : ∀ t ∈ l.argumentArrays, t.isArray = true :=
  fun _ => isArray_of_mem_arrays

theorem argumentArrays_distinct {l : Library} :
    l.argumentArrays.Pairwise fun t u => (t == u) = false := by
  rw [argumentArrays, arrays_eq]
  exact (fresh_firstsBy _).distinct

/-- Declared by conversion are the array types of arguments that are not declared, in order. -/
theorem declareArrayTypes_eq_ok {convert : String → String} {l l' : Library}
    (h : l.declareArrayTypes convert = .ok l') :
    ∃ decls, decls.map TypeDecl.semanticType
        = l.argumentArrays.filter (fun t => !l.types.contains t)
      ∧ l' = { l with types := l.types.extend decls } := by
  rw [declareArrayTypes_eq] at h
  exact foldlM_declareArray_eq_ok isArray_of_mem_argumentArrays argumentArrays_distinct h

/-- Where every array type of an argument is declared, nothing is left to declare. -/
theorem declareArrayTypes_eq_self {l : Library} (convert : String → String)
    (h : l.ArraysDeclared) : l.declareArrayTypes convert = .ok l := by
  have all : ∀ types : List SemanticType, (∀ t ∈ types, l.types.contains t = true) →
      types.foldlM (declareArray convert) l = .ok l := by
    intro types
    induction types with
    | nil => exact fun _ => rfl
    | cons t types ih =>
      intro declared
      have skipped : declareArray convert l t = .ok l := by
        unfold declareArray
        rw [declared t (by simp)]
        split <;> rfl
      rw [List.foldlM_cons, skipped]
      exact ih fun u hu => declared u (List.mem_cons_of_mem t hu)
  exact all l.argumentArrays h

/-! ## Handlers -/

/-- The owners and the names of the builtin functions that the declared types call for. -/
def handlers (l : Library) : List (SemanticType × String) :=
  l.handledDecls.flatMap fun d =>
    FunctionSpec.handlerNames.map fun h => (d.semanticType, h ++ "<" ++ d.codeType ++ ">")

/-- Every handled type has its builtin functions. -/
def Handled (l : Library) : Prop :=
  ∀ h ∈ l.handlers, l.functions.any (fun f => f.owner == h.1 && f.name == h.2) = true

theorem addHandlers_eq (l : Library) :
    l.addHandlers = { l with
      functions := l.handlers.foldl (fun functions h => addHandler functions h.1 h.2)
        l.functions } := rfl

/-- The builtin functions that are added are those called for and not there. -/
theorem addHandlers_eq_fresh (l : Library) :
    ∃ new : List (SemanticType × String),
      l.addHandlers = { l with functions := l.functions ++ new.map fun h => .synthetic h.1 h.2 }
        ∧ Fresh (l.functions.map fun f => (f.owner, f.name)) l.handlers new := by
  obtain ⟨new, folded, fresh⟩ := foldl_keepFirst_map (fun f : FunctionSpec => (f.owner, f.name))
    (fun h => .synthetic h.1 h.2) (fun _ => rfl) l.handlers l.functions
  refine ⟨new, ?_, fresh⟩
  rw [← folded]
  rfl

/-- Where every handled type has its builtin functions, none is added. -/
theorem addHandlers_eq_self {l : Library} (h : l.Handled) : l.addHandlers = l := by
  obtain ⟨new, added, fresh⟩ := addHandlers_eq_fresh l
  have none : new = [] := fresh.eq_nil fun x hx => by
    obtain ⟨f, hf, same⟩ := List.any_eq_true.1 (h x hx)
    exact ⟨(f.owner, f.name), List.mem_map_of_mem hf, same⟩
  rw [added, none, List.map_nil, List.append_nil]

/-! ## States and automata -/

/-- Every automaton has the default states, and no two states of one name. -/
def StatesDefault (l : Library) : Prop :=
  ∀ a ∈ l.automata, firstsBy (·.name) (a.states ++ State.defaults) = a.states

/-- Where every automaton has the default states, none is added. -/
theorem addDefaultStates_eq_self {l : Library} (h : l.StatesDefault) : l.addDefaultStates = l := by
  have same : l.automata.map (fun a =>
      { a with states := firstsBy (·.name) (a.states ++ State.defaults) }) = l.automata := by
    have each : ∀ a ∈ l.automata,
        { a with states := firstsBy (·.name) (a.states ++ State.defaults) } = a := by
      intro a ha
      rw [h a ha]
    rw [List.map_congr_left each, List.map_id']
  rw [addDefaultStates, same]

theorem firstsBy_defaults : firstsBy (·.name) State.defaults = State.defaults := by decide

/-- Every owner of a function has an automaton. -/
def OwnersHaveAutomata (l : Library) : Prop :=
  ∀ f ∈ l.functions, (l.automaton? f.owner).isSome = true

/-- A bare automaton of a type, with the default states. -/
def freshAutomaton (type : SemanticType) : Automaton :=
  { Automaton.bare type with states := State.defaults }

theorem foldl_withAutomaton_eq (functions : List FunctionSpec) (l : Library) :
    functions.foldl (fun current f => current.withAutomaton (freshAutomaton f.owner)) l = { l with
      automata := (functions.map (·.owner)).foldl
        (fun found t => keepFirst (·.type) found (freshAutomaton t)) l.automata } := by
  induction functions generalizing l with
  | nil => rfl
  | cons f functions ih =>
    rw [List.foldl_cons, ih, withAutomaton_eq_keepFirst, List.map_cons, List.foldl_cons]

/-- The automata that are added are fresh ones of the owners that have none. -/
theorem addMissingAutomata_eq_fresh (l : Library) :
    ∃ new : List SemanticType,
      l.addMissingAutomata = { l with automata := l.automata ++ new.map freshAutomaton }
        ∧ Fresh (l.automata.map (·.type)) (l.functions.map (·.owner)) new := by
  obtain ⟨new, folded, fresh⟩ := foldl_keepFirst_map Automaton.type freshAutomaton (fun _ => rfl)
    (l.functions.map (·.owner)) l.automata
  refine ⟨new, ?_, fresh⟩
  rw [← folded]
  exact foldl_withAutomaton_eq l.functions l

/-- Where every owner has an automaton, none is added. -/
theorem addMissingAutomata_eq_self {l : Library} (h : l.OwnersHaveAutomata) :
    l.addMissingAutomata = l := by
  obtain ⟨new, added, fresh⟩ := addMissingAutomata_eq_fresh l
  have none : new = [] := fresh.eq_nil fun t ht => by
    obtain ⟨f, hf, rfl⟩ := List.mem_map.1 ht
    have owner := h f hf
    rw [automaton?, List.isSome_find?] at owner
    obtain ⟨x, hx, same⟩ := List.any_eq_true.1 owner
    exact ⟨x.type, List.mem_map_of_mem hx, same⟩
  rw [added, none, List.map_nil, List.append_nil]

end Library
end LibrarySpec
