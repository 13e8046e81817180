/-
  Declaring composite types does not depend on the order of declaration.

  The pass takes the types of signatures in the order of the functions and of their arguments, and
  it renders each in the table to which those before it were added.

    1. `FunctionSpec.Shuffled`, `Library.Shuffled`: the functions in another order, and the arguments
       of each function too.  The types of signatures are the same (`Shuffles.mem_signatures`).
    2. Built types of one structure are the same type.  So the undeclared types are a set, each of
       them listed once, and another order only lists them differently (`undeclaredTypes_shuffled`).
    3. The crux: no declaration that is added has a part in what is rendered later (`render_push`).
       Each type is rendered as in the table that the library began with, so its declaration is the
       same wherever it comes (`perm_of_rendered`).
    4. A lookup finds an old declaration of the type, or the only new one (`find?_eq_of_perm`).

  Main statement: `declareComplexTypes_shuffled`.
-/
import Mathlib.Data.List.Forall2
import Mathlib.Data.List.Nodup
import LibrarySpec.Proofs.Completion.Passes
import LibrarySpec.Proofs.SemanticTypes

namespace LibrarySpec

/-! ## Other orders -/

/-- The function with its arguments in another order. -/
inductive FunctionSpec.Shuffled (f : FunctionSpec) : FunctionSpec → Prop where
  | intro {arguments : List Argument} (order : f.arguments.Perm arguments) :
      Shuffled f { f with arguments := arguments }

/-- The functions in another order, each with its arguments in another order. -/
def Shuffles (functions functions' : List FunctionSpec) : Prop :=
  ∃ between, functions.Perm between ∧ List.Forall₂ FunctionSpec.Shuffled between functions'

/-- The automaton with its functions in another order. -/
inductive Automaton.Shuffled (a : Automaton) : Automaton → Prop where
  | intro {functions : List FunctionSpec} (order : Shuffles a.functions functions) :
      Shuffled a { a with functions := functions }

/-- The library with its functions in another order, those that are owned by automata as well. -/
inductive Library.Shuffled (l : Library) : Library → Prop where
  | intro {functions : List FunctionSpec} {automata : List Automaton}
      (order : Shuffles l.functions functions)
      (owned : List.Forall₂ Automaton.Shuffled l.automata automata) :
      Shuffled l { l with functions := functions, automata := automata }

theorem Shuffles.refl (functions : List FunctionSpec) : Shuffles functions functions :=
  ⟨functions, .refl _, List.forall₂_same.2 fun _ _ => .intro (.refl _)⟩

/-- A library of which nothing but the functions is in another order. -/
theorem Library.Shuffled.of_functions (l : Library) {functions : List FunctionSpec}
    (order : Shuffles l.functions functions) : l.Shuffled { l with functions := functions } :=
  .intro order (List.forall₂_same.2 fun a _ => .intro (.refl a.functions))

theorem FunctionSpec.Shuffled.mem_signature {f g : FunctionSpec} (h : f.Shuffled g)
    {t : SemanticType} : t ∈ f.signature ↔ t ∈ g.signature := by
  cases h with
  | intro order => exact ((order.map Argument.type).append_right _).mem_iff

/-- What is gathered from functions is the same, if it does not depend on the order of arguments. -/
theorem Shuffles.mem_flatMap {α : Type} {part : FunctionSpec → List α} {a : α}
    {functions functions' : List FunctionSpec} (h : Shuffles functions functions')
    (same : ∀ f g, f.Shuffled g → (a ∈ part f ↔ a ∈ part g)) :
    a ∈ functions.flatMap part ↔ a ∈ functions'.flatMap part := by
  obtain ⟨between, order, each⟩ := h
  have inside : a ∈ between.flatMap part ↔ a ∈ functions'.flatMap part := by
    clear order
    induction each with
    | nil => rfl
    | cons first _ ih =>
      rw [List.flatMap_cons, List.flatMap_cons, List.mem_append, List.mem_append,
        same _ _ first, ih]
  rw [← inside]
  simp only [List.mem_flatMap, order.mem_iff]

/-- The types of signatures are the same. -/
theorem Shuffles.mem_signatures {functions functions' : List FunctionSpec}
    (h : Shuffles functions functions') {t : SemanticType} :
    t ∈ functions.flatMap (·.signature) ↔ t ∈ functions'.flatMap (·.signature) :=
  h.mem_flatMap fun _ _ shuffled => shuffled.mem_signature

/-- Automata keep their types. -/
theorem types_of_shuffled {automata automata' : List Automaton}
    (h : List.Forall₂ Automaton.Shuffled automata automata') :
    automata'.map (·.type) = automata.map (·.type) := by
  induction h with
  | nil => rfl
  | cons first _ ih =>
    rw [List.map_cons, List.map_cons, ih]
    cases first
    rfl

/-! ## Lists in another order -/

/-- Where one element at most is looked for, it is found in any order. -/
theorem find?_eq_of_perm {α : Type} {p : α → Bool} {xs ys : List α} (order : xs.Perm ys)
    (single : ∀ a ∈ xs, ∀ b ∈ xs, p a = true → p b = true → a = b) : xs.find? p = ys.find? p := by
  cases found : ys.find? p with
  | none =>
    rw [List.find?_eq_none] at found ⊢
    exact fun a ha => found a (order.mem_iff.1 ha)
  | some b =>
    have hb : p b = true := List.find?_some found
    have mem : b ∈ xs := order.mem_iff.2 (List.mem_of_find?_eq_some found)
    cases found' : xs.find? p with
    | none => exact absurd hb (List.find?_eq_none.1 found' b mem)
    | some a =>
      rw [single a (List.mem_of_find?_eq_some found') b mem (List.find?_some found') hb]

section Rendered

variable {render : SemanticType → Except Fault String}

/-- Declarations of one type that are rendered alike are the same. -/
theorem eq_of_rendered {d e : TypeDecl} (same : d.semanticType = e.semanticType)
    (hd : render d.semanticType = .ok d.codeType) (he : render e.semanticType = .ok e.codeType) :
    d = e := by
  rw [same, he] at hd
  cases d
  cases e
  cases same
  cases hd
  rfl

/-- Declarations that are rendered alike are the same if their types are. -/
theorem perm_of_rendered {decls decls' : List TypeDecl}
    (distinct : (decls.map TypeDecl.semanticType).Nodup)
    (order : (decls.map TypeDecl.semanticType).Perm (decls'.map TypeDecl.semanticType))
    (renders : ∀ d ∈ decls, render d.semanticType = .ok d.codeType)
    (renders' : ∀ d ∈ decls', render d.semanticType = .ok d.codeType) : decls.Perm decls' := by
  have among : ∀ {xs ys : List TypeDecl},
      (∀ d ∈ xs, render d.semanticType = .ok d.codeType) →
      (∀ d ∈ ys, render d.semanticType = .ok d.codeType) →
      (xs.map TypeDecl.semanticType).Perm (ys.map TypeDecl.semanticType) →
      ∀ d ∈ xs, d ∈ ys := by
    intro xs ys hx hy types d hd
    obtain ⟨e, he, same⟩ := List.mem_map.1 (types.mem_iff.1 (List.mem_map_of_mem hd))
    rw [← eq_of_rendered same (hy e he) (hx d hd)]
    exact he
  have distinct' := order.nodup_iff.1 distinct
  refine (List.perm_ext_iff_of_nodup (List.Nodup.of_map _ distinct)
    (List.Nodup.of_map _ distinct')).2 fun d => ⟨?_, ?_⟩
  · exact among renders renders' order d
  · exact among renders' renders order.symm d

end Rendered

namespace Library

/-! ## Undeclared types -/

/-- The types of signatures are built. -/
def SignaturesBuilt (l : Library) : Prop := ∀ f ∈ l.functions, ∀ t ∈ f.signature, t.Built

variable {l m : Library}

theorem SignaturesBuilt.eq_of_beq (h : l.SignaturesBuilt) {t u : SemanticType}
    (ht : t ∈ l.functions.flatMap (·.signature)) (hu : u ∈ l.functions.flatMap (·.signature))
    (same : (t == u) = true) : t = u := by
  obtain ⟨f, hf, ht⟩ := List.mem_flatMap.1 ht
  obtain ⟨g, hg, hu⟩ := List.mem_flatMap.1 hu
  exact (h f hf t ht).eq_of_beq (h g hg u hu) same

theorem mem_signatures_of_mem_undeclaredTypes {t : SemanticType} (h : t ∈ l.undeclaredTypes) :
    t ∈ l.functions.flatMap (·.signature) :=
  (List.mem_filter.1 (mem_of_mem_firstsBy h)).1

/-- The undeclared types are the same up to their order. -/
theorem undeclaredTypes_shuffled (built : l.SignaturesBuilt) (shuffled : l.Shuffled m) :
    l.undeclaredTypes.Perm m.undeclaredTypes := by
  cases shuffled with
  | intro order owned =>
    refine (fresh_firstsBy _).perm (fresh_firstsBy _) (fun t => ?_) fun t ht u hu => ?_
    · rw [List.mem_filter, List.mem_filter, order.mem_signatures]
    · exact built.eq_of_beq (List.mem_filter.1 ht).1 (List.mem_filter.1 hu).1

/-! ## Declarations -/

/-- The declarations and the automata are the same up to their order, and every type is looked up as
    the same declaration. -/
structure SameDeclarations (l m : Library) : Prop where
  decls : l.types.decls.Perm m.types.decls
  lookup : ∀ t, l.types.get? t = m.types.get? t
  automata : (l.automata.map (·.type)).Perm (m.automata.map (·.type))

/-- Where the types of signatures are built, the composite types are declared with another order of
    functions and arguments exactly if they are declared with the given one, and the declarations are
    the same then. -/
theorem declareComplexTypes_shuffled (rules : Rules) (built : l.SignaturesBuilt)
    (shuffled : l.Shuffled m) :
    ((∃ l', l.declareComplexTypes rules = .ok l') ↔ ∃ m', m.declareComplexTypes rules = .ok m')
      ∧ ∀ l' m', l.declareComplexTypes rules = .ok l' → m.declareComplexTypes rules = .ok m' →
        SameDeclarations l' m' := by
  have pending := undeclaredTypes_shuffled built shuffled
  have single : ∀ t ∈ l.undeclaredTypes, ∀ u ∈ l.undeclaredTypes, (t == u) = true → t = u :=
    fun t ht u hu => built.eq_of_beq (mem_signatures_of_mem_undeclaredTypes ht)
      (mem_signatures_of_mem_undeclaredTypes hu)
  obtain ⟨types, automata⟩ : m.types = l.types
      ∧ m.automata.map (·.type) = l.automata.map (·.type) := by
    cases shuffled with
    | intro _ owned => exact ⟨rfl, types_of_shuffled owned⟩
  constructor
  · -- the same types are rendered in the same table
    rw [exists_declareComplexTypes_iff, exists_declareComplexTypes_iff, types]
    simp only [pending.mem_iff]
  · intro l' m' hl hm
    obtain ⟨decls, keys, renders, bare, fresh, rfl⟩ := declareComplexTypes_eq_ok hl
    obtain ⟨decls', keys', renders', bare', fresh', rfl⟩ := declareComplexTypes_eq_ok hm
    rw [types] at renders'
    rw [automata] at fresh'
    have key : ∀ d ∈ decls, d.semanticType ∈ l.undeclaredTypes := by
      intro d hd
      rw [← keys]
      exact List.mem_map_of_mem hd
    have order : decls.Perm decls' := by
      refine perm_of_rendered ?_ ?_ renders renders'
      · rw [keys]
        exact (fresh_firstsBy _).nodup
      · rw [keys, keys']
        exact pending
    have homes : bare.Perm bare' := fresh.perm fresh' (fun t => pending.mem_iff) single
    refine ⟨?_, fun t => ?_, ?_⟩
    · rw [types, TypeTable.decls_extend, TypeTable.decls_extend]
      exact order.append_left _
    · -- of the new declarations one at most has the structure of the type
      rw [types, TypeTable.get?_eq, TypeTable.get?_eq, TypeTable.decls_extend,
        TypeTable.decls_extend, List.find?_append, List.find?_append]
      refine congrArg _ (find?_eq_of_perm order fun d hd e he hdt het => ?_)
      have same := single _ (key d hd) _ (key e he) (BEq.trans hdt (BEq.symm het))
      exact eq_of_rendered same (renders d hd) (renders e he)
    · rw [List.map_append, List.map_append, automata, List.map_map, List.map_map]
      exact (homes.map _).append_left _

/-- A library with these functions. -/
def buffers (functions : List (String × List Argument)) : Library where
  name := "buffers"
  imports := []
  includes := []
  automata := [.bare (.simple "Buffer")]
  types := .ofList [⟨.simple "Byte", "u8"⟩]
  converters := []
  functions := functions.map fun (name, arguments) =>
    { FunctionSpec.synthetic (.simple "Buffer") name with arguments := arguments, builtin := false }

/-- An array, as an argument. -/
def row : Argument := ⟨"row", .array (.simple "Byte"), []⟩

/-- An array of arrays, as an argument. -/
def rows : Argument := ⟨"rows", .array (.array (.simple "Byte")), []⟩

/-- A pointer, as an argument. -/
def target : Argument := ⟨"target", .pointer (.simple "Byte"), []⟩

/-- Two functions in two orders, and the arguments of one of them in two orders. -/
theorem declareComplexTypes_shuffled_buffers :
    let l := buffers [("fill", [row, target]), ("join", [rows])]
    let m := buffers [("join", [rows]), ("fill", [target, row])]
    let rules := Rules.ofList [("[]", "{}[]"), ("*", "{}*")]
    l.SignaturesBuilt ∧ l.Shuffled m ∧ ∃ l' m', l.declareComplexTypes rules = .ok l'
      ∧ m.declareComplexTypes rules = .ok m'
      ∧ l'.types.decls.map (·.codeType) = ["u8", "u8[]", "u8*", "u8[][]"]
      ∧ m'.types.decls.map (·.codeType) = ["u8", "u8[][]", "u8*", "u8[]"]
      ∧ SameDeclarations l' m' := by
  intro l m rules
  have byte : (SemanticType.simple "Byte").Built := .simple (by decide)
  have built : l.SignaturesBuilt := by
    refine List.forall_mem_cons.2 ⟨?_, List.forall_mem_singleton.2 ?_⟩
    · exact List.forall_mem_cons.2 ⟨byte.array, List.forall_mem_singleton.2 byte.pointer⟩
    · exact List.forall_mem_singleton.2 byte.array.array
  have shuffled : l.Shuffled m := by
    refine .of_functions l ⟨_, .swap _ _ [], .cons ?_ (.cons ?_ .nil)⟩
    · exact .intro (.refl _)
    · exact .intro (.swap _ _ [])
  refine ⟨built, shuffled, _, _, rfl, rfl, rfl, rfl, ?_⟩
  exact (declareComplexTypes_shuffled rules built shuffled).2 _ _ rfl rfl

end Library
end LibrarySpec
