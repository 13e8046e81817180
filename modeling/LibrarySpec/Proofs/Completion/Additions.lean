/-
  What a run of completion adds.

  No pass takes anything away or moves it, so a completed library is the library with additions
  behind each of its lists.  `Additions` holds what is added, and `Library.extended` puts it there; in
  the automata that the library has already, the passes fill in the default states and the functions
  they own.

  Every pass adds fresh keys: types by their structure, builtin functions by owner and name, automata
  by their type.  `Additions.Sound` says so of a whole run, with the keys that were asked for, and
  where they come from.

  Main statement: `exists_additions`, a run that succeeds answers the library extended by additions,
  of which each part is fresh.
-/
import LibrarySpec.Proofs.Completion.Passes

namespace LibrarySpec

/-- What a run adds: type declarations, builtin functions by owner and name, and automata by type. -/
structure Additions where
  types : List TypeDecl
  handlers : List (SemanticType × String)
  automata : List SemanticType

/-- The library with additions behind what it has, and with the default states and the functions of
    its automata filled in. -/
def Library.extended (l : Library) (a : Additions) : Library :=
  { l with
    automata := l.automata.map (fun x => { x with
        states := firstsBy (·.name) (x.states ++ State.defaults)
        functions := l.functions.filter (·.owner == x.type) })
      ++ a.automata.map Library.freshAutomaton
    types := l.types.extend a.types
    functions := l.functions ++ a.handlers.map fun h => .synthetic h.1 h.2 }

namespace Completion

/-- The composite types of signatures, if there are rules to declare them by. -/
def wantedComplex (c : Completion) (l : Library) : List SemanticType :=
  if c.rules = none then [] else (l.functions.flatMap (·.signature)).filter (·.isComplex)

/-- The array types of arguments, if there is a conversion to declare them by. -/
def wantedArrays (c : Completion) (l : Library) : List SemanticType :=
  if c.arrayConversion.isNone then []
  else (l.functions.flatMap fun f => f.arguments.map (·.type)).filter (·.isArray)

/-- The types that get an automaton because rules declare them. -/
def homes (c : Completion) (l : Library) : List SemanticType :=
  if c.rules = none then [] else l.undeclaredTypes

end Completion

/-- Each part of the additions is fresh. -/
structure Additions.Sound (c : Completion) (l : Library) (a : Additions) : Prop where
  types : Fresh (l.types.decls.map TypeDecl.semanticType) (c.wantedComplex l ++ c.wantedArrays l)
    (a.types.map TypeDecl.semanticType)
  handlers : Fresh (l.functions.map fun f => (f.owner, f.name)) (l.extended a).handlers a.handlers
  automata : Fresh (l.automata.map (·.type))
    (c.homes l ++ (l.extended a).functions.map (·.owner)) a.automata

namespace Completion

open Library

theorem contains_eq_any_map (table : TypeTable) (t : SemanticType) :
    table.contains t = (table.decls.map TypeDecl.semanticType).any (· == t) := by
  rw [TypeTable.contains_eq, List.any_map]
  rfl

theorem declareComplexTypes_eq_ok {c : Completion} {l l' : Library}
    (h : c.declareComplexTypes l = .ok l') :
    ∃ decls, Fresh (l.types.decls.map TypeDecl.semanticType) (c.wantedComplex l)
        (decls.map TypeDecl.semanticType)
      ∧ ∃ bare, Fresh (l.automata.map (·.type)) (c.homes l) bare
      ∧ l' = { l with
          types := l.types.extend decls
          automata := l.automata ++ bare.map Automaton.bare } := by
  unfold declareComplexTypes at h
  unfold wantedComplex homes
  split at h
  · rename_i rules hrules
    obtain ⟨decls, types, _, bare, fresh, rfl⟩ := Library.declareComplexTypes_eq_ok h
    rw [if_neg (by simp [hrules]), if_neg (by simp [hrules])]
    refine ⟨decls, ?_, bare, fresh, rfl⟩
    rw [types, undeclaredTypes]
    refine Fresh.of_filter ?_
    rw [List.filter_filter]
    have same : (fun t => !(l.types.decls.map TypeDecl.semanticType).any (· == t) && t.isComplex)
        = fun t : SemanticType => t.isComplex && !l.types.contains t := by
      funext t
      rw [contains_eq_any_map, Bool.and_comm]
    rw [same]
    exact fresh_firstsBy _
  · rename_i hrules
    cases h
    rw [if_pos hrules, if_pos hrules]
    exact ⟨[], .nil _, [], .nil _, by simp [TypeTable.extend]⟩

theorem declareArrayTypes_eq_ok {c : Completion} {l l' : Library}
    (h : c.declareArrayTypes l = .ok l') :
    ∃ decls, Fresh (l.types.decls.map TypeDecl.semanticType) (c.wantedArrays l)
        (decls.map TypeDecl.semanticType)
      ∧ l' = { l with types := l.types.extend decls } := by
  unfold declareArrayTypes at h
  unfold wantedArrays
  split at h
  · rename_i convert hconvert
    obtain ⟨decls, types, rfl⟩ := Library.declareArrayTypes_eq_ok h
    rw [if_neg (by simp [hconvert])]
    refine ⟨decls, ?_, rfl⟩
    have same : (fun t => !l.types.contains t)
        = fun t => !(l.types.decls.map TypeDecl.semanticType).any (· == t) := by
      funext t
      rw [contains_eq_any_map]
    rw [types, argumentArrays, arrays_eq, same]
    exact (fresh_firstsBy _).filter _
  · rename_i hconvert
    cases h
    rw [if_pos (by simp [hconvert])]
    exact ⟨[], .nil _, rfl⟩

/-- A run is the two passes that may fail and the three that may not. -/
theorem run_eq_ok {c : Completion} {l d : Library} :
    c.run l = .ok d ↔ ∃ l₁ l₂, c.declareComplexTypes l.associate = .ok l₁
      ∧ c.declareArrayTypes l₁ = .ok l₂
      ∧ l₂.addHandlers.addDefaultStates.addMissingAutomata = d := by
  unfold run
  cases hc : c.declareComplexTypes l.associate with
  | error fault => simp [bind, Except.bind]
  | ok l₁ =>
    cases ha : c.declareArrayTypes l₁ with
    | error fault => simp [bind, Except.bind, ha]
    | ok l₂ => simp [bind, Except.bind, ha, pure, Except.pure]

/-- A run that succeeds answers the library extended by sound additions. -/
theorem exists_additions {c : Completion} {l d : Library} (h : c.run l = .ok d) :
    ∃ a, d = l.extended a ∧ a.Sound c l := by
  obtain ⟨l₁, l₂, hc, ha, rfl⟩ := run_eq_ok.1 h
  obtain ⟨complex, wantedComplex, bare, homes, rfl⟩ := declareComplexTypes_eq_ok hc
  obtain ⟨arrays, wantedArrays, declared⟩ := declareArrayTypes_eq_ok ha
  obtain ⟨handlers, handled, wantedHandlers⟩ := addHandlers_eq_fresh l₂
  obtain ⟨missing, automata, owners⟩ := addMissingAutomata_eq_fresh l₂.addHandlers.addDefaultStates
  have functions : l₂.functions = l.functions := by rw [declared]; rfl
  have types : l₂.types = l.types.extend (complex ++ arrays) := by
    rw [declared]
    exact TypeTable.eq_of_decls_eq (by simp)
  have states : l₂.addHandlers.addDefaultStates.automata = l.automata.map (fun x => { x with
        states := firstsBy (·.name) (x.states ++ State.defaults)
        functions := l.functions.filter (·.owner == x.type) }) ++ bare.map freshAutomaton := by
    have given : l₂.addHandlers.automata = l.associate.automata ++ bare.map Automaton.bare := by
      rw [handled, declared]
    rw [addDefaultStates, given, List.map_append, associate, List.map_map, List.map_map]
    rfl
  have whole : l₂.addHandlers.addDefaultStates.addMissingAutomata
      = l.extended ⟨complex ++ arrays, handlers, bare ++ missing⟩ := by
    rw [automata, states, handled, extended, List.map_append, List.append_assoc, ← types,
      ← functions, declared]
    rfl
  refine ⟨_, whole, ?_, ?_, ?_⟩
  · rw [List.map_append]
    refine wantedComplex.append ?_
    rw [TypeTable.decls_extend, List.map_append] at wantedArrays
    exact wantedArrays
  · rw [← whole, automata, ← functions, handled]
    exact wantedHandlers
  · have old : l.associate.automata.map (·.type) = l.automata.map (·.type) := by
      rw [associate, List.map_map]
      rfl
    rw [old] at homes
    rw [states, List.map_append, List.map_map, List.map_map] at owners
    rw [← whole, automata]
    refine homes.append ?_
    have fresh : bare.map ((·.type) ∘ freshAutomaton) = bare := List.map_id' bare
    rw [fresh] at owners
    exact owners

end Completion

/-! ## Where additions come from -/

namespace Completion

variable {c : Completion} {l : Library} {t : SemanticType}

theorem mem_wantedComplex : t ∈ c.wantedComplex l
    ↔ c.rules ≠ none ∧ (∃ f ∈ l.functions, t ∈ f.signature) ∧ t.isComplex = true := by
  unfold wantedComplex
  split
  · rename_i none
    simp [none]
  · rename_i some
    simp [some]

theorem mem_wantedArrays : t ∈ c.wantedArrays l ↔ c.arrayConversion ≠ none
    ∧ (∃ f ∈ l.functions, ∃ x ∈ f.arguments, x.type = t) ∧ t.isArray = true := by
  unfold wantedArrays
  split
  · rename_i none
    rw [Option.isNone_iff_eq_none] at none
    simp [none]
  · rename_i some
    rw [Option.isNone_iff_eq_none] at some
    simp [some]

theorem mem_homes (h : t ∈ c.homes l) : c.rules ≠ none ∧ (∃ f ∈ l.functions, t ∈ f.signature)
    ∧ t.isComplex = true ∧ l.types.contains t = false := by
  unfold homes at h
  split at h
  · cases h
  · rename_i rules
    obtain ⟨signature, missing⟩ := List.mem_filter.1 (mem_of_mem_firstsBy h)
    obtain ⟨complex, undeclared⟩ := Bool.and_eq_true_iff.1 missing
    rw [Bool.not_eq_true'] at undeclared
    exact ⟨rules, List.mem_flatMap.1 signature, complex, undeclared⟩

end Completion

namespace Additions.Sound

open Completion Library

variable {c : Completion} {l : Library} {a : Additions}

theorem isComplex_of_isArray {t : SemanticType} (h : t.isArray = true) : t.isComplex = true := by
  cases t with
  | simple => cases h
  | complex => rfl

theorem used (h : a.Sound c l) : ∀ e ∈ a.types,
    e.semanticType.isComplex = true ∧ ∃ f ∈ l.functions, e.semanticType ∈ f.signature := by
  intro e he
  rcases List.mem_append.1 (h.types.asked _ (List.mem_map_of_mem he)) with wanted | wanted
  · obtain ⟨_, ⟨f, hf, ht⟩, complex⟩ := mem_wantedComplex.1 wanted
    exact ⟨complex, f, hf, ht⟩
  · obtain ⟨_, ⟨f, hf, x, hx, same⟩, array⟩ := mem_wantedArrays.1 wanted
    refine ⟨isComplex_of_isArray array, f, hf, ?_⟩
    rw [FunctionSpec.signature, ← same]
    exact List.mem_append_left _ (List.mem_map_of_mem hx)

theorem declared (h : a.Sound c l) {t : SemanticType}
    (ht : t ∈ c.wantedComplex l ++ c.wantedArrays l) : (l.extended a).types.contains t = true := by
  obtain ⟨x, hx, same⟩ := h.types.complete t ht
  rw [contains_eq_any_map, extended, TypeTable.decls_extend, List.map_append]
  exact List.any_eq_true.2 ⟨x, hx, same⟩

theorem mem_handlers {l : Library} {h : SemanticType × String} (hh : h ∈ l.handlers) :
    ∃ e ∈ l.types.decls, e.semanticType = h.1 := by
  obtain ⟨e, he, hh⟩ := List.mem_flatMap.1 hh
  obtain ⟨name, _, rfl⟩ := List.mem_map.1 hh
  exact ⟨e, (List.mem_filter.1 (mem_of_mem_firstsBy he)).1, rfl⟩

/-- A function of the extended library was there or is builtin for a declared type. -/
theorem of_mem_functions (h : a.Sound c l) {f : FunctionSpec}
    (hf : f ∈ (l.extended a).functions) : f ∈ l.functions
      ∨ (∃ e ∈ (l.extended a).types.decls, e.semanticType = f.owner) ∧ f.signature = [] := by
  rcases List.mem_append.1 hf with hf | hf
  · exact .inl hf
  · obtain ⟨x, hx, rfl⟩ := List.mem_map.1 hf
    exact .inr ⟨mem_handlers (h.handlers.asked x hx), rfl⟩

end Additions.Sound
end LibrarySpec
