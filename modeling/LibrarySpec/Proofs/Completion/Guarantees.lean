/-
  What a completed library guarantees.

  A completed library is the library with additions behind its lists (`Library.extended`), and

    1. the added types are composite types of signatures, new and each once, so lookups that succeeded
       before answer the same; if they are asked for, all composite types of signatures and all array
       types of arguments are declared;
    2. the added functions are builtin, new and each once, and every declared array or pointer type
       has all its builtin functions, named after the code type that a lookup answers;
    3. the added automata are new and each once, every owner of a function has an automaton, and every
       automaton has the default states and no two states of one name.

  `Additions.Guarantees` holds all of it.  Most follows from the additions being fresh.  The builtin
  functions need more: handlers are thinned out by structure, and the declaration kept must be the one
  that a lookup finds.  That is so because types that completion looks at are built
  (`Library.Built`), and whether a built type is an array or a pointer depends on its structure.

  Main statement: `run_guarantees`.
-/
import LibrarySpec.Proofs.Completion.Rerun
import LibrarySpec.Proofs.SemanticTypes

namespace LibrarySpec

/-- The first element of a kind is the first of that kind among those of a kind around it. -/
theorem find?_filter_of_find? {α : Type} {p q : α → Bool} {items : List α} {a : α}
    (h : items.find? p = some a) (hq : q a = true) : (items.filter q).find? p = some a := by
  induction items with
  | nil => cases h
  | cons b items ih =>
    rw [List.find?_cons] at h
    cases hb : p b with
    | true =>
      rw [hb] at h
      obtain rfl : b = a := Option.some.inj h
      rw [List.filter_cons, if_pos hq, List.find?_cons, hb]
    | false =>
      rw [hb] at h
      rw [List.filter_cons]
      split
      · rw [List.find?_cons, hb]
        exact ih h
      · exact ih h

namespace Library

/-- The semantic types that completion looks at are built. -/
structure Built (l : Library) : Prop where
  declared : ∀ e ∈ l.types.decls, e.semanticType.Built
  automata : ∀ x ∈ l.automata, x.type.Built
  owners : ∀ f ∈ l.functions, f.owner.Built
  signatures : ∀ f ∈ l.functions, ∀ t ∈ f.signature, t.Built

/-- The default states are there, and the states of an automaton have different names. -/
theorem states_completed (states : List State) :
    ((firstsBy (·.name) (states ++ State.defaults)).map (·.name)).Nodup
      ∧ ∀ s ∈ State.defaults, ∃ s' ∈ firstsBy (·.name) (states ++ State.defaults),
          s'.name = s.name := by
  refine ⟨firstsBy_nodup _, fun s hs => ?_⟩
  have present : (firstsBy (·.name) (states ++ State.defaults)).any (·.name == s.name) = true :=
    any_foldl_keepFirst (.inr (List.mem_append_right states hs))
  obtain ⟨s', hs', same⟩ := List.any_eq_true.1 present
  exact ⟨s', hs', eq_of_beq same⟩

end Library

/-- What is guaranteed of the library extended by the additions. -/
structure Additions.Guarantees (c : Completion) (l : Library) (a : Additions) : Prop where
  /-- An added type is a composite type of a signature. -/
  used : ∀ e ∈ a.types,
    e.semanticType.isComplex = true ∧ ∃ f ∈ l.functions, e.semanticType ∈ f.signature
  absent : ∀ e ∈ a.types, l.types.contains e.semanticType = false
  distinct : a.types.Pairwise fun e e' => (e.semanticType == e'.semanticType) = false
  lookups : ∀ t e, l.types.get t = .ok e → (l.extended a).types.get t = .ok e
  complexDeclared : c.rules ≠ none → ∀ f ∈ l.functions, ∀ t ∈ f.signature, t.isComplex = true →
    (l.extended a).types.contains t = true
  arraysDeclared : c.arrayConversion ≠ none → ∀ f ∈ l.functions, ∀ x ∈ f.arguments,
    x.type.isArray = true → (l.extended a).types.contains x.type = true
  /-- An added function is builtin. -/
  builtin : ∃ added, (l.extended a).functions = l.functions ++ added
    ∧ (∀ f ∈ added, f.builtin = true)
    ∧ (∀ f ∈ l.functions, ∀ g ∈ added, f.owner = g.owner → f.name ≠ g.name)
    ∧ added.Pairwise fun f g => f.owner = g.owner → f.name ≠ g.name
  handlers : ∀ e ∈ (l.extended a).types.decls,
    e.semanticType.isArray = true ∨ e.semanticType.isPointer = true →
    ∃ first, (l.extended a).types.get e.semanticType = .ok first
      ∧ ∀ h ∈ FunctionSpec.handlerNames, ∃ f ∈ (l.extended a).functions,
          f.owner = e.semanticType ∧ f.name = h ++ "<" ++ first.codeType ++ ">"
  /-- An added automaton is that of an added type or of an owner. -/
  automata : ∀ t ∈ a.automata, (∀ x ∈ l.automata, x.type ≠ t)
    ∧ ((∃ e ∈ a.types, e.semanticType = t) ∨ ∃ f ∈ (l.extended a).functions, f.owner = t)
  automataDistinct : a.automata.Nodup
  owners : ∀ f ∈ (l.extended a).functions, ∃ x ∈ (l.extended a).automata, x.type = f.owner
  states : ∀ x ∈ (l.extended a).automata, (x.states.map (·.name)).Nodup
    ∧ ∀ s ∈ State.defaults, ∃ s' ∈ x.states, s'.name = s.name

namespace Additions.Sound

open Library Completion

variable {c : Completion} {l : Library} {a : Additions}

theorem absent (h : a.Sound c l) : ∀ e ∈ a.types, l.types.contains e.semanticType = false := by
  intro e he
  rw [contains_eq_any_map, List.any_eq_false]
  intro x hx
  rw [h.types.apart x hx _ (List.mem_map_of_mem he)]
  exact Bool.false_ne_true

theorem built_declared (h : a.Sound c l) (hl : l.Built) :
    ∀ e ∈ (l.extended a).types.decls, e.semanticType.Built := by
  intro e he
  rw [extended, TypeTable.decls_extend] at he
  rcases List.mem_append.1 he with he | he
  · exact hl.declared e he
  · obtain ⟨_, f, hf, ht⟩ := h.used e he
    exact hl.signatures f hf _ ht

theorem built_owner (h : a.Sound c l) (hl : l.Built) :
    ∀ f ∈ (l.extended a).functions, f.owner.Built := by
  intro f hf
  rcases h.of_mem_functions hf with hf | ⟨⟨e, he, same⟩, _⟩
  · exact hl.owners f hf
  · rw [← same]
    exact h.built_declared hl e he

/-- What is to have an automaton is added or an owner. -/
theorem of_mem_automata (h : a.Sound c l) (hl : l.Built) {t : SemanticType} (ht : t ∈ a.automata) :
    (∃ e ∈ a.types, e.semanticType = t) ∨ ∃ f ∈ (l.extended a).functions, f.owner = t := by
  rcases List.mem_append.1 (h.automata.asked t ht) with home | owner
  · obtain ⟨rules, ⟨f, hf, hft⟩, complex, undeclared⟩ := mem_homes home
    have wanted : t ∈ c.wantedComplex l ++ c.wantedArrays l :=
      List.mem_append_left _ (mem_wantedComplex.2 ⟨rules, ⟨f, hf, hft⟩, complex⟩)
    -- some type of this structure is declared, by the run if none was before, and it is this type
    obtain ⟨x, hx, same⟩ := h.types.complete t wanted
    rcases List.mem_append.1 hx with hx | hx
    · rw [contains_eq_any_map, List.any_eq_false] at undeclared
      exact absurd same (undeclared x hx)
    · obtain ⟨e, he, rfl⟩ := List.mem_map.1 hx
      obtain ⟨_, g, hg, heg⟩ := h.used e he
      exact .inl ⟨e, he, (hl.signatures g hg _ heg).eq_of_beq (hl.signatures f hf t hft) same⟩
  · obtain ⟨f, hf, rfl⟩ := List.mem_map.1 owner
    exact .inr ⟨f, hf, rfl⟩

theorem built_automata (h : a.Sound c l) (hl : l.Built) :
    ∀ x ∈ (l.extended a).automata, x.type.Built := by
  intro x hx
  rcases List.mem_append.1 hx with hx | hx
  · obtain ⟨y, hy, rfl⟩ := List.mem_map.1 hx
    exact hl.automata y hy
  · obtain ⟨t, ht, rfl⟩ := List.mem_map.1 hx
    rcases h.of_mem_automata hl ht with ⟨e, he, same⟩ | ⟨f, hf, same⟩
    · obtain ⟨_, f, hf, hs⟩ := h.used e he
      exact same ▸ hl.signatures f hf _ hs
    · exact same ▸ h.built_owner hl f hf

/-- The declaration that a lookup of an array or a pointer finds is handled. -/
theorem mem_handledDecls {l : Library} {first : TypeDecl}
    (found : l.types.get? first.semanticType = some first)
    (kind : first.semanticType.isArray = true ∨ first.semanticType.isPointer = true) :
    first ∈ l.handledDecls := by
  rw [TypeTable.get?_eq] at found
  refine mem_firstsBy_of_find? (find?_filter_of_find? found ?_)
  rw [Bool.or_eq_true]
  exact kind

/-- A lookup of a declared type answers a declaration of the type itself. -/
theorem exists_first (h : a.Sound c l) (hl : l.Built) {e : TypeDecl}
    (he : e ∈ (l.extended a).types.decls) :
    ∃ first, (l.extended a).types.get? e.semanticType = some first
      ∧ first.semanticType = e.semanticType := by
  have present : ((l.extended a).types.decls.find? (·.semanticType == e.semanticType)).isSome
      = true := by
    rw [List.isSome_find?, List.any_eq_true]
    exact ⟨e, he, BEq.rfl⟩
  obtain ⟨first, found⟩ := Option.isSome_iff_exists.1 present
  have built := h.built_declared hl
  have alike := List.find?_some found
  exact ⟨first, by rw [TypeTable.get?_eq, found],
    (built first (List.mem_of_find?_eq_some found)).eq_of_beq (built e he) alike⟩

theorem exists_handler (h : a.Sound c l) (hl : l.Built) {e : TypeDecl}
    (he : e ∈ (l.extended a).types.decls)
    (kind : e.semanticType.isArray = true ∨ e.semanticType.isPointer = true) :
    ∃ first, (l.extended a).types.get e.semanticType = .ok first
      ∧ ∀ name ∈ FunctionSpec.handlerNames, ∃ f ∈ (l.extended a).functions,
          f.owner = e.semanticType ∧ f.name = name ++ "<" ++ first.codeType ++ ">" := by
  obtain ⟨first, found, same⟩ := h.exists_first hl he
  refine ⟨first, by rw [TypeTable.get, found], fun name hname => ?_⟩
  -- the declaration that the lookup answers is the one that was kept to be handled
  have handled : first ∈ (l.extended a).handledDecls := by
    rw [← same] at found kind
    exact mem_handledDecls found kind
  have wanted : (e.semanticType, name ++ "<" ++ first.codeType ++ ">")
      ∈ (l.extended a).handlers := by
    rw [← same]
    exact List.mem_flatMap.2 ⟨first, handled, List.mem_map_of_mem hname⟩
  obtain ⟨f, hf, alike⟩ := List.any_eq_true.1 ((settled_extended h).handlers _ wanted)
  obtain ⟨owner, named⟩ := Bool.and_eq_true_iff.1 alike
  exact ⟨f, hf, (h.built_owner hl f hf).eq_of_beq (h.built_declared hl e he) owner,
    eq_of_beq named⟩

theorem exists_automaton (h : a.Sound c l) (hl : l.Built) {f : FunctionSpec}
    (hf : f ∈ (l.extended a).functions) : ∃ x ∈ (l.extended a).automata, x.type = f.owner := by
  obtain ⟨x, found⟩ := Option.isSome_iff_exists.1 ((settled_extended h).owners f hf)
  have hx := List.mem_of_find?_eq_some found
  have alike := List.find?_some found
  exact ⟨x, hx, (h.built_automata hl x hx).eq_of_beq (h.built_owner hl f hf) alike⟩

theorem states (l : Library) (a : Additions) : ∀ x ∈ (l.extended a).automata,
    (x.states.map (·.name)).Nodup
      ∧ ∀ s ∈ State.defaults, ∃ s' ∈ x.states, s'.name = s.name := by
  intro x hx
  rcases List.mem_append.1 hx with hx | hx
  · obtain ⟨y, _, rfl⟩ := List.mem_map.1 hx
    exact states_completed y.states
  · obtain ⟨t, _, rfl⟩ := List.mem_map.1 hx
    have completed := states_completed []
    rw [List.nil_append, firstsBy_defaults] at completed
    exact completed

/-- Different keys are different pairs of owner and name. -/
theorem ne_of_key {f g : FunctionSpec} (h : ((f.owner, f.name) == (g.owner, g.name)) = false) :
    f.owner = g.owner → f.name ≠ g.name := by
  intro owner name
  rw [owner, name, BEq.rfl] at h
  cases h

theorem builtin (h : a.Sound c l) : ∃ added, (l.extended a).functions = l.functions ++ added
    ∧ (∀ f ∈ added, f.builtin = true)
    ∧ (∀ f ∈ l.functions, ∀ g ∈ added, f.owner = g.owner → f.name ≠ g.name)
    ∧ added.Pairwise fun f g => f.owner = g.owner → f.name ≠ g.name := by
  refine ⟨a.handlers.map fun h => .synthetic h.1 h.2, rfl, ?_, ?_, ?_⟩
  · intro f hf
    obtain ⟨x, _, rfl⟩ := List.mem_map.1 hf
    rfl
  · intro f hf g hg
    obtain ⟨x, hx, rfl⟩ := List.mem_map.1 hg
    exact ne_of_key (h.handlers.apart _ (List.mem_map_of_mem hf) x hx)
  · rw [List.pairwise_map]
    exact h.handlers.distinct.imp fun different => ne_of_key different

end Additions.Sound

namespace Completion

open Library Grammar

/-- A run that succeeds answers the library with additions, and guarantees what it should. -/
theorem run_guarantees {c : Completion} {l d : Library} (hl : l.Built) (h : c.run l = .ok d) :
    ∃ a : Additions, d = l.extended a ∧ a.Guarantees c l := by
  obtain ⟨a, extended, sound⟩ := exists_additions h
  refine ⟨a, extended, ?_⟩
  exact {
    used := sound.used
    absent := sound.absent
    distinct := List.pairwise_map.1 sound.types.distinct
    lookups := fun _ _ found => TypeTable.get_extend found a.types
    complexDeclared := fun rules f hf =>
      (settled_extended sound).complex rules f (List.mem_append_left _ hf)
    arraysDeclared := fun conversion f hf =>
      arraysDeclared_iff.1 ((settled_extended sound).arrays conversion) f
        (List.mem_append_left _ hf)
    builtin := sound.builtin
    handlers := fun e he kind => sound.exists_handler hl he kind
    automata := fun t ht => by
      refine ⟨fun x hx same => ?_, sound.of_mem_automata hl ht⟩
      have different := sound.automata.apart _ (List.mem_map_of_mem hx) t ht
      rw [same, BEq.rfl] at different
      cases different
    automataDistinct := sound.automata.distinct.imp fun different same => by
      rw [same, BEq.rfl] at different
      cases different
    owners := fun f hf => sound.exists_automaton hl hf
    states := Additions.Sound.states l a }

theorem built_byteWriter : byteWriter.Built where
  declared := List.forall_mem_singleton.2 (.simple (by decide : IsName "Byte"))
  automata := fun _ hx => by cases hx
  owners := List.forall_mem_singleton.2 (.simple (by decide : IsName "File"))
  signatures := List.forall_mem_singleton.2
    (List.forall_mem_singleton.2 (.array (.simple (by decide : IsName "Byte"))))

theorem run_guarantees_byteWriter :
    run ⟨some (.ofList [("[]", "{}[]")]), none⟩ byteWriter = .ok completedByteWriter
      ∧ byteWriter.Built
      ∧ ∃ a : Additions, completedByteWriter = byteWriter.extended a
        ∧ a.Guarantees ⟨some (.ofList [("[]", "{}[]")]), none⟩ byteWriter :=
  ⟨rfl, built_byteWriter, run_guarantees (l := byteWriter) built_byteWriter rfl⟩

end Completion
end LibrarySpec
