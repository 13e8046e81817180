/-
  A completed library, printed and completed again.

  The canonical text leaves out what completion made up: the builtin functions, the functions of the
  automata and the order in which final states stand among the others.  What it keeps is enough to
  make all of it again.

    1. A completed library is written (`written_extended`).  Completion makes up no semantic type: what
       it declares stands in a signature, a builtin function is owned by a declared type, a fresh
       automaton has a type of a signature or of an owner.  It does make up code types, and they are
       written if the types section reads them back (`ReadsBack`).
    2. The builtin functions depend on the declared types and the declared functions only
       (`functions_of_run`), so they come back in the same order.
    3. The default states stay apart and present when the states are grouped
       (`firstsBy_append_eq_self_iff`), so none is added a second time.

  Main statement: `run_reparsed`.
-/
import LibrarySpec.Proofs.Completion.Rerun
import LibrarySpec.Proofs.Printing.Libraries

namespace LibrarySpec

open Grammar

/-! ## Code types -/

/-- The text of a library with one type declaration, of this code type. -/
def codeSource (code : String) : String :=
  "library l;\n\ntypes \x7b\n    X (" ++ code ++ ");\n\x7d\n"

/-- The types section reads the code type back. -/
def ReadsBack (code : String) : Prop :=
  (Library.parse (codeSource code)).toOption.map (·.types.decls) = some [⟨.simple "X", code⟩]

instance (code : String) : Decidable (ReadsBack code) := inferInstanceAs (Decidable (_ = _))

/-- What the types section reads back is verbatim text. -/
theorem verbatim_of_readsBack {code : String} (h : ReadsBack code) :
    Verbatim .closeParen code := by
  unfold ReadsBack at h
  cases hp : Library.parse (codeSource code) with
  | error fault =>
    rw [hp] at h
    cases h
  | ok l =>
    rw [hp] at h
    obtain ⟨s, rfl, admissible, legible⟩ := Library.exists_of_parse hp
    have decls : s.types.map DeclarationNode.decl = [⟨.simple "X", code⟩] := by
      rw [← TypeTable.decls_ofList (s.types.map DeclarationNode.decl)]
      exact Option.some.inj h
    obtain ⟨n, hn, same⟩ : ∃ n ∈ s.types, n.decl = ⟨.simple "X", code⟩ :=
      List.mem_map.1 (decls ▸ List.mem_singleton_self _)
    simp only [Specification.leaves, List.cons_append, List.append_assoc, legibleLeaves_cons,
      legibleLeaves_append] at legible
    obtain ⟨_, _, _, _, _, _, _, types, _⟩ := legible
    have written := DeclarationNode.written (admissible.types n hn) (types.of_flatMap hn)
    rw [same] at written
    exact written.code

/-! ## Written automata -/

namespace Automaton

theorem isName_default : ∀ s ∈ State.defaults, IsName s.name := by decide

/-- The default states and other functions keep the automaton written. -/
theorem Written.completed {a : Automaton} (h : a.Written) (functions : List FunctionSpec) :
    { a with
      states := firstsBy (·.name) (a.states ++ State.defaults)
      functions := functions }.Written where
  type := h.type
  package := h.package
  states := fun s hs =>
    (List.mem_append.1 (mem_of_mem_firstsBy hs)).elim (h.states s) (isName_default s)
  shifts := h.shifts
  vars := h.vars

theorem written_freshAutomaton {t : SemanticType} (h : t.Written) :
    (Library.freshAutomaton t).Written where
  type := h
  package := fun _ hname => by cases hname
  states := isName_default
  shifts := fun _ hs => by cases hs
  vars := fun _ hv => by cases hv

end Automaton

/-! ## Written additions -/

namespace Additions.Sound

open Library Completion

variable {c : Completion} {l : Library} {a : Additions}

theorem declared_written (h : a.Sound c l) (hl : l.Written)
    (declared : ∀ f ∈ l.functions, f.builtin = false) :
    ∀ e ∈ (l.extended a).types.decls, e.semanticType.Written := by
  intro e he
  rw [extended, TypeTable.decls_extend] at he
  rcases List.mem_append.1 he with he | he
  · exact (hl.types e he).type
  · obtain ⟨_, f, hf, ht⟩ := h.used e he
    exact (hl.functions f hf (declared f hf)).signature_written _ ht

theorem automaton_written (h : a.Sound c l) (hl : l.Written)
    (declared : ∀ f ∈ l.functions, f.builtin = false) : ∀ t ∈ a.automata, t.Written := by
  intro t ht
  rcases List.mem_append.1 (h.automata.asked t ht) with home | owner
  · obtain ⟨_, ⟨f, hf, ht⟩, _⟩ := mem_homes home
    exact (hl.functions f hf (declared f hf)).signature_written t ht
  · obtain ⟨f, hf, rfl⟩ := List.mem_map.1 owner
    rcases h.of_mem_functions hf with hf | ⟨⟨e, he, same⟩, _⟩
    · exact (hl.functions f hf (declared f hf)).owner_written
    · rw [← same]
      exact h.declared_written hl declared e he

end Additions.Sound

namespace Library

/-- The declared functions of an extended library are those of the library. -/
theorem declared_extended {l : Library} (declared : ∀ f ∈ l.functions, f.builtin = false)
    (a : Additions) : (l.extended a).functions.filter (fun f => !f.builtin) = l.functions := by
  have old : l.functions.filter (fun f => !f.builtin) = l.functions :=
    List.filter_eq_self.2 fun f hf => by simp [declared f hf]
  have added : (a.handlers.map fun h => FunctionSpec.synthetic h.1 h.2).filter
      (fun f => !f.builtin) = [] := by
    refine List.filter_eq_nil_iff.2 fun f hf => ?_
    obtain ⟨h, _, rfl⟩ := List.mem_map.1 hf
    exact Bool.false_ne_true
  rw [extended, List.filter_append, old, added, List.append_nil]

/-- A completed library is written if the code types made up are. -/
theorem written_extended {c : Completion} {l : Library} {a : Additions} (hl : l.Written)
    (declared : ∀ f ∈ l.functions, f.builtin = false) (h : a.Sound c l)
    (codes : ∀ e ∈ a.types, Verbatim .closeParen e.codeType) : (l.extended a).Written where
  name := hl.name
  imports := hl.imports
  includes := hl.includes
  types := fun e he => by
    refine ⟨h.declared_written hl declared e he, ?_⟩
    rw [extended, TypeTable.decls_extend] at he
    exact (List.mem_append.1 he).elim (fun he => (hl.types e he).code) (codes e)
  automata := fun x hx => by
    rcases List.mem_append.1 hx with hx | hx
    · obtain ⟨y, hy, rfl⟩ := List.mem_map.1 hx
      exact (hl.automata y hy).completed _
    · obtain ⟨t, ht, rfl⟩ := List.mem_map.1 hx
      exact Automaton.written_freshAutomaton (h.automaton_written hl declared t ht)
  converters := hl.converters
  functions := fun f hf visible => by
    have mem : f ∈ (l.extended a).functions.filter (fun f => !f.builtin) :=
      List.mem_filter.2 ⟨hf, by rw [visible]; rfl⟩
    rw [declared_extended declared] at mem
    exact hl.functions f mem visible

end Library

/-! ## Grouped states -/

namespace Automaton

theorem grouped_perm (states : List State) : (grouped states).Perm states := by
  have finals : states.filter (·.isFinal) = states.filter fun s => !!s.isFinal :=
    List.filter_congr fun s _ => (Bool.not_not s.isFinal).symm
  rw [grouped, finals]
  exact List.filter_append_perm (fun s => !s.isFinal) states

/-- Grouping keeps the default states present and the names apart. -/
theorem firstsBy_grouped {states : List State}
    (h : firstsBy (·.name) (states ++ State.defaults) = states) :
    firstsBy (·.name) (grouped states ++ State.defaults) = grouped states := by
  obtain ⟨distinct, present⟩ := firstsBy_append_eq_self_iff.1 h
  refine firstsBy_append_eq_self_iff.2 ⟨?_, fun s hs => ?_⟩
  · refine (List.Perm.pairwise_iff ?_ (grouped_perm states)).2 distinct
    intro a b different
    rw [BEq.comm]
    exact different
  · obtain ⟨s', hs', same⟩ := List.any_eq_true.1 (present s hs)
    exact List.any_eq_true.2 ⟨s', (grouped_perm states).mem_iff.2 hs', same⟩

theorem filter_grouped (states : List State) :
    (grouped states).filter (fun s => !s.isFinal) = states.filter (fun s => !s.isFinal)
      ∧ (grouped states).filter (·.isFinal) = states.filter (·.isFinal) := by
  simp [grouped, List.filter_append, List.filter_filter]

/-- Neither the order among the groups nor the functions show in the text. -/
theorem print_grouped (a : Automaton) (functions : List FunctionSpec) :
    { a with states := grouped a.states, functions := functions }.print = a.print := by
  obtain ⟨plain, finals⟩ := filter_grouped a.states
  simp only [print, printItems, printStates, plain, finals]

end Automaton

namespace Library

/-- The library with the states of its automata grouped, and of its functions only the declared ones
    associated. -/
def regrouped (l : Library) : Library :=
  { l with
    automata := l.automata.map fun a => { a with
      states := Automaton.grouped a.states
      functions := (l.functions.filter fun f => !f.builtin).filter (·.owner == a.type) } }

theorem print_regrouped (l : Library) : l.regrouped.print = l.print := by
  have automata : l.regrouped.automata.map (fun a => "\n" ++ a.print)
      = l.automata.map fun a => "\n" ++ a.print := by
    rw [regrouped, List.map_map]
    refine List.map_congr_left fun a _ => ?_
    exact congrArg ("\n" ++ ·) (a.print_grouped _)
  simp only [print, automata]
  rfl

end Library

/-! ## Completing again -/

namespace Completion

open Library

/-- The functions of a completed library follow from its types and the functions declared. -/
theorem functions_of_run {c : Completion} {l d : Library} (h : c.run l = .ok d) :
    d.functions = d.handlers.foldl (fun functions x => addHandler functions x.1 x.2)
      l.functions := by
  obtain ⟨l₁, l₂, hc, ha, rfl⟩ := run_eq_ok.1 h
  obtain ⟨missing, automata, -⟩ := addMissingAutomata_eq_fresh l₂.addHandlers.addDefaultStates
  obtain ⟨_, -, _, -, rfl⟩ := declareComplexTypes_eq_ok hc
  obtain ⟨_, -, rfl⟩ := declareArrayTypes_eq_ok ha
  rw [automata]
  rfl

/-- What the text of a completed library says is completed to the same library, its states grouped. -/
theorem run_reparsed_of_declared {c : Completion} {l d : Library} (h : c.run l = .ok d)
    (declared : ∀ f ∈ l.functions, f.builtin = false) : c.run d.reparsed = .ok d.regrouped := by
  obtain ⟨a, extended, -⟩ := exists_additions h
  have settled := settled_of_run h
  have functions : d.reparsed.functions = l.functions := by
    rw [extended]
    exact declared_extended declared a
  have behind : d.functions = d.reparsed.functions ++ a.handlers.map fun x => .synthetic x.1 x.2 := by
    rw [functions, extended]
    rfl
  -- the builtin functions ask for no type
  have complex : c.rules ≠ none → d.reparsed.ComplexDeclared := fun rules f hf =>
    settled.complex rules f (List.mem_filter.1 hf).1
  have arrays : c.arrayConversion ≠ none → d.reparsed.ArraysDeclared := fun conversion =>
    arraysDeclared_iff.2 fun f hf =>
      arraysDeclared_iff.1 (settled.arrays conversion) f (List.mem_filter.1 hf).1
  have handled : d.reparsed.associate.addHandlers = d.regrouped := by
    have again : d.handlers.foldl (fun functions x => addHandler functions x.1 x.2)
        d.reparsed.functions = d.functions := by
      rw [functions, ← functions_of_run h]
    have added : d.reparsed.associate.addHandlers
        = { d.reparsed.associate with functions := d.functions } := by
      rw [addHandlers_eq, ← again]
      rfl
    rw [added, associate, reparsed, regrouped, List.map_map]
    rfl
  have states : d.regrouped.StatesDefault := by
    intro x hx
    obtain ⟨y, hy, rfl⟩ := List.mem_map.1 hx
    exact Automaton.firstsBy_grouped (settled.states y hy)
  have owners : d.regrouped.OwnersHaveAutomata := by
    intro f hf
    have owner := settled.owners f hf
    rw [automaton?, List.isSome_find?] at owner ⊢
    rw [regrouped, List.any_map]
    exact owner
  rw [run_of_declared complex arrays, handled, addDefaultStates_eq_self states,
    addMissingAutomata_eq_self owners]

/-- A completed library is parsed from its text as far as the text goes, completing that again gives
    the library with its states grouped, and that prints as the same text. -/
theorem run_reparsed {c : Completion} {source : String} {l d : Library}
    (hl : parse source = .ok l) (finite : l.Finite) (h : c.run l = .ok d)
    (codes : c.rules ≠ none ∨ c.arrayConversion ≠ none →
      ∀ e ∈ d.types.decls, ReadsBack e.codeType) :
    parse d.print = .ok d.reparsed
      ∧ c.run d.reparsed = .ok d.regrouped
      ∧ d.regrouped.print = d.print := by
  obtain ⟨written, same⟩ := written_of_parse hl finite
  have declared := declared_of_reparsed same
  obtain ⟨a, extended, sound⟩ := exists_additions h
  have verbatim : ∀ e ∈ a.types, Verbatim .closeParen e.codeType := by
    intro e he
    have configured : c.rules ≠ none ∨ c.arrayConversion ≠ none := by
      rcases List.mem_append.1 (sound.types.asked _ (List.mem_map_of_mem he)) with wanted | wanted
      · exact .inl (mem_wantedComplex.1 wanted).1
      · exact .inr (mem_wantedArrays.1 wanted).1
    refine verbatim_of_readsBack (codes configured e ?_)
    rw [extended, Library.extended, TypeTable.decls_extend]
    exact List.mem_append_right _ he
  refine ⟨parse_print_of_written ?_, run_reparsed_of_declared h declared, print_regrouped d⟩
  rw [extended]
  exact written_extended written declared sound verbatim

/-- A source with an undeclared array type and a final state in front of another. -/
def fileSource : String :=
  "library files;types\x7bByte(u8);\x7dautomaton File\x7bfinishstate Gone;states Open;\x7d"
    ++ "File write(data:Byte[])\x7b\x7d"

theorem run_reparsed_fileSource :
    ∃ l d, parse fileSource = .ok l ∧ l.Finite
      ∧ run ⟨some (.ofList [("[]", "{}[]")]), none⟩ l = .ok d
      ∧ (∀ e ∈ d.types.decls, ReadsBack e.codeType) ∧ d.types.size = 2 ∧ d.reparsed ≠ d
      ∧ parse d.print = .ok d.reparsed
      ∧ run ⟨some (.ofList [("[]", "{}[]")]), none⟩ d.reparsed = .ok d.regrouped
      ∧ d.regrouped.print = d.print := by
  have checked : ((parse fileSource).toOption.any fun l => decide l.Finite
      && (run ⟨some (.ofList [("[]", "{}[]")]), none⟩ l).toOption.any fun d => decide
        ((∀ e ∈ d.types.decls, ReadsBack e.codeType) ∧ d.types.size = 2
          ∧ (d.reparsed.functions.length ≠ d.functions.length))) = true := by
    decide +kernel
  cases hl : parse fileSource with
  | error fault =>
    rw [hl] at checked
    cases checked
  | ok l =>
    rw [hl] at checked
    obtain ⟨finite, checked⟩ := Bool.and_eq_true_iff.1 checked
    have finite := of_decide_eq_true finite
    cases h : run ⟨some (.ofList [("[]", "{}[]")]), none⟩ l with
    | error fault =>
      rw [h] at checked
      cases checked
    | ok d =>
      rw [h] at checked
      obtain ⟨codes, size, builtin⟩ := of_decide_eq_true checked
      refine ⟨l, d, rfl, finite, h, codes, size, fun same => builtin (by rw [same]), ?_⟩
      exact run_reparsed hl finite h fun _ => codes

end Completion
end LibrarySpec
