/-
  Libraries read back from their documents.

  The document of a library loses nothing: reading it answers the library, part by part the same.
  There is one lemma for each kind of record, `ofJson?_toJson`.  Nothing is asked of names, and a
  composite type keeps the text it is displayed by, so the lemma for semantic types has no condition.
  Numbers are the one place where something could be lost: an infinity has no written form.

    1. The documents of nodes inside a contract are read back by induction over the node, one case
       for each constructor, with the lists of nodes taken along.  The names in a document are known,
       so its reader comes down to those of the parts; `show` says which, in what order.
    2. The positions of a type table are no part of its document; they follow from the declarations.

  Main statement: `ofJson?_toJson_of_expressible`.
-/
import LibrarySpec.Library.Json
import LibrarySpec.Proofs.Json.Records
import LibrarySpec.Proofs.Printing.Functions

namespace LibrarySpec

open Json (list?_map optional?_ofOption)
open Grammar (AllFinite allFinite_append)

/-! ## Semantic types and tables -/

@[simp] theorem SemanticType.read?_toJson (t : SemanticType) (numbered : Bool) :
    SemanticType.read? numbered t.toJson = some t := by
  induction t generalizing numbered with
  | simple name =>
    rw [read?]
    simp [toJson, kind?]
  | complex display enclosing inner ihe ihi =>
    rw [read?]
    simp [toJson, kind?, ihe, ihi]

@[simp] theorem SemanticType.ofJson?_toJson (t : SemanticType) : ofJson? t.toJson = some t :=
  t.read?_toJson false

theorem TypeDecl.ofJson?_toJson (d : TypeDecl) : ofJson? d.toJson = some d := by
  simp [ofJson?, toJson]

@[simp] theorem TypeTable.ofJson?_toJson (table : TypeTable) : ofJson? table.toJson = some table := by
  have decls := list?_map fun d (_ : d ∈ table.decls) => d.ofJson?_toJson
  rw [ofJson?, toJson, decls]
  exact congrArg some (eq_of_decls_eq (decls_ofList table.decls))

/-! ## Contracts -/

@[simp] theorem Comparison.ofJson?_word (c : Comparison) : ofJson? (.string c.word) = some c := by
  cases c <;> rfl

/-- A number that is no infinity keeps its kind and its value. -/
theorem Number.ofJson?_toJson {n : Number} (h : n.Finite) : ofJson? n.toJson = some n := by
  cases n with
  | int value =>
    have range : Int64.minValue.toInt ≤ value.toInt ∧ value.toInt ≤ Int64.maxValue.toInt :=
      ⟨Int64.minValue_le_toInt value, Int64.toInt_le value⟩
    rw [toJson, ofJson?, if_pos range, Int64.ofInt_toInt]
  | float value =>
    have finite : value.isInfinite = false := h
    rw [toJson, finite]
    rfl

mutual

theorem Contract.ofJson?_toJson (c : Contract) (h : AllFinite c.numbers) :
    Contract.ofJson? c.toJson = some c := by
  cases c with
  | all clauses =>
    rw [Contract.toJson, Contract.ofJson?]
    show ((Json.array (Clause.toJsonList clauses)).items? >>= fun items =>
      (items.mapM fun item => Clause.ofJson? item.1) >>= fun cs => some (Contract.all cs)) = _
    rw [Json.bind_items?, Clause.mapM_toJsonList clauses h]
    rfl

theorem Clause.mapM_toJsonList (clauses : List Clause)
    (h : AllFinite (Clause.numbersList clauses)) :
    (Clause.toJsonList clauses).mapM Clause.ofJson? = some clauses := by
  cases clauses with
  | nil => rfl
  | cons c rest =>
    obtain ⟨first, others⟩ := (allFinite_append _ _).1 h
    rw [Clause.toJsonList, List.mapM_cons, Clause.ofJson?_toJson c first,
      Clause.mapM_toJsonList rest others]
    rfl

theorem Clause.ofJson?_toJson (c : Clause) (h : AllFinite c.numbers) :
    Clause.ofJson? c.toJson = some c := by
  cases c with
  | any terms inverted =>
    rw [Clause.toJson, Clause.ofJson?]
    show ((Json.array (Term.toJsonList terms)).items? >>= fun items =>
      (items.mapM fun item => Term.ofJson? item.1) >>= fun ts => some (Clause.any ts inverted)) = _
    rw [Json.bind_items?, Term.mapM_toJsonList terms h]
    rfl

theorem Term.mapM_toJsonList (terms : List Term) (h : AllFinite (Term.numbersList terms)) :
    (Term.toJsonList terms).mapM Term.ofJson? = some terms := by
  cases terms with
  | nil => rfl
  | cons t rest =>
    obtain ⟨first, others⟩ := (allFinite_append _ _).1 h
    rw [Term.toJsonList, List.mapM_cons, Term.ofJson?_toJson t first,
      Term.mapM_toJsonList rest others]
    rfl

theorem Term.ofJson?_toJson (t : Term) (h : AllFinite t.numbers) :
    Term.ofJson? t.toJson = some t := by
  cases t with
  | comparison left sign right inverted =>
    obtain ⟨finite, finite'⟩ := (allFinite_append _ _).1 h
    rw [Term.toJson, Term.ofJson?]
    show (Comparison.ofJson? (.string sign.word) >>= fun s => Operand.ofJson? left.toJson >>= fun l =>
      Operand.ofJson? right.toJson >>= fun r => some (Term.comparison l s r inverted)) = _
    rw [Comparison.ofJson?_word, Operand.ofJson?_toJson left finite,
      Operand.ofJson?_toJson right finite']
    rfl
  | lone operand inverted =>
    rw [Term.toJson, Term.ofJson?]
    show (Operand.ofJson? operand.toJson >>= fun o => some (Term.lone o inverted)) = _
    rw [Operand.ofJson?_toJson operand h]
    rfl

theorem Operand.ofJson?_toJson (o : Operand) (h : AllFinite o.numbers) :
    Operand.ofJson? o.toJson = some o := by
  cases o with
  | arithmetic value =>
    rw [Operand.toJson, Operand.ofJson?]
    show (Arithmetic.ofJson? value.toJson >>= fun a => some (Operand.arithmetic a)) = _
    rw [Arithmetic.ofJson?_toJson value h]
    rfl
  | text value =>
    rw [Operand.toJson, Operand.ofJson?]
    rfl
  | group contract =>
    rw [Operand.toJson, Operand.ofJson?]
    show (Contract.ofJson? contract.toJson >>= fun c => some (Operand.group c)) = _
    rw [Contract.ofJson?_toJson contract h]
    rfl

theorem Operand.mapM_toJsonList (operands : List Operand)
    (h : AllFinite (Operand.numbersList operands)) :
    (Operand.toJsonList operands).mapM Operand.ofJson? = some operands := by
  cases operands with
  | nil => rfl
  | cons o rest =>
    obtain ⟨first, others⟩ := (allFinite_append _ _).1 h
    rw [Operand.toJsonList, List.mapM_cons, Operand.ofJson?_toJson o first,
      Operand.mapM_toJsonList rest others]
    rfl

theorem Arithmetic.ofJson?_toJson (a : Arithmetic) (h : AllFinite a.numbers) :
    Arithmetic.ofJson? a.toJson = some a := by
  cases a with
  | variableName name =>
    rw [Arithmetic.toJson, Arithmetic.ofJson?]
    rfl
  | call name arguments =>
    rw [Arithmetic.toJson, Arithmetic.ofJson?]
    show ((Json.array (Operand.toJsonList arguments)).items? >>= fun items =>
      (items.mapM fun item => Operand.ofJson? item.1) >>= fun os =>
        some (Arithmetic.call name os)) = _
    rw [Json.bind_items?, Operand.mapM_toJsonList arguments h]
    rfl
  | number value =>
    have finite : value.Finite := h value (List.mem_singleton_self value)
    rw [Arithmetic.toJson, Arithmetic.ofJson?]
    show (Number.ofJson? value.toJson >>= fun n => some (Arithmetic.number n)) = _
    rw [Number.ofJson?_toJson finite]
    rfl
  | binary operator left right =>
    obtain ⟨finite, finite'⟩ := (allFinite_append _ _).1 h
    have parts : ∀ operator, (Arithmetic.ofJson? left.toJson >>= fun l =>
        Arithmetic.ofJson? right.toJson >>= fun r => some (Arithmetic.binary operator l r))
          = some (.binary operator left right) := by
      intro operator
      rw [Arithmetic.ofJson?_toJson left finite, Arithmetic.ofJson?_toJson right finite']
      rfl
    rw [Arithmetic.toJson, Arithmetic.ofJson?]
    -- no word of an operator is that of another kind of node
    cases operator with
    | times => exact parts .times
    | divide => exact parts .divide
    | plus => exact parts .plus
    | minus => exact parts .minus

end

/-- Contracts are read back, present or absent. -/
theorem Contracts.ofJson?_toJson {c : Contracts} (h : ∀ k ∈ c.requires, k.Finite)
    (h' : ∀ k ∈ c.ensures, k.Finite) : ofJson? c.toJson = some c := by
  have visible : ∀ k : Contract, k.toJson ≠ .null := fun k => by
    cases k
    simp [Contract.toJson]
  have requires := optional?_ofOption (fun k hk => k.ofJson?_toJson (h k hk)) visible
  have ensures := optional?_ofOption (fun k hk => k.ofJson?_toJson (h' k hk)) visible
  simp [ofJson?, toJson, requires, ensures]

/-! ## Functions -/

@[simp] theorem Ownership.ofJson?_word (o : Ownership) : ofJson? (.string o.word) = some o := by
  cases o <;> rfl

theorem Argument.ofJson?_toJson (a : Argument) : ofJson? a.toJson = some a := by
  simp [ofJson?, toJson]

theorem Result.ofJson?_toJson (r : Result) : ofJson? r.toJson = some r := by
  simp [ofJson?, toJson]

theorem Action.ofJson?_toJson (a : Action) : ofJson? a.toJson = some a := by
  simp [ofJson?, toJson]

theorem Property.ofJson?_toJson (p : Property) : ofJson? p.toJson = some p := by
  simp [ofJson?, toJson]

theorem Assignment.ofJson?_toJson (a : Assignment) : ofJson? a.toJson = some a := by
  simp [ofJson?, toJson]

/-- An optional name, written as a record of its own. -/
theorem optional?_ofName (key : String) (name : Option String) :
    Json.optional? (·.only? key Json.string?)
      (some (Json.ofOption (fun name => .object [(key, .string name)]) name)) = some name :=
  optional?_ofOption (fun _ _ => by simp) fun _ => by simp

theorem FunctionSpec.ofJson?_toJson {f : FunctionSpec} (h : f.Finite) :
    ofJson? f.toJson = some f := by
  have owner : ownerOfJson? (.object [("entity_type", f.owner.toJson),
      ("style", .string f.ownership.word)]) = some (f.owner, f.ownership) := by
    simp [ownerOfJson?]
  have arguments := list?_map fun a (_ : a ∈ f.arguments) => a.ofJson?_toJson
  have actions := list?_map fun a (_ : a ∈ f.actions) => a.ofJson?_toJson
  have result := optional?_ofOption (fun r (_ : r ∈ f.result) => r.ofJson?_toJson)
    fun r => by simp [Result.toJson]
  have properties := list?_map fun p (_ : p ∈ f.properties) => p.ofJson?_toJson
  have assignments := list?_map fun a (_ : a ∈ f.assignments) => a.ofJson?_toJson
  simp [ofJson?, toJson, owner, arguments, actions, result, optional?_ofName, properties,
    assignments, Contracts.ofJson?_toJson h.1 h.2]

/-! ## Automata -/

theorem State.ofJson?_toJson (s : State) : ofJson? s.toJson = some s := by
  simp [ofJson?, toJson]

theorem Shift.ofJson?_toJson (s : Shift) : ofJson? s.toJson = some s := by
  simp [ofJson?, toJson]

theorem Variable.ofJson?_toJson (v : Variable) : ofJson? v.toJson = some v := by
  simp [ofJson?, toJson]

theorem Automaton.ofJson?_toJson {a : Automaton} (h : ∀ f ∈ a.functions, f.Finite) :
    ofJson? a.toJson = some a := by
  have states := list?_map fun s (_ : s ∈ a.states) => s.ofJson?_toJson
  have shifts := list?_map fun s (_ : s ∈ a.shifts) => s.ofJson?_toJson
  have vars := list?_map fun v (_ : v ∈ a.vars) => v.ofJson?_toJson
  have functions := list?_map fun f hf => FunctionSpec.ofJson?_toJson (h f hf)
  simp [ofJson?, toJson, optional?_ofName, states, shifts, vars, functions]

/-! ## Libraries -/

theorem Converter.ofJson?_toJson (c : Converter) : ofJson? c.toJson = some c := by
  simp [ofJson?, toJson]

namespace Library

/-- No number in a contract is an infinity, in the functions of automata neither. -/
structure Expressible (l : Library) : Prop where
  functions : ∀ f ∈ l.functions, f.Finite
  automata : ∀ a ∈ l.automata, ∀ f ∈ a.functions, f.Finite

/-- A library without infinite numbers is read back from its document, every part of it. -/
theorem ofJson?_toJson_of_expressible {l : Library} (h : l.Expressible) :
    ofJson? l.toJson = some l := by
  have automata := list?_map fun a ha => Automaton.ofJson?_toJson (h.automata a ha)
  have converters := list?_map fun c (_ : c ∈ l.converters) => c.ofJson?_toJson
  have functions := list?_map fun f hf => FunctionSpec.ofJson?_toJson (h.functions f hf)
  simp [ofJson?, toJson, automata, converters, functions]

/-- A library with a type displayed by a text of its own, and with one number in two kinds. -/
def measures : Library where
  name := "measures"
  imports := []
  includes := []
  automata := [.bare (.complex "many" (.simple "[]") (.simple "Int"))]
  types := .ofList [⟨.complex "many" (.simple "[]") (.simple "Int"), "int[]"⟩]
  converters := []
  functions := [{ FunctionSpec.synthetic (.simple "Scale") "weigh" with
    staticName := some ""
    contracts := ⟨some (.all [.any [.comparison (.arithmetic (.number (.int 1))) .equal
      (.arithmetic (.number (.float (.ofQuotient false 1 1)))) false] false]), none⟩ }]

theorem expressible_measures : measures.Expressible := ⟨by decide +kernel, by decide⟩

theorem ofJson?_toJson_measures : measures.Expressible ∧ ofJson? measures.toJson = some measures :=
  ⟨expressible_measures, ofJson?_toJson_of_expressible expressible_measures⟩

end Library
end LibrarySpec
