/-
  Printed functions, scanned again.

  A function prints its head in the order of the grammar and its parts kind by kind
  (`FunctionSpec.parts`).  Sorting the parts gives the function back (`ofParts_parts`), for within a
  kind they keep their order.  The owner stands in the text only if it was named explicitly;
  otherwise it is found again from the one argument annotated as the handle.

  Of a contract it is said that it is written (`Contract.Written`), as of a type: its text is that of
  some tree with this meaning.
-/
import LibrarySpec.Proofs.Printing.Automata
import LibrarySpec.Proofs.Printing.Contracts

namespace LibrarySpec

open Grammar

/-! ## Contracts -/

/-- The text of the contract is that of a tree with this meaning. -/
def Contract.Written (c : Contract) : Prop :=
  ∃ k : Conjunction, k.contract = c ∧ Prints c.print k.leaves

theorem Grammar.Conjunction.written {k : Conjunction} (h : LegibleLeaves k.leaves)
    (finite : k.contract.Finite) : k.contract.Written := by
  have legible : AllLegible k.tokens := fun t ht => h _ (List.mem_map_of_mem ht)
  obtain ⟨k', same, prints, _⟩ := k.printed legible finite
  exact ⟨k', same, prints⟩

namespace FunctionSpec

/-! ## Annotations, arguments and results -/

theorem prints_annotations {marks : List String} (h : ∀ mark ∈ marks, IsName mark) {b : String}
    {more : List Leaf} (hb : Prints b more) :
    Prints (printAnnotations marks ++ b) (markLeaves marks ++ more) := by
  induction marks with
  | nil =>
    rw [printAnnotations, List.map_nil, String.join_nil, String.empty_append]
    exact hb
  | cons mark marks ih =>
    obtain ⟨first, h⟩ := List.forall_mem_cons.1 h
    have text : printAnnotations (mark :: marks) ++ b
        = "@" ++ (mark ++ (" " ++ (printAnnotations marks ++ b))) := by
      simp only [printAnnotations, List.map_cons, String.join_cons, String.append_assoc]
    rw [text]
    exact ((prints_name first).append (neutral_text _) (ih h).spaced).behind .atSign

theorem isName_of_marks {marks : List String} (h : LegibleLeaves (markLeaves marks)) :
    ∀ mark ∈ marks, IsName mark := by
  intro mark hmark
  have leaves := h.of_flatMap hmark
  rw [legibleLeaves_cons, legibleLeaves_cons] at leaves
  exact isName_of_legible leaves.2.1

end FunctionSpec

/-- The parts of the argument are written. -/
structure Argument.Written (a : Argument) : Prop where
  annotations : ∀ mark ∈ a.annotations, IsName mark
  name : IsName a.name
  type : a.type.Written

theorem Grammar.ArgumentNode.written {n : ArgumentNode} (h : LegibleLeaves n.leaves) :
    n.argument.Written := by
  simp only [ArgumentNode.leaves, legibleLeaves_append, legibleLeaves_cons] at h
  exact ⟨FunctionSpec.isName_of_marks h.1, isName_of_legible h.2.1, TypeNode.written h.2.2.2⟩

theorem Argument.Written.exists_node {a : Argument} (h : a.Written) :
    ∃ n : ArgumentNode, n.argument = a ∧ Prints (FunctionSpec.printArgument a) n.leaves := by
  obtain ⟨t, htype, printsType⟩ := h.type
  refine ⟨⟨a.annotations, a.name, t⟩, by rw [ArgumentNode.argument, htype], ?_⟩
  have typed := (prints_name h.name).append (neutral_text _) (printsType.apart .colon)
  have text : FunctionSpec.printArgument a
      = FunctionSpec.printAnnotations a.annotations ++ (a.name ++ (":" ++ (" " ++ a.type.name))) := by
    simp only [FunctionSpec.printArgument, String.append_assoc]
    rfl
  rw [text]
  exact FunctionSpec.prints_annotations h.annotations typed

/-- The parts of the result are written. -/
structure Result.Written (r : Result) : Prop where
  annotations : ∀ mark ∈ r.annotations, IsName mark
  type : r.type.Written

theorem Grammar.ResultNode.written {n : ResultNode} (h : LegibleLeaves n.leaves) :
    n.result.Written := by
  simp only [ResultNode.leaves, List.cons_append, legibleLeaves_append, legibleLeaves_cons] at h
  exact ⟨FunctionSpec.isName_of_marks h.2.1, TypeNode.written h.2.2⟩

theorem Result.Written.exists_node {r : Result} (h : r.Written) :
    ∃ n : ResultNode, n.result = r ∧ Prints (FunctionSpec.printResult r) n.leaves := by
  obtain ⟨t, htype, printsType⟩ := h.type
  refine ⟨⟨r.annotations, t⟩, by rw [ResultNode.result, htype], ?_⟩
  have text : FunctionSpec.printResult (some r)
      = ":" ++ (" " ++ (FunctionSpec.printAnnotations r.annotations ++ r.type.name)) := by
    simp only [FunctionSpec.printResult, String.append_assoc]
    rfl
  rw [text]
  exact (FunctionSpec.prints_annotations h.annotations printsType).apart .colon

namespace FunctionSpec

/-! ## Parts -/

/-- The text of a part. -/
def Part.print : Part → String
  | action a => "action " ++ a.name ++ "(" ++ printedNames a.arguments ++ ");"
  | static none => "static;"
  | static (some name) => "static " ++ name ++ ";"
  | property p => "property " ++ p.key ++ " = " ++ p.value ++ ";"
  | assignment a =>
    a.variableName ++ " = new " ++ a.automaton.name ++ "(" ++ printedNames a.arguments ++ ");"

/-- The pieces of a part are written. -/
def Part.Written : Part → Prop
  | action a => IsName a.name ∧ ∀ name ∈ a.arguments, IsName name
  | static name => ∀ n ∈ name, IsName n
  | property p => IsName p.key ∧ Verbatim .semicolon p.value
  | assignment a => IsName a.variableName ∧ a.automaton.Written ∧ ∀ name ∈ a.arguments, IsName name

/-- Names in parentheses and a semicolon. -/
theorem prints_arguments {arguments : List String} (h : ∀ name ∈ arguments, IsName name) :
    Prints ("(" ++ (printedNames arguments ++ ");"))
      (sym .openParen :: names .comma arguments ++ [sym .closeParen, sym .semicolon]) :=
  ((prints_names h).append (by decide)
    ((Prints.token (.symbol .semicolon)).behind .closeParen)).behind .openParen

theorem Part.Written.exists_node {p : Part} (h : p.Written) :
    ∃ n : PropertyNode, n.part = p ∧ n.Admissible ∧ Prints p.print n.leaves := by
  have semicolon : Prints ";" [sym .semicolon] := .token (.symbol .semicolon)
  cases p with
  | action a =>
    obtain ⟨hname, harguments⟩ := h
    refine ⟨.action a.name a.arguments, rfl, trivial, ?_⟩
    have leaves : (PropertyNode.action a.name a.arguments).leaves
        = kw .action :: ([ident a.name] ++ (sym .openParen :: names .comma a.arguments
          ++ [sym .closeParen, sym .semicolon])) := by
      simp [PropertyNode.leaves, PropertyNode.body]
    rw [leaves]
    simp only [Part.print, String.append_assoc]
    exact prints_keyword .action
      ((prints_name hname).append (neutral_text _) (prints_arguments harguments))
  | static name =>
    cases name with
    | none =>
      have keyword : Prints (Keyword.static.text ++ ";") [kw .static, sym .semicolon] :=
        (Prints.token (spelling_keyword .static)).append (by decide) semicolon
      exact ⟨.static none, rfl, trivial, keyword⟩
    | some name =>
      refine ⟨.static (some name), rfl, trivial, ?_⟩
      rw [Part.print, String.append_assoc]
      exact prints_keyword .static ((prints_name (h name rfl)).append (by decide) semicolon)
  | property p =>
    obtain ⟨hkey, r, hsource, ends, printsValue⟩ := h
    refine ⟨.property p.key r, by rw [PropertyNode.part, hsource], ends, ?_⟩
    have value := (printsValue.append (by decide) semicolon).operator .assign
    simp only [Part.print, String.append_assoc] at value ⊢
    exact prints_keyword .property ((prints_name hkey).append (neutral_text _) value)
  | assignment a =>
    obtain ⟨hname, ⟨t, htype, printsType⟩, harguments⟩ := h
    refine ⟨.assignment a.variableName t a.arguments, by rw [PropertyNode.part, htype], trivial, ?_⟩
    have made := prints_keyword .new (printsType.append (neutral_text _)
      (prints_arguments harguments))
    have leaves : (PropertyNode.assignment a.variableName t a.arguments).leaves
        = [ident a.variableName] ++ (sym .assign :: (kw .new :: (t.leaves
          ++ (sym .openParen :: names .comma a.arguments
            ++ [sym .closeParen, sym .semicolon])))) := by
      simp [PropertyNode.leaves, PropertyNode.body]
    rw [leaves]
    simp only [Part.print, String.append_assoc] at made ⊢
    exact (prints_name hname).append (neutral_text _) (made.apart .assign).spaced

/-- The parts of a function, as they are printed. -/
def parts (f : FunctionSpec) : List Part :=
  f.actions.map .action
    ++ f.staticName.toList.map (fun name => .static (if name.isEmpty then none else some name))
    ++ f.properties.map .property
    ++ f.assignments.map .assignment

theorem printParts_eq (f : FunctionSpec) : f.printParts = f.parts.map Part.print := by
  have statics : f.staticName.toList.map
      (fun name => if name.isEmpty then "static;" else "static " ++ name ++ ";")
      = (f.staticName.toList.map fun name =>
        Part.static (if name.isEmpty then none else some name)).map Part.print := by
    rw [List.map_map]
    refine List.map_congr_left fun name _ => ?_
    show (if name.isEmpty then _ else _) = Part.print (.static (if name.isEmpty then none else _))
    split <;> rfl
  simp only [printParts, parts, List.map_append, List.map_map, statics]
  rfl

/-- What is gathered from the parts, kind by kind. -/
theorem flatMap_parts {β : Type} (f : FunctionSpec) (g : Part → List β) :
    f.parts.flatMap g = f.actions.flatMap (fun a => g (.action a))
      ++ f.staticName.toList.flatMap
        (fun name => g (.static (if name.isEmpty then none else some name)))
      ++ f.properties.flatMap (fun p => g (.property p))
      ++ f.assignments.flatMap (fun a => g (.assignment a)) := by
  simp only [parts, List.flatMap_append, List.flatMap_map]

theorem statics_parts (f : FunctionSpec) : statics f.parts = f.staticName.toList := by
  rw [statics, List.filterMap_eq_flatMap_toList, flatMap_parts]
  simp only [Option.toList_none, Automaton.flatMap_nothing, List.append_nil, List.nil_append]
  cases f.staticName with
  | none => rfl
  | some name =>
    show [(if name.isEmpty then none else some name).getD ""] = [name]
    split
    · rename_i empty
      rw [String.isEmpty_iff.1 empty]
      rfl
    · rfl

/-- Sorting the parts of a function gives it back. -/
theorem ofParts_parts {f : FunctionSpec} {before : Option SemanticType}
    (h : findOwner before f.name f.arguments = .ok (f.owner, f.ownership))
    (place : Text.Position) :
    ofParts before f.name f.arguments f.contracts f.result f.parts place
      = .ok { f with builtin := false } := by
  have single : ¬1 < (statics f.parts).length := by
    rw [statics_parts]
    cases f.staticName <;> simp
  unfold ofParts
  rw [h]
  simp only [if_neg single]
  congr 1
  congr 1
  · rw [flatMap_parts]
    simp [Automaton.flatMap_nothing]
  · rw [statics_parts]
    cases f.staticName <;> rfl
  · rw [flatMap_parts]
    simp [Automaton.flatMap_nothing]
  · rw [flatMap_parts]
    simp [Automaton.flatMap_nothing]

/-! ## Functions -/

/-- The parts of the function are written, and its owner is found again. -/
structure Written (f : FunctionSpec) : Prop where
  owner : f.ownership = .explicit → f.owner.Written
  handle : f.ownership = .handle → findOwner none f.name f.arguments = .ok (f.owner, .handle)
  name : IsName f.name
  arguments : ∀ a ∈ f.arguments, a.Written
  requires : ∀ c ∈ f.contracts.requires, c.Written
  ensures : ∀ c ∈ f.contracts.ensures, c.Written
  result : ∀ r ∈ f.result, r.Written
  parts : ∀ p ∈ f.parts, p.Written

/-- The owner of a written function was named, or it is the type of an argument. -/
theorem Written.owner_written {f : FunctionSpec} (h : f.Written) : f.owner.Written := by
  cases ho : f.ownership with
  | explicit => exact h.owner ho
  | handle =>
    have found := h.handle ho
    unfold findOwner at found
    rcases hmarked : f.arguments.filter (·.isMarked handleMark) with _ | ⟨a, _ | ⟨b, rest⟩⟩
    · rw [hmarked] at found
      cases found
    · rw [hmarked] at found
      have owner : a.type = f.owner := congrArg Prod.fst (Except.ok.inj found)
      have mem : a ∈ f.arguments.filter (·.isMarked handleMark) := by
        rw [hmarked]
        exact List.mem_singleton_self a
      rw [← owner]
      exact (h.arguments a (List.mem_filter.1 mem).1).type
    · rw [hmarked] at found
      cases found

/-- The types of a signature are written. -/
theorem Written.signature_written {f : FunctionSpec} (h : f.Written) :
    ∀ t ∈ f.signature, t.Written := by
  intro t ht
  rcases List.mem_append.1 ht with ht | ht
  · obtain ⟨a, ha, rfl⟩ := List.mem_map.1 ht
    exact (h.arguments a ha).type
  · obtain ⟨r, hr, rfl⟩ := List.mem_map.1 ht
    exact (h.result r (Option.mem_toList.1 hr)).type

/-- The atoms before the name. -/
theorem Written.exists_owner {f : FunctionSpec} (h : f.Written) :
    ∃ atoms : List TypeAtom,
      findOwner (ownerOfAtoms (atoms.map TypeAtom.type)) f.name f.arguments
          = .ok (f.owner, f.ownership)
        ∧ ∀ {b : String} {more : List Leaf}, Prints b more →
          Prints ((match f.ownership with
            | .explicit => f.owner.name ++ " "
            | .handle => "") ++ b) (atoms.flatMap TypeAtom.leaves ++ more) := by
  cases ho : f.ownership with
  | explicit =>
    obtain ⟨t, htype, prints⟩ := h.owner ho
    obtain ⟨a, rest, rfl⟩ := t.exists_ofAtoms
    refine ⟨a :: rest, ?_, ?_⟩
    · rw [List.map_cons, ownerOfAtoms_cons, ← TypeNode.type_ofAtoms, htype]
      rfl
    · intro b more hb
      rw [TypeNode.leaves_ofAtoms] at prints
      show Prints (f.owner.name ++ " " ++ b) _
      rw [String.append_assoc]
      exact prints.append (neutral_text _) hb.spaced
  | handle =>
    refine ⟨[], h.handle ho, ?_⟩
    intro b more hb
    show Prints ("" ++ b) _
    rw [String.empty_append]
    exact hb

theorem neutral_empty : Neutral "".toList := by decide

theorem exists_clause (k : Keyword) {o : Option Contract} (h : ∀ c ∈ o, c.Written) :
    ∃ tree : Option Conjunction, tree.map Conjunction.contract = o
      ∧ Neutral (printClause k.text o).toList
      ∧ Prints (printClause k.text o) (FunctionNode.clauseLeaves k tree) := by
  cases o with
  | none => exact ⟨none, rfl, neutral_empty, .empty⟩
  | some c =>
    obtain ⟨tree, rfl, prints⟩ := h c rfl
    have text : printClause k.text (some tree.contract)
        = " " ++ (k.text ++ (" " ++ tree.contract.print)) := by
      simp only [printClause, String.append_assoc]
    refine ⟨some tree, rfl, ?_, ?_⟩
    · rw [text]
      exact neutral_text _
    · rw [text]
      exact (prints_keyword k prints).spaced

theorem exists_result {o : Option Result} (h : ∀ r ∈ o, r.Written) :
    ∃ tree : Option ResultNode, tree.map ResultNode.result = o
      ∧ Neutral (printResult o).toList
      ∧ Prints (printResult o) (tree.elim [] ResultNode.leaves) := by
  cases o with
  | none => exact ⟨none, rfl, neutral_empty, .empty⟩
  | some r =>
    obtain ⟨tree, rfl, prints⟩ := (h r rfl).exists_node
    refine ⟨some tree, rfl, ?_, prints⟩
    rw [printResult, String.append_assoc]
    exact neutral_text _

theorem Written.exists_node {f : FunctionSpec} (h : f.Written) (declared : f.builtin = false) :
    ∃ n : FunctionNode, n.function = f ∧ n.Admissible ∧ PrintsLines f.print n.leaves := by
  obtain ⟨atoms, owned, prefixed⟩ := h.exists_owner
  obtain ⟨arguments, sameArguments, printsArguments⟩ :=
    exists_map (p := fun n => Prints (printArgument n.argument) n.leaves)
      fun a ha => (h.arguments a ha).exists_node.imp fun n hn => ⟨hn.1, by rw [hn.1]; exact hn.2⟩
  obtain ⟨requires, sameRequires, neutralRequires, printsRequires⟩ :=
    exists_clause .requires h.requires
  obtain ⟨ensures, sameEnsures, neutralEnsures, printsEnsures⟩ := exists_clause .ensures h.ensures
  obtain ⟨result, sameResult, neutralResult, printsResult⟩ := exists_result h.result
  obtain ⟨properties, sameParts, printsParts⟩ :=
    exists_map (p := fun n => n.Admissible ∧ Prints n.part.print n.leaves)
      fun p hp => (h.parts p hp).exists_node.imp fun n hn =>
        ⟨hn.1, hn.2.1, by rw [hn.1]; exact hn.2.2⟩
  have sorted : ofParts (ownerOfAtoms (atoms.map TypeAtom.type)) f.name
      (arguments.map ArgumentNode.argument)
      ⟨requires.map Conjunction.contract, ensures.map Conjunction.contract⟩
      (result.map ResultNode.result) (properties.map PropertyNode.part) .start = .ok f := by
    rw [sameArguments, sameRequires, sameEnsures, sameResult, sameParts]
    refine (ofParts_parts owned .start).trans ?_
    rw [← declared]
  obtain ⟨handle, statics, same⟩ := (ofParts_eq_ok
    (f := ⟨atoms, f.name, arguments, requires, ensures, result, properties⟩)).1 sorted
  refine ⟨⟨atoms, f.name, arguments, requires, ensures, result, properties⟩, same.symm,
    ⟨statics, fun p hp => (printsParts p hp).1, handle⟩, ?_⟩
  have list : Prints ("(" ++ printedNames (f.arguments.map printArgument) ++ ")")
      (sym .openParen :: separate .comma ArgumentNode.leaves arguments ++ [sym .closeParen]) := by
    rw [← sameArguments, List.map_map]
    exact (prints_separate joint_comma (by decide) printsArguments).inParens
  have neutralTail := neutral_join neutralEnsures neutralResult
  have tail := list.append (neutral_join neutralRequires neutralTail)
    (printsRequires.append neutralTail (printsEnsures.append neutralResult printsResult))
  have head := prefixed ((prints_name h.name).append
    (neutral_join (neutral_group _) (neutral_join neutralRequires neutralTail)) tail)
  have text : f.printHead = (match f.ownership with
        | .explicit => f.owner.name ++ " "
        | .handle => "")
      ++ (f.name ++ ("(" ++ printedNames (f.arguments.map printArgument) ++ ")"
        ++ (printClause Keyword.requires.text f.contracts.requires
          ++ (printClause Keyword.ensures.text f.contracts.ensures ++ printResult f.result)))) := by
    simp only [printHead, String.append_assoc]
    rfl
  rw [← text] at head
  have block := PrintsLines.block head fun p hp => (printsParts p hp).2
  rw [print, printParts_eq, ← sameParts, List.map_map]
  have leaves : FunctionNode.leaves ⟨atoms, f.name, arguments, requires, ensures, result, properties⟩
      = (atoms.flatMap TypeAtom.leaves ++ ([ident f.name]
          ++ ((sym .openParen :: separate .comma ArgumentNode.leaves arguments ++ [sym .closeParen])
            ++ (FunctionNode.clauseLeaves .requires requires
              ++ (FunctionNode.clauseLeaves .ensures ensures
                ++ result.elim [] ResultNode.leaves)))))
        ++ sym .openBrace :: properties.flatMap PropertyNode.leaves ++ [sym .closeBrace] := by
    simp [FunctionNode.leaves]
  rw [leaves]
  exact block

/-- No number in the contracts of the function is an infinity. -/
def Finite (f : FunctionSpec) : Prop :=
  (∀ c ∈ f.contracts.requires, c.Finite) ∧ ∀ c ∈ f.contracts.ensures, c.Finite

instance (f : FunctionSpec) : Decidable f.Finite := inferInstanceAs (Decidable (_ ∧ _))

end FunctionSpec

/-! ## Trees -/

namespace Grammar

theorem PropertyNode.written {p : PropertyNode} (admissible : p.Admissible)
    (h : LegibleLeaves p.leaves) : p.part.Written := by
  rw [PropertyNode.leaves, legibleLeaves_append] at h
  have body := h.1
  cases p with
  | action name arguments =>
    simp only [PropertyNode.body, List.cons_append, legibleLeaves_cons, legibleLeaves_append]
      at body
    exact ⟨isName_of_legible body.2.1, isName_of_names body.2.2.2.1⟩
  | static name =>
    rw [PropertyNode.body, legibleLeaves_cons] at body
    rintro n rfl
    exact isName_of_legible (body.2 _ (by simp))
  | property key value =>
    simp only [PropertyNode.body, legibleLeaves_cons] at body
    exact ⟨isName_of_legible body.2.1, RawText.verbatim admissible body.2.2.2.1⟩
  | assignment name automaton arguments =>
    simp only [PropertyNode.body, List.cons_append, legibleLeaves_cons, legibleLeaves_append]
      at body
    exact ⟨isName_of_legible body.1, TypeNode.written body.2.2.2.1.1,
      isName_of_names body.2.2.2.1.2.2⟩

namespace FunctionNode

theorem clause_written {k : Keyword} {tree : Option Conjunction}
    (h : LegibleLeaves (clauseLeaves k tree))
    (finite : ∀ c ∈ tree.map Conjunction.contract, c.Finite) :
    ∀ c ∈ tree.map Conjunction.contract, c.Written := by
  cases tree with
  | none => exact fun c hc => by cases hc
  | some tree =>
    rw [clauseLeaves, legibleLeaves_cons] at h
    rintro c hc
    cases hc
    exact Conjunction.written h.2 (finite _ rfl)

theorem parts_written {f : FunctionNode}
    (written : ∀ p ∈ f.properties, p.part.Written) : ∀ p ∈ f.function.parts, p.Written := by
  intro p hp
  simp only [FunctionSpec.parts, List.mem_append, List.mem_map] at hp
  rcases hp with ((⟨a, ha, rfl⟩ | ⟨name, hname, rfl⟩) | ⟨a, ha, rfl⟩) | ⟨a, ha, rfl⟩
  · obtain ⟨q, hq, heq⟩ := List.mem_filterMap.1 ha
    have part := written q hq
    cases q <;> cases heq
    exact part
  · obtain ⟨q, hq, heq⟩ := List.mem_filterMap.1
      (List.mem_of_mem_head? (Option.mem_toList.1 hname))
    have part := written q hq
    cases q with
    | static o =>
      cases heq
      split
      · exact fun n hn => by cases hn
      · rename_i nonempty
        cases o with
        | none => exact absurd rfl nonempty
        | some name => exact part
    | _ => cases heq
  · obtain ⟨q, hq, heq⟩ := List.mem_filterMap.1 ha
    have part := written q hq
    cases q <;> cases heq
    exact part
  · obtain ⟨q, hq, heq⟩ := List.mem_filterMap.1 ha
    have part := written q hq
    cases q <;> cases heq
    exact part

theorem written {n : FunctionNode} (admissible : n.Admissible) (h : LegibleLeaves n.leaves)
    (finite : n.function.Finite) : n.function.Written := by
  simp only [FunctionNode.leaves, List.cons_append, List.append_assoc, legibleLeaves_cons,
    legibleLeaves_append] at h
  obtain ⟨atoms, name, _, arguments, _, requires, ensures, result, _, properties, _⟩ := h
  refine ⟨?_, ?_, isName_of_legible name, ?_, clause_written requires finite.1,
    clause_written ensures finite.2, ?_, ?_⟩
  · intro explicit
    cases ho : n.owner with
    | nil =>
      rw [FunctionNode.function, FunctionNode.owned, ho] at explicit
      cases hh : n.handles <;> rw [hh] at explicit <;> cases explicit
    | cons first rest =>
      rw [ho, List.flatMap_cons, ← TypeNode.leaves_ofAtoms] at atoms
      have owner : n.function.owner = (TypeNode.ofAtoms first rest).type := by
        rw [FunctionNode.function, FunctionNode.owned, ho]
      rw [owner]
      exact TypeNode.written atoms
  · intro handle
    have found := (FunctionSpec.findOwner_eq_ok (f := n)).2 ⟨admissible.handle, rfl⟩
    have owned : n.owned = (n.function.owner, .handle) := Prod.ext rfl handle
    rw [owned] at found
    cases ho : n.owner with
    | nil =>
      rw [ho] at found
      exact found
    | cons first rest =>
      rw [FunctionNode.function, FunctionNode.owned, ho] at handle
      cases handle
  · intro a ha
    obtain ⟨node, hnode, rfl⟩ := List.mem_map.1 ha
    exact ArgumentNode.written (arguments.of_separate hnode)
  · intro r hr
    obtain ⟨node, hnode, rfl⟩ := Option.map_eq_some_iff.1 hr
    rw [hnode] at result
    exact ResultNode.written result
  · exact parts_written fun p hp =>
      PropertyNode.written (admissible.properties p hp) (properties.of_flatMap hp)

end FunctionNode
end Grammar
end LibrarySpec
