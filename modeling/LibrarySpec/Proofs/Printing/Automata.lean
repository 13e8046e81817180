/-
  Printed lines and automata, scanned again.

  A line ends in a line feed, so what stands behind it makes no difference (`PrintsLines`); lines are
  put together freely.  An automaton prints its items in an order of its own (`Automaton.items`), and
  sorting those items gives the automaton back, but for two things that the text leaves out: its
  functions are gone, and the states that are not final come first (`Automaton.reparsed`).
-/
import Mathlib.Data.List.Basic
import LibrarySpec.Proofs.Grammar.LibraryReading
import LibrarySpec.Proofs.Printing.Types

namespace LibrarySpec

namespace Grammar

/-! ## Lines -/

/-- The text puts the leaves in front, whatever follows. -/
def PrintsLines (text : String) (leaves : List Leaf) : Prop :=
  ∀ after more, Scans after more → Scans (text.toList ++ after) (leaves ++ more)

namespace PrintsLines

variable {a b : String} {leaves more : List Leaf}

theorem empty : PrintsLines "" [] := fun _ _ h => h

theorem append (ha : PrintsLines a leaves) (hb : PrintsLines b more) :
    PrintsLines (a ++ b) (leaves ++ more) := by
  intro after rest hs
  rw [String.toList_append, List.append_assoc, List.append_assoc]
  exact ha _ _ (hb after rest hs)

/-- A blank line in front. -/
theorem apart (h : PrintsLines a leaves) : PrintsLines ("\n" ++ a) leaves := by
  intro after rest hs
  rw [String.toList_append]
  exact (h after rest hs).feed

end PrintsLines

theorem Prints.line {text : String} {leaves : List Leaf} (h : Prints text leaves) :
    PrintsLines (printedLine text) leaves := by
  intro after rest hs
  rw [printedLine, String.toList_append, List.append_assoc]
  refine h _ rest ?_ hs.feed
  intro c hc
  cases hc
  decide

theorem Prints.item {text : String} {leaves : List Leaf} (h : Prints text leaves) :
    PrintsLines (printedItem text) leaves := by
  intro after rest hs
  have line : printedItem text = "    " ++ printedLine text := by
    rw [printedItem, printedLine, String.append_assoc]
  rw [line, String.toList_append]
  exact (h.line after rest hs).indent

/-- Lines, one piece after another. -/
theorem PrintsLines.join {α : Type} {print : α → String} {leaves : α → List Leaf} {items : List α}
    (each : ∀ a ∈ items, PrintsLines (print a) (leaves a)) :
    PrintsLines (String.join (items.map print)) (items.flatMap leaves) := by
  induction items with
  | nil => exact .empty
  | cons a items ih =>
    obtain ⟨first, each⟩ := List.forall_mem_cons.1 each
    rw [List.map_cons, String.join_cons, List.flatMap_cons]
    exact first.append (ih each)

/-- A heading and items in braces. -/
theorem PrintsLines.block {α : Type} {heading : String} {print : α → String} {head : List Leaf}
    {leaves : α → List Leaf} {items : List α} (h : Prints heading head)
    (each : ∀ a ∈ items, Prints (print a) (leaves a)) :
    PrintsLines (printedBlock heading (items.map print))
      (head ++ sym .openBrace :: items.flatMap leaves ++ [sym .closeBrace]) := by
  have body : PrintsLines (String.join ((items.map print).map printedItem))
      (items.flatMap leaves) := by
    rw [List.map_map]
    exact PrintsLines.join fun a ha => (each a ha).item
  intro after rest hs
  have closing : Scans ("\x7d\n".toList ++ after) (sym .closeBrace :: rest) :=
    hs.feed.symbol .closeBrace fun _ _ => rfl
  have inside := (body _ _ closing).feed.symbol .openBrace fun _ _ => rfl
  have text : (printedBlock heading (items.map print)).toList ++ after
      = heading.toList ++ ' ' :: ("\x7b".toList ++ '\n'
        :: ((String.join ((items.map print).map printedItem)).toList
          ++ ("\x7d\n".toList ++ after))) := by
    have opening : " \x7b\n".toList = ' ' :: ("\x7b".toList ++ ['\n']) := rfl
    simp only [printedBlock, String.toList_append, List.append_assoc, opening, List.cons_append,
      List.nil_append]
  rw [text, List.append_assoc, List.cons_append, List.append_assoc]
  refine h _ _ ?_ inside.space
  intro c hc
  cases hc
  decide

/-- Values that trees mean are the values of a list of trees. -/
theorem exists_map {α τ : Type} {value : τ → α} {p : τ → Prop} {items : List α}
    (h : ∀ a ∈ items, ∃ n, value n = a ∧ p n) :
    ∃ ns : List τ, ns.map value = items ∧ ∀ n ∈ ns, p n := by
  induction items with
  | nil => exact ⟨[], rfl, by simp⟩
  | cons a items ih =>
    obtain ⟨first, rest⟩ := List.forall_mem_cons.1 h
    obtain ⟨n, value, hn⟩ := first
    obtain ⟨ns, values, hns⟩ := ih rest
    refine ⟨n :: ns, ?_, List.forall_mem_cons.2 ⟨hn, hns⟩⟩
    rw [List.map_cons, value, values]

end Grammar

open Grammar

namespace Automaton

/-! ## Items -/

/-- The text of an item. -/
def Item.print : Item → String
  | extendable => "extendable;"
  | package name => "javapackage " ++ name ++ ";"
  | variableItem v => "var " ++ v.name ++ ": " ++ v.type.name ++ ";"
  | states names => "states " ++ printedNames names ++ ";"
  | finalState name => "finishstate " ++ name ++ ";"
  | shift s => printShift s

/-- The parts of an item are written. -/
def Item.Written : Item → Prop
  | extendable => True
  | package name => Dotted name
  | variableItem v => IsName v.name ∧ v.type.Written
  | states names => names ≠ [] ∧ ∀ name ∈ names, IsName name
  | finalState name => IsName name
  | shift s => IsName s.source ∧ IsName s.target ∧ s.functions ≠ []
      ∧ ∀ name ∈ s.functions, IsName name

theorem Item.Written.exists_node {i : Item} (h : i.Written) :
    ∃ n : ItemNode, n.item = i ∧ Prints i.print n.leaves := by
  have semicolon : Prints ";" [sym .semicolon] := .token (.symbol .semicolon)
  cases i with
  | extendable =>
    have keyword : Prints (Keyword.extendable.text ++ ";") [kw .extendable, sym .semicolon] :=
      (Prints.token (spelling_keyword .extendable)).append (by decide) semicolon
    exact ⟨.extendable, rfl, keyword⟩
  | package name =>
    obtain ⟨c, rfl, hc⟩ := h
    refine ⟨.package c, rfl, ?_⟩
    rw [Item.print, String.append_assoc]
    exact prints_keyword .javaPackage ((prints_dotted hc).append (by decide) semicolon)
  | variableItem v =>
    obtain ⟨hname, t, htype, printsType⟩ := h
    refine ⟨.variableItem v.name t, by rw [ItemNode.item, htype], ?_⟩
    have type : Prints (": " ++ (v.type.name ++ ";")) (sym .colon :: t.leaves ++ [sym .semicolon]) :=
      (printsType.append (by decide) semicolon).apart .colon
    simp only [Item.print, String.append_assoc]
    exact prints_keyword .var ((prints_name hname).append (neutral_text _) type)
  | states names =>
    obtain ⟨nonempty, hnames⟩ := h
    obtain ⟨first, rest, rfl⟩ := List.exists_cons_of_ne_nil nonempty
    refine ⟨.states ⟨first, rest⟩, rfl, ?_⟩
    rw [Item.print, String.append_assoc]
    exact prints_keyword .states ((prints_names hnames).append (by decide) semicolon)
  | finalState name =>
    refine ⟨.finalState name, rfl, ?_⟩
    rw [Item.print, String.append_assoc]
    exact prints_keyword .finishState ((prints_name h).append (by decide) semicolon)
  | shift s =>
    obtain ⟨hsource, htarget, nonempty, hnames⟩ := h
    obtain ⟨source, target, functions⟩ := s
    obtain ⟨first, rest, rfl⟩ := List.exists_cons_of_ne_nil nonempty
    refine ⟨.shift source target ⟨first, rest⟩, rfl, ?_⟩
    have list : Prints (" (" ++ (printedNames (first :: rest) ++ ");"))
        (sym .openParen :: names .comma (first :: rest) ++ [sym .closeParen, sym .semicolon]) :=
      (((prints_names hnames).append (by decide) (semicolon.behind .closeParen)).behind
        .openParen).spaced
    have arrow := ((prints_name htarget).append (neutral_text _) list).operator .arrow
    have leaves : (ItemNode.shift source target ⟨first, rest⟩).leaves
        = kw .shift :: ([ident source] ++ (sym .arrow :: ([ident target]
          ++ (sym .openParen :: names .comma (first :: rest)
            ++ [sym .closeParen, sym .semicolon])))) := by
      simp [ItemNode.leaves, ItemNode.body, Chain.toList]
    rw [leaves]
    simp only [Item.print, printShift, String.append_assoc] at arrow ⊢
    exact prints_keyword .shift ((prints_name hsource).append (neutral_text _) arrow)

/-! ## Automata -/

/-- The names of the states that are not final. -/
def plainNames (states : List State) : List String :=
  (states.filter fun s => !s.isFinal).map (·.name)

theorem map_plainNames (states : List State) :
    (plainNames states).map (⟨·, false⟩) = states.filter fun s => !s.isFinal := by
  rw [plainNames, List.map_map]
  refine (List.map_congr_left fun s hs => ?_).trans (List.map_id _)
  obtain ⟨name, isFinal⟩ := s
  have plain : (!isFinal) = true := (List.mem_filter.1 hs).2
  rw [Bool.not_eq_true'] at plain
  rw [plain]
  rfl

theorem flatMap_finals (states : List State) :
    (states.filter (·.isFinal)).flatMap (fun s => [⟨s.name, true⟩])
      = states.filter (·.isFinal) := by
  rw [← List.map_eq_flatMap]
  refine (List.map_congr_left fun s hs => ?_).trans (List.map_id _)
  obtain ⟨name, isFinal⟩ := s
  have final : isFinal = true := (List.mem_filter.1 hs).2
  rw [final]
  rfl

/-- The items of an automaton, as they are printed. -/
def items (a : Automaton) : List Item :=
  (if a.extendable then [.extendable] else [])
    ++ a.package.toList.map .package
    ++ a.vars.map .variableItem
    ++ (if (plainNames a.states).isEmpty then [] else [.states (plainNames a.states)])
    ++ (a.states.filter (·.isFinal)).map (fun s => .finalState s.name)
    ++ a.shifts.map .shift

theorem printItems_eq (a : Automaton) : a.printItems = a.items.map Item.print := by
  have states : printStates a.states = (if (plainNames a.states).isEmpty then []
      else [Item.states (plainNames a.states)]).map Item.print := by
    unfold printStates
    show (if (plainNames a.states).isEmpty then _ else _) = _
    split <;> rfl
  have extendable : (if a.extendable then ["extendable;"] else [])
      = (if a.extendable then [Item.extendable] else []).map Item.print := by
    split <;> rfl
  simp only [printItems, items, List.map_append, List.map_map, states, extendable]
  rfl

/-- The states that are not final, then the others. -/
def grouped (states : List State) : List State :=
  states.filter (fun s => !s.isFinal) ++ states.filter (·.isFinal)

/-- What the text of an automaton says: the states are grouped and there are no functions. -/
def reparsed (a : Automaton) : Automaton :=
  { a with states := grouped a.states, functions := [] }

/-- What is gathered from the items, kind by kind. -/
theorem flatMap_items {β : Type} (a : Automaton) (f : Item → List β) :
    a.items.flatMap f = (if a.extendable then f .extendable else [])
      ++ a.package.toList.flatMap (fun name => f (.package name))
      ++ a.vars.flatMap (fun v => f (.variableItem v))
      ++ (if (plainNames a.states).isEmpty then [] else f (.states (plainNames a.states)))
      ++ (a.states.filter (·.isFinal)).flatMap (fun s => f (.finalState s.name))
      ++ a.shifts.flatMap (fun s => f (.shift s)) := by
  have extendable : (if a.extendable then [Item.extendable] else []).flatMap f
      = if a.extendable then f .extendable else [] := by
    split
    · exact List.append_nil _
    · rfl
  have states : (if (plainNames a.states).isEmpty then []
      else [Item.states (plainNames a.states)]).flatMap f
      = if (plainNames a.states).isEmpty then [] else f (.states (plainNames a.states)) := by
    split
    · rfl
    · exact List.append_nil _
  simp only [items, List.flatMap_append, List.flatMap_map, extendable, states]

theorem flatMap_nothing {α β : Type} (l : List α) : l.flatMap (fun _ => ([] : List β)) = [] :=
  List.flatMap_eq_nil_iff.2 fun _ _ => rfl

theorem packages_items (a : Automaton) : packages a.items = a.package.toList := by
  rw [packages, List.filterMap_eq_flatMap_toList, flatMap_items]
  simp only [Option.toList_none, flatMap_nothing, ite_self, List.append_nil, List.nil_append]
  cases a.package <;> rfl

/-- Sorting the items of an automaton gives it back. -/
theorem ofItems_items (a : Automaton) (place : Text.Position) :
    ofItems a.type a.items place = .ok a.reparsed := by
  have single : ¬1 < (packages a.items).length := by
    rw [packages_items]
    cases a.package <;> simp
  rw [ofItems, if_neg single]
  congr 1
  unfold reparsed
  congr 1
  · rw [packages_items]
    cases a.package <;> rfl
  · rw [flatMap_items, flatMap_items]
    simp only [flatMap_nothing, ite_self, List.append_nil, List.nil_append]
    have plain : (if (plainNames a.states).isEmpty then []
        else (plainNames a.states).map (⟨·, false⟩)) = a.states.filter fun s => !s.isFinal := by
      rw [← map_plainNames]
      split
      · rename_i empty
        rw [List.isEmpty_iff.1 empty, List.map_nil]
      · rfl
    rw [plain, flatMap_finals, grouped]
  · rw [flatMap_items]
    simp [flatMap_nothing]
  · cases he : a.extendable <;> simp [items, he]
  · rw [flatMap_items]
    simp [flatMap_nothing]

/-- The parts of the automaton are written. -/
structure Written (a : Automaton) : Prop where
  type : a.type.Written
  package : ∀ name ∈ a.package, Dotted name
  states : ∀ s ∈ a.states, IsName s.name
  shifts : ∀ s ∈ a.shifts, (Item.shift s).Written
  vars : ∀ v ∈ a.vars, (Item.variableItem v).Written

theorem Written.items {a : Automaton} (h : a.Written) : ∀ i ∈ a.items, i.Written := by
  have plain : ∀ name ∈ plainNames a.states, IsName name := by
    intro name hname
    obtain ⟨s, hs, rfl⟩ := List.mem_map.1 hname
    exact h.states s (List.mem_filter.1 hs).1
  intro i hi
  simp only [Automaton.items, List.mem_append, List.mem_map] at hi
  rcases hi with ((((hi | ⟨name, hname, rfl⟩) | ⟨v, hv, rfl⟩) | hi) | ⟨s, hs, rfl⟩) | ⟨s, hs, rfl⟩
  · split at hi
    · rw [List.mem_singleton.1 hi]
      trivial
    · cases hi
  · exact h.package name (Option.mem_toList.1 hname)
  · exact h.vars v hv
  · split at hi
    · cases hi
    · rename_i nonempty
      rw [List.mem_singleton.1 hi]
      exact ⟨fun nil => nonempty (List.isEmpty_iff.2 nil), plain⟩
  · exact h.states s (List.mem_filter.1 hs).1
  · exact h.shifts s hs

theorem Written.exists_node {a : Automaton} (h : a.Written) :
    ∃ n : AutomatonNode, n.automaton = a.reparsed ∧ n.Admissible ∧ PrintsLines a.print n.leaves := by
  obtain ⟨t, htype, printsType⟩ := h.type
  obtain ⟨ns, values, prints⟩ := exists_map (p := fun n => Prints n.item.print n.leaves)
    fun i hi => (h.items i hi).exists_node.imp fun n hn => ⟨hn.1, by rw [hn.1]; exact hn.2⟩
  have sorted := ofItems_eq t ns .start
  rw [htype, values, ofItems_items] at sorted
  by_cases double : 1 < (ns.filterMap ItemNode.package?).length
  · rw [if_pos double] at sorted
    cases sorted
  · rw [if_neg double] at sorted
    refine ⟨⟨t, ns⟩, (Except.ok.inj sorted).symm, Nat.le_of_not_lt double, ?_⟩
    have head : Prints ("automaton " ++ a.type.name) (kw .automaton :: t.leaves) :=
      prints_keyword .automaton printsType
    have block := PrintsLines.block head prints
    rw [print, printItems_eq, ← values, List.map_map]
    exact block

end Automaton

/-! ## Trees -/

namespace Grammar

theorem ItemNode.written {i : ItemNode} (h : LegibleLeaves i.leaves) : i.item.Written := by
  rw [ItemNode.leaves, legibleLeaves_append] at h
  have body := h.1
  cases i with
  | extendable => trivial
  | package name =>
    rw [ItemNode.body, legibleLeaves_cons] at body
    exact dotted_of_chain body.2
  | variableItem name type =>
    simp only [ItemNode.body, legibleLeaves_cons] at body
    exact ⟨isName_of_legible body.2.1, TypeNode.written body.2.2.2⟩
  | states items =>
    rw [ItemNode.body, legibleLeaves_cons] at body
    exact ⟨by simp [Chain.toList], isName_of_names body.2⟩
  | finalState name =>
    simp only [ItemNode.body, legibleLeaves_cons] at body
    exact isName_of_legible body.2.1
  | shift source target functions =>
    simp only [ItemNode.body, List.cons_append, legibleLeaves_cons, legibleLeaves_append] at body
    exact ⟨isName_of_legible body.2.1, isName_of_legible body.2.2.2.1, by simp [Chain.toList],
      isName_of_names body.2.2.2.2.2.1⟩

namespace AutomatonNode

theorem written {n : AutomatonNode} (h : LegibleLeaves n.leaves) : n.automaton.Written := by
  simp only [AutomatonNode.leaves, List.cons_append, legibleLeaves_cons, legibleLeaves_append] at h
  have items : ∀ i ∈ n.items, i.item.Written := fun i hi =>
    ItemNode.written (h.2.1.2.2.of_flatMap hi)
  refine ⟨TypeNode.written h.2.1.1, ?_, ?_, ?_, ?_⟩
  · intro name hname
    obtain ⟨i, hi, heq⟩ := List.mem_filterMap.1 (List.mem_of_mem_head? hname)
    have written := items i hi
    cases i <;> cases heq
    exact written
  · intro s hs
    rcases List.mem_append.1 hs with hs | hs
    · obtain ⟨i, hi, hs⟩ := List.mem_flatMap.1 hs
      have written := items i hi
      cases i with
      | states names =>
        obtain ⟨name, hname, rfl⟩ := List.mem_map.1 hs
        exact written.2 name hname
      | _ => cases hs
    · obtain ⟨i, hi, heq⟩ := List.mem_filterMap.1 hs
      have written := items i hi
      cases i <;> cases heq
      exact written
  · intro s hs
    obtain ⟨i, hi, heq⟩ := List.mem_filterMap.1 hs
    have written := items i hi
    cases i <;> cases heq
    exact written
  · intro v hv
    obtain ⟨i, hi, heq⟩ := List.mem_filterMap.1 hv
    have written := items i hi
    cases i <;> cases heq
    exact written

/-- The states of a tree are grouped, and the tree has no functions. -/
theorem reparsed_automaton (n : AutomatonNode) : n.automaton.reparsed = n.automaton := by
  have plain : ∀ s ∈ n.items.flatMap ItemNode.plainStates, s.isFinal = false := by
    intro s hs
    obtain ⟨i, _, hs⟩ := List.mem_flatMap.1 hs
    cases i with
    | states names =>
      obtain ⟨name, _, rfl⟩ := List.mem_map.1 hs
      rfl
    | _ => cases hs
  have final : ∀ s ∈ n.items.filterMap ItemNode.finalState?, s.isFinal = true := by
    intro s hs
    obtain ⟨i, _, heq⟩ := List.mem_filterMap.1 hs
    cases i <;> cases heq
    rfl
  have grouped : Automaton.grouped n.automaton.states = n.automaton.states := by
    show Automaton.grouped (n.items.flatMap ItemNode.plainStates
      ++ n.items.filterMap ItemNode.finalState?) = _
    rw [Automaton.grouped, List.filter_append, List.filter_append,
      List.filter_eq_self.2 fun s hs => by simp [plain s hs],
      List.filter_eq_nil_iff.2 fun s hs => by simp [final s hs],
      List.filter_eq_nil_iff.2 fun s hs => by simp [plain s hs],
      List.filter_eq_self.2 final, List.append_nil, List.nil_append]
    rfl
  rw [Automaton.reparsed, grouped]
  rfl

end AutomatonNode
end Grammar
end LibrarySpec
