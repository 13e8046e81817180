/-
  Code types of composite semantic types.

  A `Rules` value gives the names of enclosing types a template each, in which the placeholder `{}`
  stands for the code type of the inner type.  The rules are kept in the order of their names, so
  two rule sets with the same rules are the same.

  `Rules.render` computes the code type of a semantic type: a simple type has the one it is declared
  with; a composite type takes the template of its enclosing type and puts the code type of its
  inner type in place of the first placeholder.  What is put in is never searched for placeholders,
  and a template without one stays as it is.
-/
import LibrarySpec.TypeTable

namespace LibrarySpec

/-! ## Templates -/

/-- A template with an item in place of its first placeholder. -/
def Template.fillChars (item : List Char) : List Char → List Char
  | [] => []
  | '\x7b' :: '\x7d' :: rest => item ++ rest
  | c :: rest => c :: fillChars item rest

/-- A template with an item in place of its first placeholder. -/
def Template.fill (template item : String) : String :=
  String.ofList (fillChars item.toList template.toList)

/-! ## Rules -/

/-- Templates for enclosing types, in the order of the names. -/
structure Rules where
  entries : List (String × String)
  sorted : entries.Pairwise (·.1 < ·.1)
deriving DecidableEq

namespace Rules

/-- Sorted entries with a template set for a name. -/
def insertInto (key template : String) : List (String × String) → List (String × String)
  | [] => [(key, template)]
  | (k, t) :: rest =>
    if key < k then (key, template) :: (k, t) :: rest
    else if key = k then (key, template) :: rest
    else (k, t) :: insertInto key template rest

theorem mem_insertInto {key template : String} {entries : List (String × String)}
    {e : String × String} (h : e ∈ insertInto key template entries) :
    e = (key, template) ∨ e ∈ entries := by
  induction entries with
  | nil => simpa [insertInto] using h
  | cons f rest ih =>
    obtain ⟨k, t⟩ := f
    unfold insertInto at h
    split at h
    · simpa using h
    · split at h
      · rcases List.mem_cons.1 h with h | h <;> simp [h]
      · rcases List.mem_cons.1 h with h | h
        · simp [h]
        · rcases ih h with h | h <;> simp [h]

/-- Setting a template keeps the entries sorted. -/
theorem pairwise_insertInto {key template : String} {entries : List (String × String)}
    (h : entries.Pairwise (·.1 < ·.1)) :
    (insertInto key template entries).Pairwise (·.1 < ·.1) := by
  induction entries with
  | nil => simp [insertInto]
  | cons f rest ih =>
    obtain ⟨k, t⟩ := f
    obtain ⟨below, sorted⟩ := List.pairwise_cons.1 h
    unfold insertInto
    split
    · rename_i less
      refine List.pairwise_cons.2 ⟨fun e he => ?_, h⟩
      rcases List.mem_cons.1 he with he | he
      · rw [he]; exact less
      · exact String.lt_trans less (below e he)
    · split
      · rename_i same
        subst same
        exact List.pairwise_cons.2 ⟨below, sorted⟩
      · rename_i notLess notSame
        refine List.pairwise_cons.2 ⟨fun e he => ?_, ih sorted⟩
        rcases mem_insertInto he with he | he
        · rw [he]
          exact Std.lt_of_le_of_ne (Std.not_lt.1 notLess) (Ne.symm notSame)
        · exact below e he

/-- No rules. -/
def empty : Rules := ⟨[], .nil⟩

/-- The rules with a template set for a name. -/
def insert (rules : Rules) (key template : String) : Rules :=
  ⟨insertInto key template rules.entries, pairwise_insertInto rules.sorted⟩

/-- The rules with several templates set; of two for one name the later counts. -/
def insertAll (rules : Rules) (pairs : List (String × String)) : Rules :=
  pairs.foldl (fun rules (key, template) => rules.insert key template) rules

/-- The rules of a list of names and templates. -/
def ofList (pairs : List (String × String)) : Rules := empty.insertAll pairs

/-- The template for a name. -/
def rule? (rules : Rules) (key : String) : Option String := rules.entries.lookup key

/-- Whether there are no rules. -/
def isEmpty (rules : Rules) : Bool := rules.entries.isEmpty

/-- The code type of a semantic type. -/
def render (rules : Rules) (table : TypeTable) : SemanticType → Except Fault String
  | .simple name => (table.get (.simple name)).map (·.codeType)
  | .complex _ enclosing inner =>
    match rules.rule? enclosing.name with
    | none => .error (.missingConversionRule enclosing.name)
    | some template => (render rules table inner).map (Template.fill template)

end Rules
end LibrarySpec
