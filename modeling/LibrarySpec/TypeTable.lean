/-
  The types section: which code type stands for which semantic type.

  A `TypeTable` is the list of declarations in order.  A semantic type may be declared more than
  once; its first declaration counts.  So that a lookup need not walk the declarations, the table
  keeps the position of the first declaration of every declared type beside them.  The positions
  follow from the declarations (`firsts_eq`), hence two tables with the same declarations are the
  same table.

  Types are looked up by structure: how a composite type is displayed makes no difference.
-/
import LibrarySpec.SemanticType
import LibrarySpec.Fault

namespace LibrarySpec

/-- One declaration: a semantic type and the text of its code type. -/
structure TypeDecl where
  semanticType : SemanticType
  codeType : String
deriving BEq, DecidableEq

namespace TypeTable

/-- The positions of first declarations after one more declaration at `position`. -/
def note (firsts : List (SemanticType × Nat)) (t : SemanticType) (position : Nat) :
    List (SemanticType × Nat) :=
  if firsts.any (·.1 == t) then firsts else firsts ++ [(t, position)]

/-- The position of the first declaration of every declared type. -/
def firstPositions (decls : List TypeDecl) : List (SemanticType × Nat) :=
  decls.zipIdx.foldl (fun firsts entry => note firsts entry.1.semanticType entry.2) []

theorem firstPositions_append (decls : List TypeDecl) (d : TypeDecl) :
    firstPositions (decls ++ [d]) =
      note (firstPositions decls) d.semanticType decls.length := by
  simp [firstPositions, List.zipIdx_append]

end TypeTable

/-- Declarations in order, with the positions of the first ones. -/
structure TypeTable where
  decls : List TypeDecl
  firsts : List (SemanticType × Nat)
  firsts_eq : firsts = TypeTable.firstPositions decls

namespace TypeTable

/-- The table without declarations. -/
def empty : TypeTable := ⟨[], [], rfl⟩

/-- The table with one more declaration at its end. -/
def push (table : TypeTable) (d : TypeDecl) : TypeTable :=
  ⟨table.decls ++ [d], note table.firsts d.semanticType table.decls.length, by
    rw [firstPositions_append, table.firsts_eq]⟩

/-- The table with more declarations at its end. -/
def extend (table : TypeTable) (more : List TypeDecl) : TypeTable :=
  more.foldl push table

/-- The table of a list of declarations. -/
def ofList (decls : List TypeDecl) : TypeTable := empty.extend decls

/-- Tables compare by their declarations. -/
instance : BEq TypeTable := ⟨fun a b => a.decls == b.decls⟩

/-- The position of the first declaration of a type. -/
def position? (table : TypeTable) (t : SemanticType) : Option Nat :=
  (table.firsts.find? (·.1 == t)).map (·.2)

/-- The first declaration of a type. -/
def get? (table : TypeTable) (t : SemanticType) : Option TypeDecl :=
  (table.position? t).bind (table.decls[·]?)

/-- The first declaration of a type, or the fault that it has none. -/
def get (table : TypeTable) (t : SemanticType) : Except Fault TypeDecl :=
  match table.get? t with
  | some d => .ok d
  | none => .error (.missingTypeDecl t.name)

/-- Whether a type is declared. -/
def contains (table : TypeTable) (t : SemanticType) : Bool := (table.position? t).isSome

/-- The number of declarations. -/
def size (table : TypeTable) : Nat := table.decls.length

/-- Whether nothing is declared. -/
def isEmpty (table : TypeTable) : Bool := table.decls.isEmpty

/-- The first declaration of all. -/
def first? (table : TypeTable) : Option TypeDecl := table.decls.head?

/-! ## Declarations of the tables made -/

theorem eq_of_decls_eq {a b : TypeTable} (h : a.decls = b.decls) : a = b := by
  obtain ⟨da, fa, ha⟩ := a
  obtain ⟨db, fb, hb⟩ := b
  simp only at h
  subst h
  subst ha
  subst hb
  rfl

@[simp] theorem decls_empty : empty.decls = [] := rfl

@[simp] theorem decls_push (table : TypeTable) (d : TypeDecl) :
    (table.push d).decls = table.decls ++ [d] := rfl

@[simp] theorem decls_extend (table : TypeTable) (more : List TypeDecl) :
    (table.extend more).decls = table.decls ++ more := by
  unfold extend
  induction more generalizing table with
  | nil => simp
  | cons d more ih => simp [ih]

@[simp] theorem decls_ofList (decls : List TypeDecl) : (ofList decls).decls = decls := by
  simp [ofList]

end TypeTable
end LibrarySpec
