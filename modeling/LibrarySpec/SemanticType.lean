/-
  Semantic types.

  A semantic type is the specification's own notion of a type, independent of any target language.
  It is a name, or an enclosing type around an inner one: the array `Int[]` encloses `Int` by the
  name `[]`, the pointer `Handle*` encloses `Handle` by the name `*`, and the adjacent types
  `List Int` are `List` around `Int`.

  A composite type carries the text it is displayed by.  `array`, `pointer` and `generic` derive it
  from the parts; a type read from a document may carry any other.  So there are two equalities:

    1. `=` compares everything, displays included;
    2. `==` compares the structure and ignores the displays.  Declarations, owners and automata are
       matched by it.
-/

namespace LibrarySpec

/-- A semantic type. -/
inductive SemanticType where
  | simple (name : String)
  | complex (display : String) (enclosing inner : SemanticType)
deriving DecidableEq

namespace SemanticType

/-- The name of a simple type, the display of a composite one. -/
def name : SemanticType → String
  | simple name => name
  | complex display _ _ => display

/-- The enclosing name of arrays. -/
def arrayName : String := "[]"

/-- The enclosing name of pointers. -/
def pointerName : String := "*"

/-- The array type of an item. -/
def array (item : SemanticType) : SemanticType :=
  complex (item.name ++ arrayName) (simple arrayName) item

/-- The pointer type to an item. -/
def pointer (item : SemanticType) : SemanticType :=
  complex (item.name ++ pointerName) (simple pointerName) item

/-- Two adjacent types. -/
def generic (enclosing inner : SemanticType) : SemanticType :=
  complex (enclosing.name ++ " " ++ inner.name) enclosing inner

/-! ## Structure -/

/-- Whether two types have the same structure. -/
def same : SemanticType → SemanticType → Bool
  | simple a, simple b => a == b
  | complex _ e i, complex _ e' i' => same e e' && same i i'
  | _, _ => false

instance : BEq SemanticType := ⟨same⟩

@[simp] theorem simple_beq_simple (a b : String) : (simple a == simple b) = (a == b) := rfl

@[simp] theorem complex_beq_complex (d d' : String) (e e' i i' : SemanticType) :
    (complex d e i == complex d' e' i') = (e == e' && i == i') := rfl

@[simp] theorem simple_beq_complex (a d : String) (e i : SemanticType) :
    (simple a == complex d e i) = false := rfl

@[simp] theorem complex_beq_simple (a d : String) (e i : SemanticType) :
    (complex d e i == simple a) = false := rfl

instance : ReflBEq SemanticType where
  rfl {t} := by
    induction t with
    | simple => simp
    | complex _ _ _ he hi => simp [he, hi]

theorem beq_comm (s t : SemanticType) : (s == t) = (t == s) := by
  induction s generalizing t with
  | simple a => cases t <;> simp [BEq.comm]
  | complex d e i he hi => cases t <;> simp [he, hi]

instance : EquivBEq SemanticType where
  symm {s t} h := by rw [beq_comm]; exact h
  trans {s t u} h h' := by
    induction s generalizing t u with
    | simple a => cases t <;> cases u <;> simp_all
    | complex d e i he hi =>
      cases t with
      | simple => simp at h
      | complex _ e' i' =>
        cases u with
        | simple => simp at h'
        | complex _ e'' i'' =>
          simp only [complex_beq_complex, Bool.and_eq_true] at h h' ⊢
          exact ⟨he h.1 h'.1, hi h.2 h'.2⟩

/-! ## Parts and kinds -/

/-- Whether the type has parts. -/
def isComplex : SemanticType → Bool
  | simple _ => false
  | complex .. => true

/-- The enclosing part. -/
def enclosing? : SemanticType → Option SemanticType
  | simple _ => none
  | complex _ enclosing _ => some enclosing

/-- The inner part. -/
def inner? : SemanticType → Option SemanticType
  | simple _ => none
  | complex _ _ inner => some inner

/-- Whether the enclosing part is named as that of arrays. -/
def isArray (t : SemanticType) : Bool := t.enclosing?.map name == some arrayName

/-- Whether the enclosing part is named as that of pointers. -/
def isPointer (t : SemanticType) : Bool := t.enclosing?.map name == some pointerName

/-- The names of the types that hold values themselves. -/
def primitiveNames : List String := ["String", "Int", "Char", "Boolean"]

/-- Whether values of the type are references; every type but the primitive ones is. -/
def isReference (t : SemanticType) : Bool := !primitiveNames.contains t.name

/-- The arrays among some types, each once, in order of first occurrence. -/
def arrays (types : List SemanticType) : List SemanticType :=
  types.foldl (fun found t => if t.isArray && !found.contains t then found ++ [t] else found) []

end SemanticType
end LibrarySpec
