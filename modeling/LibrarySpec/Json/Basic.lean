/-
  Documents in JSON.

  A `Json` value is a tree.  It keeps apart the two kinds of number that a document can spell, an
  integer and a number with a point or an exponent, because a contract keeps them apart too.  The
  members of an object stay in the order of the document; if a name occurs twice, the last member
  counts.

  `items?` and the readers of leaves take a value apart.  The items of an array are smaller than the
  array, and `items?` answers the proof along with them, so that a function on trees can recurse on
  what it has looked up.  The parts of an object are the subject of `Json/Record`.
-/
import LibrarySpec.Decimal.Binary64

namespace LibrarySpec

/-- A JSON value. -/
inductive Json where
  | null
  | bool (value : Bool)
  | integer (value : Int)
  | float (value : Binary64)
  | string (value : String)
  | array (items : List Json)
  | object (members : List (String × Json))
deriving Inhabited

namespace Json

/-- The characters that may stand between the parts of a document. -/
def isSpace (c : Char) : Bool := c == ' ' || c == '\n' || c == '\t' || c == '\r'

/-- The last member with this name. -/
def lookup (name : String) : List (String × Json) → Option Json
  | [] => none
  | (key, value) :: rest =>
    match lookup name rest with
    | some later => some later
    | none => if key = name then some value else none

theorem mem_of_lookup {name : String} {members : List (String × Json)} {value : Json}
    (h : lookup name members = some value) : ∃ key, (key, value) ∈ members := by
  induction members with
  | nil => cases h
  | cons m rest ih =>
    obtain ⟨key, v⟩ := m
    unfold lookup at h
    split at h
    · rename_i later found
      cases h
      obtain ⟨k, mem⟩ := ih found
      exact ⟨k, List.mem_cons_of_mem _ mem⟩
    · split at h
      · cases h
        exact ⟨key, List.mem_cons_self⟩
      · cases h

/-- The member of an object with this name. -/
def member? (json : Json) (name : String) : Option Json :=
  match json with
  | object members => lookup name members
  | _ => none

/-- The items of an array. -/
def items? (json : Json) : Option (List { value : Json // sizeOf value < sizeOf json }) :=
  match json with
  | array items => some (items.attach.map fun item => ⟨item.1, by
      have := List.sizeOf_lt_of_mem item.2
      simp only [array.sizeOf_spec]
      omega⟩)
  | _ => none

/-- The text, if the value is one. -/
def string? : Json → Option String
  | string value => some value
  | _ => none

/-- The truth value, if the value is one. -/
def bool? : Json → Option Bool
  | bool value => some value
  | _ => none

/-- What a reader makes of the member of an object with this name. -/
def field? {α : Type} (json : Json) (name : String) (read : Json → Option α) : Option α :=
  (json.member? name).bind read

/-- What a reader makes of a value that may be missing or null. -/
def optional? {α : Type} (read : Json → Option α) : Option Json → Option (Option α)
  | none | some null => some none
  | some value => (read value).map some

/-- What a reader makes of the items of an array. -/
def list? {α : Type} (read : Json → Option α) : Json → Option (List α)
  | array items => items.mapM read
  | _ => none

/-- The texts in an array. -/
def strings? : Json → Option (List String) := list? string?

/-- The value for an optional part. -/
def ofOption {α : Type} (write : α → Json) : Option α → Json
  | none => null
  | some a => write a

/-- The value for a list of texts. -/
def ofStrings (texts : List String) : Json := array (texts.map string)

end Json
end LibrarySpec
