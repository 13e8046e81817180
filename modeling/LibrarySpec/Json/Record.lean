/-
  Records in JSON.

  A record is a value with named parts.  A document writes it in one of two ways:

    1. as an object, whose members are the parts in any order, among members of other names;
    2. as an array of all the parts, in the order of their names, and of nothing else.

  `record?` reads either into a `Record`, which looks up parts by name.  A part is smaller than the
  document it stands in, and `member?` answers the proof along with it.

  `word?` reads a word for one of several choices.  It is a string, or an object whose only member
  has the word for its name and null for its value.  `kinded` and `kinded?` write and read a record
  of such a word and a value.
-/
import LibrarySpec.Json.Basic

namespace LibrarySpec.Json

/-- The named parts of a document. -/
structure Record (json : Json) where
  members : List (String × Json)
  smaller : ∀ m ∈ members, sizeOf m.2 < sizeOf json

theorem sizeOf_member_lt {members : List (String × Json)} {m : String × Json} (h : m ∈ members) :
    sizeOf m.2 < sizeOf (object members) := by
  obtain ⟨name, value⟩ := m
  have := List.sizeOf_lt_of_mem h
  simp only [Prod.mk.sizeOf_spec] at this
  simp only [object.sizeOf_spec]
  omega

theorem sizeOf_item_lt {names : List String} {items : List Json} {m : String × Json}
    (h : m ∈ names.zip items) : sizeOf m.2 < sizeOf (array items) := by
  have := List.sizeOf_lt_of_mem (List.of_mem_zip h).2
  simp only [array.sizeOf_spec]
  omega

/-- The record with parts of these names that a document writes. -/
def record? (json : Json) (names : List String) : Option (Record json) :=
  match json with
  | object members => some ⟨members, fun _ => sizeOf_member_lt⟩
  | array items =>
    if items.length = names.length then some ⟨names.zip items, fun _ => sizeOf_item_lt⟩ else none
  | _ => none

/-- What tells the kind of a record that comes in several: the member of this name, or the first
    item. -/
def tag? (json : Json) (name : String) : Option Json :=
  match json with
  | object members => lookup name members
  | array items => items.head?
  | _ => none

/-- The word that a document writes. -/
def word? : Json → Option String
  | string word => some word
  | object [(word, null)] => some word
  | _ => none

namespace Record

/-- The part with this name. -/
def member? {json : Json} (record : Record json) (name : String) :
    Option { value : Json // sizeOf value < sizeOf json } :=
  match h : lookup name record.members with
  | some value => some ⟨value, by
      obtain ⟨key, mem⟩ := mem_of_lookup h
      exact record.smaller _ mem⟩
  | none => none

/-- What a reader makes of the part with this name. -/
def field? {α : Type} {json : Json} (record : Record json) (name : String)
    (read : Json → Option α) : Option α :=
  (lookup name record.members).bind read

/-- What a reader makes of a part that may be missing or null. -/
def optionalField? {α : Type} {json : Json} (record : Record json) (name : String)
    (read : Json → Option α) : Option (Option α) :=
  optional? read (lookup name record.members)

end Record

/-- What a reader makes of the only part of a record. -/
def only? {α : Type} (json : Json) (name : String) (read : Json → Option α) : Option α :=
  (json.record? [name]).bind (·.field? name read)

/-- The document of a node of one of several kinds. -/
def kinded (kind : String) (value : Json) : Json :=
  object [("kind", string kind), ("value", value)]

/-- The kind of a node of one of several kinds, and its value. -/
def kinded? (json : Json) : Option (String × { value : Json // sizeOf value < sizeOf json }) := do
  let record ← json.record? ["kind", "value"]
  return (← record.field? "kind" word?, ← record.member? "value")

end LibrarySpec.Json
