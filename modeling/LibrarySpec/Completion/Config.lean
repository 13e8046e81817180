/-
  Configurations of completion.

  A configuration has two optional parts: the conversion rules and the template of array types.  A
  JSON document writes it as an object, or as an array of the parts in this order, of which those at
  the end may be left out.  Either part may be null, which is the same as missing.  A member of
  another name, a member that occurs twice, or a third item is refused; a rule that occurs twice
  counts as its last.
-/
import LibrarySpec.Completion.Basic
import LibrarySpec.Json.Parser
import LibrarySpec.Text.Visible

namespace LibrarySpec

/-- What a configuration file says. -/
structure Config where
  complexTypes : Option Rules
  arrayTemplate : Option String
deriving DecidableEq

namespace Config

/-- The configuration that says nothing. -/
def default : Config := ⟨none, none⟩

/-- The rules of a document. -/
def rulesOfJson? : Json → Option Rules
  | .object members =>
    (members.mapM fun member => (Json.string? member.2).map fun text => (member.1, text)).map
      Rules.ofList
  | _ => none

/-- The names of the parts, in order. -/
def names : List String := ["complex_types", "array_template"]

/-- The parts that a document writes, by name. -/
def members? : Json → Option (List (String × Json))
  | .object members =>
    let written := members.map (·.1)
    if written.all (names.contains ·) && written.Nodup then some members else none
  | .array items => if items.length ≤ names.length then some (names.zip items) else none
  | _ => none

/-- The configuration of a document. -/
def ofJson? (json : Json) : Option Config := do
  let members ← members? json
  let complexTypes ← Json.optional? rulesOfJson? (Json.lookup "complex_types" members)
  let arrayTemplate ← Json.optional? Json.string? (Json.lookup "array_template" members)
  return { complexTypes, arrayTemplate }

/-- The configuration of a text. -/
def parse? (text : String) : Option Config := (Json.parse text).bind ofJson?

/-- The completion that a configuration asks for. -/
def toCompletion (config : Config) : Completion :=
  ⟨config.complexTypes, config.arrayTemplate.map Template.fill⟩

end Config

/-- The text that shows rules. -/
def Rules.toText (rules : Rules) : String :=
  let entries := rules.entries.map fun (key, template) =>
    Text.Visible.quoted key ++ ": " ++ Text.Visible.quoted template
  "ConversionRules(\x7b" ++ ", ".intercalate entries ++ "\x7d)"

/-- The text that shows a completion. -/
def Completion.toText (c : Completion) : String :=
  let rules :=
    match c.rules with
    | none => "None"
    | some rules => "Some(" ++ rules.toText ++ ")"
  "Completion \x7b complex_rules: " ++ rules ++ ", array_conversion: "
    ++ (if c.arrayConversion.isSome then "true" else "false") ++ " \x7d"

end LibrarySpec
