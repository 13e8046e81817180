/-
  Parsing of semantic types.

      type := atom type?
      atom := identifier ('[' ']' | '*')*

  A bracket pair and a star bind to the atom before them; adjacent atoms nest to the right, so
  `A B C` is `A` around `B` around `C`.
-/
import LibrarySpec.Parser
import LibrarySpec.SemanticType

namespace LibrarySpec.SemanticType

open LibrarySpec.Parser

/-- Adjacent types nested to the right. -/
def nest : SemanticType → List SemanticType → SemanticType
  | first, [] => first
  | first, second :: rest => generic first (nest second rest)

/-- One array or pointer mark behind an atom. -/
def mark : Parser (Option (SemanticType → SemanticType)) := do
  if (← check (.symbol .openBracket)) && (← peekSecond) = .symbol .closeBracket then
    advance
    advance
    return some array
  else if ← eat (.symbol .star) then
    return some pointer
  else
    return none

/-- A name with its marks. -/
def atom : Parser SemanticType := do
  let name ← identifier "type name"
  let marks ← collect mark
  return marks.foldl (fun t wrap => wrap t) (simple name)

/-- A type. -/
def parser : Parser SemanticType := do
  let first ← atom
  let more ← collect do
    if ← atIdentifier then return some (← atom) else return none
  return nest first more

end LibrarySpec.SemanticType
