/-
  Everything that can go wrong, and how it is reported.

  A `SyntaxFault` is a fault in the text of a specification; it knows its place, and its message
  ends with that place.  A `Fault` is any failure of the library: a syntax fault, a function without
  a single owner, a lookup that finds nothing, or a source that is no text.

  Two of the faults concern token streams that lack their end.  A stream made by scanning a text
  ends with an end of input, at which every reading stops.  A stream cut short has no such token: a
  reader that has passed its last token sees that token again and again, so it may ask for a token
  that is not there (`overrun`) or never come to an end (`endless`).
-/
import LibrarySpec.Text.Position
import LibrarySpec.Text.Utf8
import LibrarySpec.Token.Basic

namespace LibrarySpec

open Text (Position)

/-! ## Faults in a text -/

/-- A fault in the text of a specification. -/
inductive SyntaxFault where
  | unterminatedComment (start : Position)
  | unterminatedString (start : Position)
  | unterminatedQuote (start : Position)
  /-- A backslash ends the text inside a string. -/
  | unterminatedEscape (place : Position)
  /-- A backslash stands before a character that means nothing there; the place is after it. -/
  | invalidEscape (letter : Char) (place : Position)
  /-- An integer beyond 64 bits. -/
  | integerOutOfRange (digits : String) (start : Position)
  /-- Another token was wanted. -/
  | unexpected (wanted : String) (found : Token) (place : Position)
  /-- Verbatim text without a single token. -/
  | emptyText (wanted : String) (place : Position)
  /-- The input ends inside a contract. -/
  | contractCut (place : Position)
  /-- A second package; the place is that of the automaton. -/
  | duplicatePackage (automaton : String) (place : Position)
  /-- A second static declaration; the place is that of the function. -/
  | duplicateStatic (function : String) (place : Position)
  /-- A function whose name is a composite type; the place is that of the function. -/
  | compoundName (type : String) (place : Position)
deriving DecidableEq

namespace SyntaxFault

/-- Where the fault is reported. -/
def place : SyntaxFault → Position
  | unterminatedComment p | unterminatedString p | unterminatedQuote p | unterminatedEscape p
  | invalidEscape _ p | integerOutOfRange _ p | unexpected _ _ p | emptyText _ p | contractCut p
  | duplicatePackage _ p | duplicateStatic _ p | compoundName _ p => p

/-- What the message says before the place. -/
def explanation : SyntaxFault → String
  | unterminatedComment _ => "Unterminated block comment starting at "
  | unterminatedString _ => "Unterminated string starting at "
  | unterminatedQuote _ => "Unterminated quote starting at "
  | unterminatedEscape _ => "Unterminated escape sequence at "
  | invalidEscape letter _ => "Invalid escape sequence '\\" ++ letter.toString ++ "' at "
  | integerOutOfRange digits _ => "Invalid integer '" ++ digits ++ "' at "
  | unexpected wanted found _ => "Expected " ++ wanted ++ ", found " ++ found.describe ++ " at "
  | emptyText wanted _ => "Expected " ++ wanted ++ " at "
  | contractCut _ => "Unexpected end of input in contract at "
  | duplicatePackage automaton _ => "Duplicate javapackage in automaton " ++ automaton ++ " at "
  | duplicateStatic function _ =>
    "Duplicate static declaration in function " ++ function ++ " at "
  | compoundName type _ =>
    "Function name must be an identifier, found type '" ++ type ++ "' at "

/-- The message, which ends with the place. -/
def message (fault : SyntaxFault) : String := fault.explanation ++ fault.place.toText

end SyntaxFault

/-! ## Failures of the library -/

/-- A failure. -/
inductive Fault where
  | syntactic (fault : SyntaxFault)
  /-- No argument marks the owner of a function. -/
  | missingHandle (function : String)
  /-- Several arguments mark the owner of a function. -/
  | ambiguousHandle (function : String) (count : Nat)
  | unknownOperator (text : String)
  /-- A type that no declaration gives a code type. -/
  | missingTypeDecl (type : String)
  /-- An enclosing type that no rule converts. -/
  | missingConversionRule (enclosing : String)
  /-- Bytes that are no text. -/
  | invalidUtf8 (fault : Text.Utf8.Fault)
  /-- A source that could not be read to its end. -/
  | unreadable (reason : String)
  /-- A token was asked for past the end of a stream cut short. -/
  | overrun
  /-- A stream cut short would be read forever. -/
  | endless
deriving DecidableEq

namespace Fault

/-- The message of a failure. -/
def message : Fault → String
  | syntactic fault => "Parse error: " ++ fault.message
  | missingHandle function => "No @handle argument in function " ++ function
  | ambiguousHandle function count =>
    "Ambiguous @handle arguments in function " ++ function ++ ": found " ++ toString count
  | unknownOperator text => "Unknown operator '" ++ text ++ "'"
  | missingTypeDecl type => "No type declaration for semantic type '" ++ type ++ "'"
  | missingConversionRule enclosing =>
    "No conversion rule for enclosing type '" ++ enclosing ++ "'"
  | invalidUtf8 fault => "Invalid UTF-8 in source: " ++ fault.message
  | unreadable reason => "I/O error: " ++ reason
  | overrun => "Token stream ends inside verbatim text"
  | endless => "Token stream has no end"

end Fault
end LibrarySpec
