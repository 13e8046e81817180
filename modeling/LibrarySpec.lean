import LibrarySpec.Decimal.Notation
import LibrarySpec.Text.Utf8
import LibrarySpec.Text.Blank
import LibrarySpec.Text.Position
import LibrarySpec.Text.Quoted
import LibrarySpec.Digest
import LibrarySpec.Token.Basic
import LibrarySpec.Token.Scan
import LibrarySpec.Library.Basic
import LibrarySpec.Library.Parser
import LibrarySpec.Library.Printer
import LibrarySpec.Include
import LibrarySpec.Json.Printer
import LibrarySpec.Json.Parser
import LibrarySpec.Library.Json
import LibrarySpec.Completion.Config
import LibrarySpec.CommandLine.Run
import LibrarySpec.Main
import LibrarySpec.Proofs.Decimals
import LibrarySpec.Proofs.Parsing
import LibrarySpec.Proofs.Safety
import LibrarySpec.Proofs.Completion.Guarantees
import LibrarySpec.Proofs.Completion.Reprint
import LibrarySpec.Proofs.Layout
import LibrarySpec.Proofs.Json.Libraries
import LibrarySpec.Proofs.Json.Texts
import LibrarySpec.Proofs.Canonical
import LibrarySpec.Proofs.CommandLine.Commands
import LibrarySpec.Proofs.Numbers
import LibrarySpec.Proofs.NormalForm.Printing
import LibrarySpec.Proofs.Scanning.Partition
import LibrarySpec.Proofs.TypeNames
import LibrarySpec.Proofs.Ownership
import LibrarySpec.Proofs.Completion.Order
import LibrarySpec.Proofs.Completion.Rendering
import LibrarySpec.Proofs.Completion.Displays
import LibrarySpec.Proofs.Completion.ArrayTypes
import LibrarySpec.Proofs.Scanning.Lines
import LibrarySpec.Proofs.TableHistory
import LibrarySpec.Proofs.Variables
import LibrarySpec.Proofs.Truncation.Libraries
import LibrarySpec.Proofs.VerbatimText
