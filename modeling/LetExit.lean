import LetExit.Bytes
import LetExit.Text.Utf8
import LetExit.Text.Blank
import LetExit.Text.Printable
import LetExit.Text.Quoted
import LetExit.Token
import LetExit.Token.Lexer
import LetExit.Program
import LetExit.Program.Grammar
import LetExit.Program.Parser
import LetExit.Program.Printer
import LetExit.Program.Semantics
import LetExit.Variable
import LetExit.Error
import LetExit.Path
import LetExit.Assembly.Instr
import LetExit.Assembly.Machine
import LetExit.Assembly.Target
import LetExit.Assembly.Codegen
import LetExit.Source
import LetExit.Wire
import LetExit.Files
import LetExit.Host
import LetExit.World
import LetExit.CommandLine.Flags
import LetExit.CommandLine.Run
import LetExit.Main
import LetExit.Proofs.Lexing
import LetExit.Proofs.Parsing
import LetExit.Proofs.SourcePrograms
import LetExit.Proofs.Layout
import LetExit.Proofs.RoundTrip
import LetExit.Proofs.Generation
import LetExit.Proofs.Scoping
import LetExit.Proofs.AssemblyText
import LetExit.Proofs.Compilation
import LetExit.Proofs.Simulation
import LetExit.Proofs.Rejection
import LetExit.Proofs.AlphaEquivalence
import LetExit.Proofs.Tokenisation
import LetExit.Proofs.Derivations
import LetExit.Proofs.SyntaxErrors
import LetExit.Proofs.LayoutIndependence
import LetExit.Proofs.CanonicalForm
import LetExit.Proofs.ErrorTrees
import LetExit.Proofs.Concatenation
import LetExit.Proofs.ClosedForm
import LetExit.Proofs.Storing
import LetExit.Proofs.CommandRuns
import LetExit.Proofs.OutputFile
import LetExit.Proofs.EmitModes
import LetExit.Proofs.Offences
import LetExit.Proofs.ErrorLocations
import LetExit.Proofs.RepeatedParsing
import LetExit.Proofs.StatementSpans
import LetExit.Proofs.BuildProducts
import LetExit.Proofs.BuildComments
import LetExit.Proofs.TokenBoundaries
import LetExit.Proofs.DeclarationOrder
import LetExit.Proofs.Faults
import LetExit.Proofs.Locations
import LetExit.Proofs.WireReading
import LetExit.Proofs.Records
import LetExit.Proofs.StoredFiles
import LetExit.Proofs.ForeignNodes
import LetExit.Proofs.Spellings
