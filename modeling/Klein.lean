import Klein.Main
import Klein.Tree.Equality
import Klein.Tree.Listing
import Klein.Proofs.Scanner.Ahead
import Klein.Proofs.Scanner.Spelling
import Klein.Proofs.Scanner.Reading
import Klein.Proofs.Scanner.Division
import Klein.Proofs.Scanner.Positions
import Klein.Proofs.Scanner.Comments
import Klein.Proofs.Scanner.Requests
import Klein.Proofs.Scanner.Splicing
import Klein.Proofs.Grammar.Prediction
import Klein.Proofs.Parser.Run
import Klein.Proofs.Parser.Contract
import Klein.Proofs.Parser.Acceptance
import Klein.Proofs.Parser.Safety
import Klein.Proofs.Parser.Nodes
import Klein.Proofs.Parser.Alike
import Klein.Proofs.Parser.Offense
import Klein.Proofs.Scanner.Writing
import Klein.Proofs.Tree.Printing
import Klein.Proofs.Tree.Equality
import Klein.Proofs.Tree.Paths
import Klein.Proofs.Parser.RoundTrip
import Klein.Proofs.Analysis.Checking
import Klein.Proofs.Analysis.Scopes
import Klein.Proofs.Analysis.Nesting
import Klein.Proofs.Analysis.Environment
import Klein.Proofs.Analysis.Soundness
import Klein.Proofs.Analysis.Signatures
import Klein.Proofs.Analysis.Faults
import Klein.Proofs.Analysis.HasType
import Klein.Proofs.Analysis.Decision
import Klein.Proofs.Analysis.Globals
import Klein.Proofs.Analysis.Outcome
import Klein.Proofs.Analysis.Annotations
import Klein.Proofs.Analysis.Equality
import Klein.Proofs.Analysis.Mentions
import Klein.Proofs.Analysis.Diagnostics
import Klein.Proofs.Analysis.Order
import Klein.Proofs.Analysis.CallGraph
import Klein.Proofs.Analysis.Parameters
import Klein.Proofs.Analysis.Reporting
import Klein.Proofs.Machine.Execution
import Klein.Proofs.Machine.Numbering
import Klein.Proofs.Code.Instructions
import Klein.Proofs.Code.Frames
import Klein.Proofs.Code.Convention
import Klein.Proofs.Code.Correctness
import Klein.Proofs.Code.Setup
import Klein.Proofs.Code.Arguments
import Klein.Proofs.Code.Linking
import Klein.Proofs.Code.Listing
import Klein.Proofs.Text.Filling
import Klein.Proofs.Text.Caret
import Klein.Proofs.Text.Forest
import Klein.Proofs.Tree.Outline
import Klein.Proofs.Tree.Display
import Klein.Proofs.Tree.Drawing
import Klein.Proofs.Tool.Compile
