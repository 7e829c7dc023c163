import Script.Main
import Script.Routine.Agreement
import Script.Syntax.Node
import Script.Proofs.Parser.Reading
import Script.Proofs.Routine
import Script.Proofs.Parser.Descent
import Script.Proofs.Parser.Effort
import Script.Proofs.Parser.Bare
import Script.Proofs.Parser.Completeness
import Script.Proofs.Parser.Soundness
import Script.Proofs.Parser.Printer
import Script.Proofs.Parser.RoundTrip
import Script.Proofs.Lexer.Partition
import Script.Proofs.Scopes.Store
import Script.Proofs.Scopes.Value
import Script.Proofs.Scopes.Confined
import Script.Proofs.Scopes.Frame
import Script.Proofs.Output
import Script.Proofs.Routine.Configuration
import Script.Proofs.Routine.Trace
import Script.Proofs.Lockstep.Match
import Script.Proofs.Lockstep.Likeness
import Script.Proofs.Lockstep.Evaluation
import Script.Proofs.Lockstep.Runs
import Script.Proofs.Lockstep.Same
import Script.Proofs.Lockstep.Region
import Script.Proofs.Lockstep.Answers
import Script.Proofs.Lockstep.Correspondence
import Script.Proofs.Lockstep.Padding
import Script.Proofs.Lockstep.Renaming
import Script.Proofs.Scopes.Reach
import Script.Proofs.Sessions
import Script.Proofs.Scopes.Isolation
import Script.Proofs.Scopes.Lexical
import Script.Proofs.Identity.Catalogue
import Script.Proofs.Calls.Limit
import Script.Proofs.Calls.Depth
import Script.Proofs.Calls.Termination
import Script.Proofs.Nodes
import Script.Proofs.Sources
import Script.Proofs.Parser.Places
import Script.Proofs.Parser.Failure
import Script.Proofs.Parser.Viable
import Script.Proofs.Parser.Earliest
import Script.Proofs.Parser.Ending
import Script.Proofs.Faults
import Script.Proofs.Diagnostics
import Script.Proofs.Provenance
import Script.Proofs.Lexer.Boundary
import Script.Proofs.Lexer.Lines
import Script.Proofs.Parser.Moved
import Script.Proofs.Parser.Joined
import Script.Proofs.Lockstep.Moved
import Script.Proofs.Continuation
import Script.Proofs.Number.ReadBack
import Script.Proofs.Lexer.Rendering
import Script.Proofs.Values
import Script.Proofs.Literals
import Script.Proofs.Names.Binders
import Script.Proofs.Names.Bound
import Script.Proofs.Names.Weakening
import Script.Proofs.Braces.Trees
import Script.Proofs.Braces.Evaluation
import Script.Proofs.Identity.Creation
import Script.Proofs.Identity.Equality
import Script.Proofs.Number.Literal
import Script.Proofs.Lexer.Display
import Script.Proofs.Comments
import Script.Proofs.Lexer.Failure
import Script.Proofs.Lexer.LineEnds
import Script.Proofs.Parameters
import Script.Proofs.Scopes.Assignment
import Script.Proofs.Identity.Contents
import Script.Proofs.Indexing
import Script.Proofs.Number.Text
import Script.Proofs.ObjectLiterals
import Script.Proofs.Comparison
import Script.Proofs.LooseEquality
import Script.Proofs.Routine.Asks
import Script.Proofs.Parser.Progress
