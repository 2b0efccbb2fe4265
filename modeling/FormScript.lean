import FormScript.Reading.Program
import FormScript.Build.FileTree
import FormScript.Main
import FormScript.Proofs.Reading.Rendering
import FormScript.Proofs.Reading.Spans
import FormScript.Proofs.Reading.Completion
import FormScript.Proofs.Reading.Concatenation
import FormScript.Proofs.Compiling.LayoutIndependence
import FormScript.Proofs.Compiling.Concatenation
import FormScript.Proofs.Compiling.Histories
import FormScript.Proofs.Lowering.Promises
import FormScript.Proofs.Macro.Expansion
import FormScript.Proofs.Number.Nearest
import FormScript.Proofs.Number.RoundTrip
import FormScript.Proofs.Lowering.Bracketing
import FormScript.Proofs.Lowering.Composition
import FormScript.Proofs.Lowering.BracketedForms
import FormScript.Proofs.Reading.Atoms
import FormScript.Proofs.Compiling.Bracketing
import FormScript.Proofs.Lowering.Fragment
import FormScript.Proofs.Lowering.Readability
import FormScript.Proofs.Reading.Mirror
import FormScript.Proofs.Compiling.Streams
import FormScript.Proofs.Sexp.StringValue
import FormScript.Proofs.Lowering.Quotation
import FormScript.Proofs.Compiling.Mirror
import FormScript.Proofs.Macro.Registry
import FormScript.Proofs.Macro.Failures
import FormScript.Proofs.Macro.Vocabulary
import FormScript.Proofs.Lowering.Makeup
import FormScript.Proofs.Lowering.Coupling
import FormScript.Proofs.Compiling.Limits
import FormScript.Proofs.Compiling.Relevance
import FormScript.Proofs.Build.FileTree
import FormScript.Proofs.Compiling.Registries
import FormScript.Proofs.Build.Runs
import FormScript.Proofs.Build.Stages
import FormScript.Proofs.Lowering.Demands
import FormScript.Proofs.Macro.Positions
import FormScript.Proofs.Lowering.Positions
import FormScript.Proofs.Lowering.Contracts
import FormScript.Proofs.Lowering.Comparisons
import FormScript.Proofs.Macro.StringEquality
import FormScript.Proofs.Lowering.Openings
import FormScript.Proofs.Lowering.Adjacency
import FormScript.Proofs.Compiling.Statements
import FormScript.Proofs.Reading.Places
import FormScript.Proofs.Compiling.Diagnostics
import FormScript.Proofs.Macro.Templates
import FormScript.Proofs.Build.Effects
import FormScript.Proofs.Compiling.Standstill
import FormScript.Proofs.Reading.Nesting
import FormScript.Proofs.Compiling.Nesting
import FormScript.Proofs.Number.Grammar
import FormScript.Proofs.Reading.Literals
