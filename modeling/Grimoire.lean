import Grimoire.Block
import Grimoire.Calendar.Date
import Grimoire.Calendar.DateText
import Grimoire.Calendar.TimePattern
import Grimoire.Calendar.Timestamp
import Grimoire.Collection
import Grimoire.CommandLine
import Grimoire.Computation
import Grimoire.Computation.Arrays
import Grimoire.Computation.Basic
import Grimoire.Computation.Numbers
import Grimoire.Computation.Texts
import Grimoire.Computation.Tomes
import Grimoire.Condition
import Grimoire.Config
import Grimoire.Config.File
import Grimoire.Config.Toml
import Grimoire.Console
import Grimoire.Construct
import Grimoire.Deed
import Grimoire.Deed.Basic
import Grimoire.Deed.Ink
import Grimoire.Effect
import Grimoire.Essence
import Grimoire.Expr.Basic
import Grimoire.Expr.Evaluation
import Grimoire.Expr.Layer
import Grimoire.Expr.Reader
import Grimoire.Fault
import Grimoire.Files
import Grimoire.Host
import Grimoire.Json.Basic
import Grimoire.Json.Reader
import Grimoire.Json.Writer
import Grimoire.Library.Basic
import Grimoire.Library.Standard
import Grimoire.Limits
import Grimoire.Machine
import Grimoire.Main
import Grimoire.Nesting
import Grimoire.Nesting.Lemmas
import Grimoire.Number.Basic
import Grimoire.Number.Decimal
import Grimoire.Number.Dyadic
import Grimoire.Operands
import Grimoire.Pattern
import Grimoire.Pattern.Lemmas
import Grimoire.Program
import Grimoire.Program.Check
import Grimoire.Program.Run
import Grimoire.Proofs.Arrivals
import Grimoire.Proofs.Atoms
import Grimoire.Proofs.Balance
import Grimoire.Proofs.Bindings
import Grimoire.Proofs.Blind.Expressions
import Grimoire.Proofs.Blind.Libraries
import Grimoire.Proofs.Blind.Resources
import Grimoire.Proofs.Blind.Statements
import Grimoire.Proofs.Brackets
import Grimoire.Proofs.Bundles
import Grimoire.Proofs.Characters
import Grimoire.Proofs.Checking
import Grimoire.Proofs.Clauses
import Grimoire.Proofs.Commas
import Grimoire.Proofs.Comparisons
import Grimoire.Proofs.Containment
import Grimoire.Proofs.Counting
import Grimoire.Proofs.Data
import Grimoire.Proofs.DateTexts
import Grimoire.Proofs.Descent
import Grimoire.Proofs.Digits
import Grimoire.Proofs.Dispatch
import Grimoire.Proofs.Documents
import Grimoire.Proofs.Draws
import Grimoire.Proofs.Edits
import Grimoire.Proofs.Encoding
import Grimoire.Proofs.Endings
import Grimoire.Proofs.Evaluation
import Grimoire.Proofs.Evaluation.Computations
import Grimoire.Proofs.Evaluation.Deeds
import Grimoire.Proofs.Evaluation.Expressions
import Grimoire.Proofs.Evaluation.Libraries
import Grimoire.Proofs.Evaluation.Resources
import Grimoire.Proofs.Evaluation.Stored
import Grimoire.Proofs.Frames
import Grimoire.Proofs.Grammar
import Grimoire.Proofs.Grounded
import Grimoire.Proofs.Guards
import Grimoire.Proofs.HigherOrder
import Grimoire.Proofs.InPlace
import Grimoire.Proofs.Insertion
import Grimoire.Proofs.Interpolation
import Grimoire.Proofs.JoinedLines
import Grimoire.Proofs.Leftovers
import Grimoire.Proofs.Lens
import Grimoire.Proofs.Lines
import Grimoire.Proofs.Literals
import Grimoire.Proofs.Locations
import Grimoire.Proofs.Masks
import Grimoire.Proofs.Matching
import Grimoire.Proofs.Melding
import Grimoire.Proofs.Mirrors
import Grimoire.Proofs.Mixing
import Grimoire.Proofs.Names
import Grimoire.Proofs.OrderedTomes
import Grimoire.Proofs.Outcomes
import Grimoire.Proofs.Padding
import Grimoire.Proofs.Parameters
import Grimoire.Proofs.Phrases
import Grimoire.Proofs.Pieces
import Grimoire.Proofs.Predicates
import Grimoire.Proofs.Purity
import Grimoire.Proofs.ReadBack
import Grimoire.Proofs.Recognition
import Grimoire.Proofs.Recognizers
import Grimoire.Proofs.Recursion
import Grimoire.Proofs.Refusals
import Grimoire.Proofs.Related
import Grimoire.Proofs.Replacements
import Grimoire.Proofs.RoundTrip
import Grimoire.Proofs.Runs
import Grimoire.Proofs.SavePaths
import Grimoire.Proofs.Seals
import Grimoire.Proofs.Seams
import Grimoire.Proofs.Searching
import Grimoire.Proofs.SelfContainment
import Grimoire.Proofs.Sentences
import Grimoire.Proofs.ShapeForms
import Grimoire.Proofs.Shapely
import Grimoire.Proofs.Shapes
import Grimoire.Proofs.Shuffles
import Grimoire.Proofs.Slices
import Grimoire.Proofs.Sorting
import Grimoire.Proofs.Spared
import Grimoire.Proofs.Steps
import Grimoire.Proofs.Strands
import Grimoire.Proofs.Streams
import Grimoire.Proofs.Structured
import Grimoire.Proofs.Takings
import Grimoire.Proofs.Targets
import Grimoire.Proofs.TimePatterns
import Grimoire.Proofs.TimeTexts
import Grimoire.Proofs.Tolls.Expressions
import Grimoire.Proofs.Tolls.Libraries
import Grimoire.Proofs.Tolls.Programs
import Grimoire.Proofs.Tolls.Resources
import Grimoire.Proofs.Tolls.Statements
import Grimoire.Proofs.Trails
import Grimoire.Proofs.TripleQuotes
import Grimoire.Proofs.Turns
import Grimoire.Proofs.Unambiguous
import Grimoire.Proofs.Unlocated
import Grimoire.Proofs.Walker
import Grimoire.Proofs.Walks
import Grimoire.Proofs.WholeNumbers
import Grimoire.Proofs.Words
import Grimoire.Resources
import Grimoire.Scope
import Grimoire.Statement
import Grimoire.Store
import Grimoire.Store.Document
import Grimoire.Store.Walk
import Grimoire.Table
import Grimoire.Text.Basic
import Grimoire.Text.Blank
import Grimoire.Text.Case
import Grimoire.Text.CaseTable
import Grimoire.Text.Digit
import Grimoire.Text.Ranges
import Grimoire.Text.Shaping
import Grimoire.Text.Word
import Grimoire.Value
import Grimoire.Xorshift
