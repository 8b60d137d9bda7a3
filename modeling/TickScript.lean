import TickScript.Text.Case
import TickScript.Number.Spelling
import TickScript.Registry
import TickScript.Token.Lexer
import TickScript.CommandLine
import TickScript.Elapsed
import TickScript.Value.Arithmetic
import TickScript.Value.Order
import TickScript.State
import TickScript.Expr.Reader
import TickScript.Eval
import TickScript.Library
import TickScript.Library.Probe
import TickScript.Interpreter
import TickScript.Session
import TickScript.Command
import TickScript.Config
import TickScript.Console
import TickScript.FileTree
import TickScript.Program
import TickScript.Main
import TickScript.Proofs.Registries
import TickScript.Proofs.Runs
import TickScript.Proofs.Loops
import TickScript.Proofs.Tables
import TickScript.Proofs.Kinds
import TickScript.Proofs.Pieces
import TickScript.Proofs.Nodes
import TickScript.Proofs.Scripted
import TickScript.Proofs.Hosts
import TickScript.Proofs.Origins
import TickScript.Proofs.Rounds
import TickScript.Proofs.Ticks
import TickScript.Proofs.Stopping
import TickScript.Proofs.OperatorTrees
import TickScript.Proofs.Reading
import TickScript.Proofs.Heights
import TickScript.Proofs.Precedence
import TickScript.Proofs.Tokens
import TickScript.Proofs.Operators
import TickScript.Proofs.Nesting
import TickScript.Proofs.Printing
import TickScript.Proofs.RoundTrip
import TickScript.Proofs.Series
import TickScript.Proofs.Reports
import TickScript.Proofs.Blame
import TickScript.Proofs.Depth
import TickScript.Proofs.Scopes
import TickScript.Proofs.Starts
import TickScript.Proofs.Yields
import TickScript.Proofs.Literals
import TickScript.Proofs.Invocation
import TickScript.Proofs.Alike
import TickScript.Proofs.Layout
import TickScript.Proofs.Comparing
import TickScript.Proofs.Spans
import TickScript.Proofs.Likeness
import TickScript.Proofs.Respects
import TickScript.Proofs.Definitions
import TickScript.Proofs.Shadowing
import TickScript.Proofs.Appending
import TickScript.Proofs.Statements
import TickScript.Proofs.Grouping
import TickScript.Proofs.Unpacking
import TickScript.Proofs.Passing
import TickScript.Proofs.Targets
import TickScript.Proofs.Destructuring
import TickScript.Proofs.Pulling
import TickScript.Proofs.Adjacency
import TickScript.Proofs.Snippets
import TickScript.Proofs.Chains
import TickScript.Proofs.Conversions
import TickScript.Proofs.Choices
import TickScript.Proofs.NamedCalls
import TickScript.Proofs.Counts
import TickScript.Proofs.Elements
import TickScript.Proofs.Coherence
import TickScript.Proofs.Answers
import TickScript.Proofs.Sorting
import TickScript.Proofs.Slices
import TickScript.Proofs.Spellings
import TickScript.Proofs.Rounding
import TickScript.Proofs.Decimals
import TickScript.Proofs.PrintedNumbers
import TickScript.Proofs.Sums
import TickScript.Proofs.Ranges
import TickScript.Proofs.ListedArguments
import TickScript.Proofs.Boxes
import TickScript.Proofs.Scans
import TickScript.Proofs.Commands
import TickScript.Proofs.Directives
import TickScript.Proofs.Volumes
import TickScript.Proofs.Draws
import TickScript.Proofs.GlobalNames
import TickScript.Proofs.OptionSpellings
