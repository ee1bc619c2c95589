import PrefixScript.Text.Blank
import PrefixScript.Text.Lines
import PrefixScript.Text.Quoted
import PrefixScript.Number.Binary
import PrefixScript.Number.Order
import PrefixScript.Number.Whole
import PrefixScript.Number.Shortest
import PrefixScript.Number.Layout
import PrefixScript.Number.Numeral
import PrefixScript.Source
import PrefixScript.Expr
import PrefixScript.Program
import PrefixScript.Builtin
import PrefixScript.Store
import PrefixScript.Session
import PrefixScript.Playground
import PrefixScript.Main
import PrefixScript.Proofs.Confinement
import PrefixScript.Proofs.BracketScan
import PrefixScript.Proofs.Number.Bits
import PrefixScript.Proofs.Number.Rounding
import PrefixScript.Proofs.Number.Shortest
import PrefixScript.Proofs.Number.Digits
import PrefixScript.Proofs.Number.Writing
import PrefixScript.Proofs.Number.Layouts
import PrefixScript.Proofs.Comments
import PrefixScript.Proofs.Lexing
import PrefixScript.Proofs.Words
import PrefixScript.Proofs.Rendering
import PrefixScript.Proofs.Number.Sums
import PrefixScript.Proofs.Policy
import PrefixScript.Proofs.Builtins
import PrefixScript.Proofs.Finiteness
import PrefixScript.Proofs.Calls
import PrefixScript.Proofs.Isolation
import PrefixScript.Proofs.Limits
import PrefixScript.Proofs.Nesting
import PrefixScript.Proofs.Lines
import PrefixScript.Proofs.Positions
import PrefixScript.Proofs.Faults
import PrefixScript.Proofs.Reports
import PrefixScript.Proofs.Requests
import PrefixScript.Proofs.FirstFailure
import PrefixScript.Proofs.Causality
import PrefixScript.Proofs.Misuse
import PrefixScript.Proofs.Relabelling
import PrefixScript.Proofs.Origins
import PrefixScript.Proofs.Decomposition
import PrefixScript.Proofs.Checking
import PrefixScript.Proofs.Reasons
import PrefixScript.Proofs.StandardInput
import PrefixScript.Proofs.Hosts
import PrefixScript.Proofs.Concatenation
import PrefixScript.Proofs.Completion
import PrefixScript.Proofs.Lineless
import PrefixScript.Proofs.Termination
import PrefixScript.Proofs.Printing
import PrefixScript.Proofs.Leaves
import PrefixScript.Proofs.Lookups
import PrefixScript.Proofs.Unread
import PrefixScript.Proofs.Heights
import PrefixScript.Proofs.Number.Order
import PrefixScript.Proofs.Number.Zeros
import PrefixScript.Proofs.Equality
import PrefixScript.Proofs.Lists
import PrefixScript.Proofs.LineIndex
import PrefixScript.Proofs.QuoteSearch
import PrefixScript.Proofs.Histories
