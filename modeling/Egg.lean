import Egg.Main
import Egg.Nesting.Visit
import Egg.Session
import Egg.Proofs.Number.Nearest
import Egg.Proofs.Parse.Acceptance
import Egg.Proofs.Number.Whole
import Egg.Proofs.Expr.RoundTrip
import Egg.Proofs.Parse.Outcome
import Egg.Proofs.Parse.Viability
import Egg.Proofs.Parse.Threshold
import Egg.Proofs.Scope.Chain
import Egg.Proofs.Scope.Store
import Egg.Proofs.Eval.Agreement
import Egg.Proofs.Eval.Natives
import Egg.Proofs.Eval.Policy
import Egg.Proofs.Eval.Conduct
import Egg.Proofs.Eval.Dispatch
import Egg.Proofs.Eval.Handlers
import Egg.Proofs.Eval.Limit
import Egg.Proofs.Eval.Depth
import Egg.Proofs.Eval.Steps
import Egg.Proofs.Eval.Strict
import Egg.Proofs.Expr.Height
import Egg.Proofs.Grammar.Lexing
import Egg.Proofs.Program.Canonical
import Egg.Proofs.Eval.Names
import Egg.Proofs.Parse.Leading
import Egg.Proofs.Program.Head
import Egg.Proofs.Program.Commands
import Egg.Proofs.Scope.Borrow
import Egg.Proofs.Eval.Reachable
import Egg.Proofs.Eval.Borrow
import Egg.Proofs.Eval.Session
import Egg.Proofs.Parse.Diagnosis
import Egg.Proofs.Program.Location
import Egg.Proofs.Text.Offset
import Egg.Proofs.Nesting.Level
import Egg.Proofs.Nesting.Record
import Egg.Proofs.Eval.Table
import Egg.Proofs.Parse.Cursor
import Egg.Proofs.Parse.Quotation
