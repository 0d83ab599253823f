import Descent.Main
import Descent.Task.Scheduler
import Descent.Terminal.Scanner
import Descent.Proofs.Grammar.Reachable
import Descent.Proofs.Grammar.Nullable
import Descent.Proofs.Grammar.Settled
import Descent.Proofs.Grammar.Least
import Descent.Proofs.Grammar.Solution
import Descent.Proofs.Grammar.Growth
import Descent.Proofs.Grammar.Cycle
import Descent.Proofs.Compiled.Accepted
import Descent.Proofs.Compiled.Consistent
import Descent.Proofs.Compiled.Exact
import Descent.Proofs.Compiled.Growth
import Descent.Proofs.Compiled.LeftRecursion
import Descent.Proofs.Match.Adequate
import Descent.Proofs.Compiled.Order
import Descent.Proofs.Grammar.Declared
import Descent.Proofs.Match.Alike
import Descent.Proofs.Match.Dispatch
import Descent.Proofs.Match.Conformance
import Descent.Proofs.Match.Cursor
import Descent.Proofs.Match.Derivation
import Descent.Proofs.Match.Expected
import Descent.Proofs.Match.Failures
import Descent.Proofs.Match.First
import Descent.Proofs.Match.Furthest
import Descent.Proofs.Match.Postorder
import Descent.Proofs.Match.Reading
import Descent.Proofs.Match.Shift
import Descent.Proofs.Match.Tables
import Descent.Proofs.Parse.Callbacks
import Descent.Proofs.Parse.Caps
import Descent.Proofs.Parse.Contract
import Descent.Proofs.Parse.Diagnostics
import Descent.Proofs.Parse.Growth
import Descent.Proofs.Parse.Independent
import Descent.Proofs.Parse.Recovery
import Descent.Proofs.Parse.Reports
import Descent.Proofs.Parse.Segment
import Descent.Proofs.Parse.Trials
import Descent.Proofs.Parse.Turn
import Descent.Proofs.Symbol.Cutting
import Descent.Proofs.Symbol.Precedence
import Descent.Proofs.Symbol.Segments
import Descent.Proofs.Terminal.Layered
import Descent.Proofs.Terminal.Leaves
import Descent.Proofs.Task.Phases
import Descent.Proofs.Task.Rounds
import Descent.Proofs.Task.Orderly
import Descent.Proofs.Task.Stepping
import Descent.Proofs.Calc.Reads
import Descent.Proofs.Calc.Rules
import Descent.Proofs.Calc.Matches
import Descent.Proofs.Calc.Derived
import Descent.Proofs.Calc.Parse
import Descent.Proofs.Pattern.Loop
import Descent.Proofs.Terminal.Matching
import Descent.Proofs.Calc.Words
import Descent.Proofs.Calc.RoundTrip
import Descent.Proofs.Calc.Exact
