import Lookahead.Main
import Lookahead.Proofs.Passes
import Lookahead.Proofs.Loops
import Lookahead.Proofs.Built
import Lookahead.Proofs.RuleIndex
import Lookahead.Proofs.Derivation
import Lookahead.Proofs.Nullability
import Lookahead.Proofs.First
import Lookahead.Proofs.Follow
import Lookahead.Proofs.PassBounds
import Lookahead.Proofs.Conflicts
import Lookahead.Proofs.Prediction
import Lookahead.Proofs.Unambiguous
import Lookahead.Proofs.StrongLL1
import Lookahead.Proofs.LeftRecursion
import Lookahead.Proofs.OptimisticSearch
import Lookahead.Proofs.CyclicNullability
import Lookahead.Proofs.Peeling
import Lookahead.Proofs.Faults
import Lookahead.Proofs.Rebuilding
import Lookahead.Proofs.Listings
import Lookahead.Proofs.Verification
import Lookahead.Proofs.Acceptance
import Lookahead.Proofs.Growth
import Lookahead.Proofs.Results
import Lookahead.Proofs.RuleLines
import Lookahead.Proofs.Tokens
import Lookahead.Proofs.Lines
import Lookahead.Proofs.Reading
import Lookahead.Proofs.RuleOrder
import Lookahead.Proofs.Diagnosis
import Lookahead.Proofs.Renumbering
import Lookahead.Proofs.LineEdits
import Lookahead.Proofs.WrittenRules
import Lookahead.Proofs.Layout
import Lookahead.Proofs.Reports
import Lookahead.Proofs.Sections
import Lookahead.Proofs.Runs
import Lookahead.Proofs.Reachability
import Lookahead.Proofs.PredictSets
import Lookahead.Proofs.Separators
import Lookahead.Proofs.LineTokens
import Lookahead.Proofs.FileBytes
