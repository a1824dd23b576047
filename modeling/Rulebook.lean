import Rulebook.Engine
import Rulebook.Json.Codec
import Rulebook.Proofs.BrokenConditions
import Rulebook.Proofs.Builder
import Rulebook.Proofs.Builder.Calls
import Rulebook.Proofs.Combination
import Rulebook.Proofs.Decimal
import Rulebook.Proofs.Engine
import Rulebook.Proofs.Evaluation.Caching
import Rulebook.Proofs.Evaluation.Comparisons
import Rulebook.Proofs.Evaluation.Criteria
import Rulebook.Proofs.Evaluation.Integers
import Rulebook.Proofs.Evaluation.Paths
import Rulebook.Proofs.Evaluation.PrintedValues
import Rulebook.Proofs.Evaluation.Traces
import Rulebook.Proofs.Evaluation.Variables
import Rulebook.Proofs.Execution
import Rulebook.Proofs.Facts
import Rulebook.Proofs.Grammar.Completeness
import Rulebook.Proofs.Grammar.Derivation
import Rulebook.Proofs.Grammar.Extension
import Rulebook.Proofs.Grammar.Follow
import Rulebook.Proofs.Grammar.Nesting
import Rulebook.Proofs.Grammar.Printing
import Rulebook.Proofs.Grammar.Progress
import Rulebook.Proofs.Grammar.Reprinting
import Rulebook.Proofs.Grammar.Soundness
import Rulebook.Proofs.Grammar.Termination
import Rulebook.Proofs.Grammar.Tokens
import Rulebook.Proofs.Grammar.Weight
import Rulebook.Proofs.Grammar.Words
import Rulebook.Proofs.Group
import Rulebook.Proofs.Json.Reading
import Rulebook.Proofs.Json.RoundTrip
import Rulebook.Proofs.KeyMap
import Rulebook.Proofs.Quoting
import Rulebook.Proofs.Registry.Additions
import Rulebook.Proofs.Registry.History
import Rulebook.Proofs.Registry.Interning
import Rulebook.Proofs.Registry.Lookup
import Rulebook.Proofs.Registry.Runs
import Rulebook.Proofs.Sorting
import Rulebook.Proofs.Subtrees
import Rulebook.Registry
