import Descent.Text.Quoted
import Descent.Pattern.Number
import Descent.Pattern.Word
import Descent.Pattern.Comment
import Descent.Pattern.Quoted
import Descent.ParseError
import Descent.Trace.Recorder
import Descent.Outcome
import Descent.Parser.Staged
import Descent.Lexicon.Tokenize
import Descent.Grammar.Basic
import Descent.Grammar.Tokenizer
import Descent.Grammar.Registry
import Descent.Grammar.TokenLiteral
import Descent.Grammar.Parse
import Descent.Value.Action
import Descent.Proofs.Backtracking
import Descent.Proofs.Built
import Descent.Proofs.Tokens
import Descent.Proofs.Range
import Descent.Proofs.Explained
import Descent.Proofs.Contract
import Descent.Proofs.Furthest
import Descent.Proofs.History
import Descent.Proofs.Erasure
import Descent.Proofs.Pruning
import Descent.Proofs.Commitment
import Descent.Proofs.Factoring
import Descent.Proofs.Tokenizing
import Descent.Proofs.Accounted
import Descent.Proofs.Recorded
import Descent.Proofs.Stages
import Descent.Proofs.Unnamed
import Descent.Proofs.Vocabulary
import Descent.Proofs.Resolution
import Descent.Proofs.Pattern.Firm
import Descent.Proofs.Reading
import Descent.Proofs.Relexing
import Descent.Proofs.Calls
import Descent.Proofs.Nesting
import Descent.Proofs.Application
import Descent.Proofs.Coherence
import Descent.Proofs.Balance
import Descent.Proofs.Entry
import Descent.Proofs.Shiftable
import Descent.Proofs.Shifted
import Descent.Proofs.Retained
import Descent.Proofs.Repetition
import Descent.Proofs.Consumption
import Descent.Proofs.Atomicity
import Descent.Proofs.Naming
import Descent.Proofs.Lookahead
import Descent.Proofs.Alternatives
import Descent.Proofs.PastEnd
import Descent.Proofs.Places
import Descent.Proofs.Separated
import Descent.Proofs.Matched
import Descent.Proofs.Validation
import Descent.Proofs.Munch
import Descent.Proofs.OneOf
import Descent.Proofs.Phrases
import Descent.Proofs.Pattern.Greedy
import Descent.Proofs.Numerals
import Descent.Proofs.Quoting
import Descent.Proofs.Scientific
import Descent.Proofs.Lines
import Descent.Proofs.Forest
import Descent.Proofs.Skipping
import Descent.Proofs.Pattern.Bounded
