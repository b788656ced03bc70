import SqlSelect.Parser
import SqlSelect.Proofs.Acceptance
import SqlSelect.Proofs.CaseInsensitive
import SqlSelect.Proofs.DepthLimit
import SqlSelect.Proofs.IndexSafety
import SqlSelect.Proofs.Locality
import SqlSelect.Proofs.LongestMatch
import SqlSelect.Proofs.Noninterference
import SqlSelect.Proofs.RoundTrip
import SqlSelect.Proofs.Termination
import SqlSelect.Proofs.Spacing
import SqlSelect.Proofs.Beginning
import SqlSelect.Proofs.NumberGrammar
import SqlSelect.Proofs.WholeWord
import SqlSelect.Proofs.Completing
import SqlSelect.Proofs.Locating
import SqlSelect.Proofs.LocatingRules
import SqlSelect.Proofs.LocatingQuery
import SqlSelect.Proofs.Viable
import SqlSelect.Proofs.FirstMisfit
import SqlSelect.Proofs.Quoting
import SqlSelect.Proofs.NumberValue
import SqlSelect.Proofs.LimitClause
import SqlSelect.Proofs.LimitValues
import SqlSelect.Proofs.Balance
import SqlSelect.Proofs.RedundantParentheses
import SqlSelect.Proofs.Unfilled
import SqlSelect.Proofs.Unclosed
import SqlSelect.Proofs.EndPosition
import SqlSelect.Proofs.SourceText
import SqlSelect.Proofs.Concatenation
import SqlSelect.Proofs.TokenShape
import SqlSelect.Proofs.Foreseen
import SqlSelect.Proofs.QuotedLines
import SqlSelect.Proofs.OutlineReading
import SqlSelect.Proofs.KeepingPlace
import SqlSelect.Proofs.TakenMatches
