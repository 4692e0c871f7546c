import ExprCheck.Main
import ExprCheck.Proofs.TypingAgreement
import ExprCheck.Proofs.RoundTrip
import ExprCheck.Proofs.Cascades
import ExprCheck.Proofs.DeadScopes
import ExprCheck.Proofs.Points
import ExprCheck.Proofs.TupleRecords
import ExprCheck.Proofs.TupleFields
import ExprCheck.Proofs.LongestPieces
import ExprCheck.Proofs.MaximalMunch
import ExprCheck.Proofs.Places
import ExprCheck.Proofs.NodeSpans
import ExprCheck.Proofs.ReadFailures
import ExprCheck.Proofs.Reports
import ExprCheck.Proofs.Arguments
import ExprCheck.Proofs.Verdicts
import ExprCheck.Proofs.EditedRuns
import ExprCheck.Proofs.Annotations
import ExprCheck.Proofs.Commuting
import ExprCheck.Proofs.Rereading
import ExprCheck.Proofs.Concatenation
import ExprCheck.Proofs.Layout
import ExprCheck.Proofs.Lookahead
import ExprCheck.Proofs.Recovery
import ExprCheck.Proofs.TokenDisplay
import ExprCheck.Proofs.TypeText
import ExprCheck.Proofs.SymbolListing
import ExprCheck.Proofs.Environments
import ExprCheck.Proofs.RepeatedInference
import ExprCheck.Proofs.TopLevelTuples
import ExprCheck.Proofs.ReaderProgress
import ExprCheck.Proofs.LayeredGrammar
import ExprCheck.Proofs.Constants
import ExprCheck.Proofs.AnnotationText
import ExprCheck.Proofs.Redeclarations
import ExprCheck.Proofs.Openers
import ExprCheck.Proofs.ScopeNumbers
import ExprCheck.Proofs.Mismatches
import ExprCheck.Proofs.Positions
import ExprCheck.Proofs.Numerals
import ExprCheck.Proofs.OrdinalChains
import ExprCheck.Proofs.DerivedParts
import ExprCheck.Proofs.ExactNumbers
import ExprCheck.Proofs.InferredTypes
import ExprCheck.Proofs.RecursiveDescent
import ExprCheck.Proofs.ParserTermination
