import QueryExpr.Eval.Script
import QueryExpr.Lambda.Compile
import QueryExpr.Options.Json
import QueryExpr.Ordering.Sort
import QueryExpr.Proofs.ResolvedEval
import QueryExpr.Proofs.SafeTerms
import QueryExpr.Proofs.SafeLambda
import QueryExpr.Proofs.SameReading
import QueryExpr.Proofs.SharedReading
import QueryExpr.Proofs.LayeredGrammar
import QueryExpr.Proofs.Climbing
import QueryExpr.Proofs.RecordRuns
import QueryExpr.Proofs.RepeatedCompile
import QueryExpr.Proofs.TreeHeight
import QueryExpr.Proofs.ReadBackExpr
import QueryExpr.Proofs.OrderedElements
import QueryExpr.Proofs.PlacedSpans
import QueryExpr.Proofs.RaisedLimit
import QueryExpr.Proofs.QualifiedExpr
import QueryExpr.Proofs.RenamedMember
import QueryExpr.Proofs.SufficientLimit
import QueryExpr.Proofs.ClauseDirections
import QueryExpr.Proofs.InheritedUses
import QueryExpr.Proofs.CoalescedValue
import QueryExpr.Proofs.HiddenMethods
import QueryExpr.Proofs.MixedKeys
import QueryExpr.Proofs.ConvertedValue
import QueryExpr.Proofs.ConversionOrder
import QueryExpr.Proofs.ChainedOrdering
import QueryExpr.Proofs.QuotedClauses
import QueryExpr.Proofs.IntegerLiterals
import QueryExpr.Proofs.LiftedLambda
import QueryExpr.Proofs.PredicateAggregates
import QueryExpr.Proofs.ListedMembership
import QueryExpr.Proofs.OverloadChoice
import QueryExpr.Proofs.MembershipAgreement
import QueryExpr.Proofs.BalancedStacks
import QueryExpr.Proofs.VoidTargets
import QueryExpr.Proofs.SelectedAggregates
import QueryExpr.Proofs.ReorderedElements
import QueryExpr.Proofs.PropertyNames
import QueryExpr.Proofs.TextPositions
import QueryExpr.Proofs.BalancedDepth
import QueryExpr.Proofs.FilledMessages
import QueryExpr.Proofs.EmptyClauses
import QueryExpr.Proofs.RespacedText
import QueryExpr.Proofs.ComparisonAgreement
import QueryExpr.Proofs.ProjectedRecords
