import QueryPlan.Listing.Basic
import QueryPlan.Options.Document
import QueryPlan.Plan.Shape
import QueryPlan.Proofs.IndexedRows
import QueryPlan.Proofs.Substitution
import QueryPlan.SemiJoinRule
import QueryPlan.Proofs.SemiJoinRows
import QueryPlan.Proofs.Identity
import QueryPlan.Proofs.Runs
import QueryPlan.Proofs.ProbePlacement
import QueryPlan.Proofs.RunSafety
import QueryPlan.Proofs.Places
import QueryPlan.Proofs.Chains
import QueryPlan.Proofs.Groups
import QueryPlan.Proofs.Offers
import QueryPlan.Proofs.Sessions
import QueryPlan.Proofs.Termination
import QueryPlan.Proofs.KeyColumns
import QueryPlan.Proofs.Outcomes
import QueryPlan.Proofs.Registrations
import QueryPlan.Proofs.LongestMatch
import QueryPlan.Proofs.PrescribedKeys
import QueryPlan.Proofs.ProbeExtension
import QueryPlan.Proofs.ParameterCosts
import QueryPlan.Proofs.ParallelSteps
import QueryPlan.Proofs.EarlyExit
import QueryPlan.Proofs.ExactReplacement
import QueryPlan.Proofs.Application
import QueryPlan.Proofs.FieldTypes
import QueryPlan.Proofs.Embeddings
import QueryPlan.Proofs.Rebuilding
import QueryPlan.Proofs.Independence
import QueryPlan.Proofs.Renaming
import QueryPlan.Proofs.RenamedRuns
import QueryPlan.Proofs.DistinctKeys
import QueryPlan.Proofs.ScanColumns
import QueryPlan.Proofs.Readability
import QueryPlan.Proofs.Indentation
import QueryPlan.Proofs.ExpressionReadings
