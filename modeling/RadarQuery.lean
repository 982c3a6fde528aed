import RadarQuery.Eval.Basic
import RadarQuery.Expr.Build
import RadarQuery.Expr.Equality
import RadarQuery.Expr.Parser
import RadarQuery.Expr.Render
import RadarQuery.Proofs.Eval.Arity
import RadarQuery.Proofs.Eval.Calls
import RadarQuery.Proofs.Eval.Connectives
import RadarQuery.Proofs.Eval.Contexts
import RadarQuery.Proofs.Eval.Data
import RadarQuery.Proofs.Eval.Matching
import RadarQuery.Proofs.Eval.Moments
import RadarQuery.Proofs.Expr.Canonical
import RadarQuery.Proofs.Expr.Outcome
import RadarQuery.Proofs.Expr.Rejection
import RadarQuery.Proofs.Expr.Succession
import RadarQuery.Proofs.Expr.Truncation
import RadarQuery.Proofs.Metadata.Handles
import RadarQuery.Proofs.Metadata.Insertion
import RadarQuery.Proofs.Metadata.Levels
import RadarQuery.Proofs.Metadata.Scalar
import RadarQuery.Proofs.Metadata.Selection
import RadarQuery.Proofs.Metadata.SourceKey
import RadarQuery.Proofs.Operator.Exactness
import RadarQuery.Proofs.Operator.Membership
import RadarQuery.Proofs.Operator.Neutral
import RadarQuery.Proofs.Operator.Widening
import RadarQuery.Proofs.Text.Glob
import RadarQuery.Proofs.Token.Calls
import RadarQuery.Proofs.Token.Failure
import RadarQuery.Proofs.Token.Layout
import RadarQuery.Proofs.Token.Word
