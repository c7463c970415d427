import Ferry.Main
import Ferry.Program.Decode
import Ferry.Proofs.Diagnostic.Location
import Ferry.Proofs.Index.Retry
import Ferry.Proofs.Pass.AnonymousParameter
import Ferry.Proofs.Pass.CaseReference
import Ferry.Proofs.Pass.Deferral
import Ferry.Proofs.Pass.Factory
import Ferry.Proofs.Pass.NormalForm
import Ferry.Proofs.Pass.Parentheses
import Ferry.Proofs.Pass.Purity
import Ferry.Proofs.Pass.Shuffle
import Ferry.Proofs.Project.Destination
import Ferry.Proofs.Source.Labels
import Ferry.Proofs.Source.ParameterClause
import Ferry.Proofs.Source.PayloadCase
import Ferry.Proofs.Source.PendingBinding
import Ferry.Proofs.Source.Precedence
import Ferry.Proofs.Source.Share
import Ferry.Proofs.Source.Sharing
import Ferry.Proofs.Source.SubjectCopy
import Ferry.Proofs.Source.TernaryNesting
import Ferry.Proofs.Source.TypeLookup
import Ferry.Proofs.Target.Condition
import Ferry.Proofs.Target.Marker
import Ferry.Proofs.Target.Passing
import Ferry.Proofs.Target.Sign
import Ferry.Proofs.Target.Supply
import Ferry.Proofs.Target.Template
import Ferry.Proofs.Target.TypeTranslation
import Ferry.Proofs.Traverse.Reference
