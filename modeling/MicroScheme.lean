import MicroScheme.Session.Step
import MicroScheme.Proofs.Store.Growth
import MicroScheme.Proofs.Evaluation.Limits
import MicroScheme.Proofs.Evaluation.Failing
import MicroScheme.Proofs.Form.RoundTrip
import MicroScheme.Proofs.Session.LetIn
import MicroScheme.Proofs.Text.Layout
import MicroScheme.Proofs.Evaluation.Begin
import MicroScheme.Proofs.Evaluation.ReadOnly
import MicroScheme.Proofs.Evaluation.Conditional
import MicroScheme.Proofs.Store.Scoping
import MicroScheme.Proofs.Evaluation.Call
import MicroScheme.Proofs.Evaluation.Hidden
import MicroScheme.Proofs.Library.Bindings
import MicroScheme.Proofs.Library.Map
import MicroScheme.Proofs.Library.Order
import MicroScheme.Proofs.Evaluation.Parameters
import MicroScheme.Proofs.Evaluation.Nesting
import MicroScheme.Proofs.Session.Identity
import MicroScheme.Proofs.Value.Classification
import MicroScheme.Proofs.Value.Arithmetic
import MicroScheme.Proofs.Evaluation.Connective
