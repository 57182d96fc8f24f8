import Symbolication.Main
import Symbolication.Proofs.AllOrNothing
import Symbolication.Proofs.Batch
import Symbolication.Proofs.Boundaries
import Symbolication.Proofs.Codec
import Symbolication.Proofs.Composed
import Symbolication.Proofs.Cuts
import Symbolication.Proofs.Logging
import Symbolication.Proofs.Mapping
import Symbolication.Proofs.Substitution
import Symbolication.Proofs.Summary
import Symbolication.Proofs.Transparency
import Symbolication.Proofs.Wording
