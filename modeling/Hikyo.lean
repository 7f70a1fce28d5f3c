import Hikyo.Admission.Backoff
import Hikyo.Compose.SnapshotRollback
import Hikyo.Delivery.Substitution
import Hikyo.Rollout.Attempts
import Hikyo.Rollout.Wedge
import Hikyo.Schema.ProfileBounds
import Hikyo.Service.ConsentTightening
import Hikyo.Service.DeliveryBlindness
import Hikyo.Service.GroupSatisfiability
import Hikyo.Service.ReencryptSafety
import Hikyo.Service.RequestDrift
import Hikyo.Service.RevisionHistory
import Hikyo.Service.RuleReach
import Hikyo.Service.SSHRevocation
import Hikyo.Service.ScimMappings
import Hikyo.Service.SingleDecision
