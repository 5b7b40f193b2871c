import Mewtual.Registry.Runs
import Mewtual.Epoch.OwnerJournalRepaired
import Mewtual.Epoch.GateRuns
import Mewtual.Epoch.Evidence
import Mewtual.Epoch.Joint
import Mewtual.Doc.CatchupWalk
import Mewtual.Recovery.Slots
import Mewtual.FileService.Grants
import Mewtual.Net.PeerPrefixes
import Mewtual.Net.ByteMeters
import Mewtual.Store.Budget
import Mewtual.Net.DispatcherRuns
import Mewtual.Net.DeliveryCredits
import Mewtual.Kept.Retry
import Mewtual.Kept.WorkRuns
import Mewtual.Doc.SignedClosure
import Mewtual.Registry.Replacement
import Mewtual.Voice.LimitsRuns
import Mewtual.Sync.Subscriptions
import Mewtual.Sync.RegistryIngress
import Mewtual.Sync.MemberFinalization
import Mewtual.Store.Pad
import Mewtual.Wire.Schema
