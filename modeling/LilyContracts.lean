import LilyContracts.Payments.Representation
import LilyContracts.Payments.Lifecycle
import LilyContracts.Payments.Signers
import LilyContracts.Payments.Reentry
import LilyContracts.Payments.Creation
import LilyContracts.Payments.Availability
import LilyContracts.Payments.Books
import LilyContracts.Protocol.Handover
import LilyContracts.Fees
import LilyContracts.Wallet.Consent
import LilyContracts.Wallet.EmergencyStop
import LilyContracts.Wallet.Revision
import LilyContracts.Identity.Delegation
import LilyContracts.Identity.Revision
import LilyContracts.Identity.Notification
import LilyContracts.Pinning
import LilyContracts.Initialization
import LilyContracts.Authorization
import LilyContracts.Guards
import LilyContracts.Probing
import LilyContracts.Indexing
import LilyContracts.Text
import LilyContracts.Locality
import LilyContracts.System
import LilyContracts.Atomicity
import LilyContracts.Gatekeeper
import LilyContracts.Suite.Hosting
import LilyContracts.Suite.InitContracts
import LilyContracts.Suite.Resumption
import LilyContracts.Suite.Footprint
import LilyContracts.Suite.Lifecycle
import LilyContracts.Suite.Policy
