import Qev.Lib.Cbor
import Qev.Relay.Drain
import Qev.Relay.Live
import Qev.Relay.Accounting
import Qev.Relay.Isolation
import Qev.Relay.Delivery
import Qev.Relay.Atomicity
import Qev.Relay.Refinement
import Qev.Lib.Hex
import Qev.Lib.Js
import Qev.Desktop.Ingest
import Qev.Desktop.Poll
import Qev.Desktop.Transfer
import Qev.Cli.Binding
import Qev.Web.Tool
import Qev.Desktop.Interleaving
import Qev.Desktop.Confirmations
import Qev.Desktop.BackupBanner
import Qev.Desktop.DirectSend
import Qev.Pairing.SaveSafety
import Qev.Pairing.HostilePeer
import Qev.Relay.Config
import Qev.Cli.RewrapCommand
import Qev.Notify.Following
import Qev.Desktop.InFlight
import Qev.Notify.Separation
import Qev.Cli.CanonicalForm
import Qev.Desktop.HexIds
import Qev.Lib.PythonValue
import Qev.Site.Verify
import Qev.Bry.RoundTrip
import Qev.Bry.Formats
import Qev.Bry.Tampering
import Qev.Ui.ChatEnvelope
import Qev.Ui.ChatThread
import Qev.Ui.Rendering
import Qev.Lib.JsonPieces
