import Switchyard.Client.Config
import Switchyard.Helper.Program
import Switchyard.Http.Link
import Switchyard.Neighbours
import Switchyard.Rehearsal.World
import Switchyard.Root.Config
import Switchyard.Proofs.Command.StatusText
import Switchyard.Proofs.Command.Wire
import Switchyard.Proofs.Ledger.Lookup
import Switchyard.Proofs.Handler.Contract
import Switchyard.Proofs.Node.Attempt
import Switchyard.Proofs.Root.Submit
import Switchyard.Proofs.Fleet.Run
import Switchyard.Proofs.Fleet.Invariant
import Switchyard.Proofs.Fleet.Finality
import Switchyard.Proofs.Fleet.Answers
import Switchyard.Proofs.Command.KeyText
import Switchyard.Proofs.Fleet.Budget
import Switchyard.Proofs.Fleet.Attempts
import Switchyard.Proofs.Command.Legible
import Switchyard.Proofs.Http.Requests
import Switchyard.Proofs.Http.Pull
import Switchyard.Proofs.Ledger.History
import Switchyard.Proofs.Node.History
import Switchyard.Proofs.Ledger.Exchange
import Switchyard.Proofs.Node.Pass
import Switchyard.Proofs.Client.Cycle
import Switchyard.Proofs.Client.Drain
import Switchyard.Proofs.Fleet.Results
import Switchyard.Proofs.Ledger.Arrival
import Switchyard.Proofs.Text.ByteOrder
import Switchyard.Proofs.Command.Codec
import Switchyard.Proofs.Device.MacText
import Switchyard.Proofs.Inventory.Upkeep
import Switchyard.Proofs.Inventory.Watch
import Switchyard.Proofs.Root.Turns
import Switchyard.Proofs.Http.Turns
import Switchyard.Proofs.Root.Own
import Switchyard.Proofs.Fleet.Deletion
import Switchyard.Proofs.Fleet.Naming
import Switchyard.Proofs.Inventory.Feed
import Switchyard.Proofs.Device.DeviceTable
import Switchyard.Proofs.Client.Publisher
import Switchyard.Proofs.Json.Tokens
import Switchyard.Proofs.Json.Documents
import Switchyard.Proofs.Json.Reading
import Switchyard.Proofs.Text.Decoding
import Switchyard.Proofs.Inventory.Unlocked
import Switchyard.Proofs.Http.Bodies
import Switchyard.Proofs.Http.Query
import Switchyard.Proofs.Http.Loopback
import Switchyard.Proofs.Node.Handover
import Switchyard.Proofs.Node.Counter
import Switchyard.Proofs.Node.Retries
import Switchyard.Proofs.Client.Cancellation
import Switchyard.Proofs.Ledger.Replay
import Switchyard.Proofs.Command.StatusForm
import Switchyard.Proofs.Command.Addressing
import Switchyard.Proofs.Inventory.RollCall
import Switchyard.Proofs.Inventory.Mirror
import Switchyard.Proofs.Inventory.Merging
import Switchyard.Proofs.Inventory.Recovery
import Switchyard.Proofs.Inventory.Targets
import Switchyard.Proofs.Handler.Locks
import Switchyard.Proofs.Handler.Outcomes
import Switchyard.Proofs.Text.Padded
import Switchyard.Proofs.Time.Calendar
import Switchyard.Proofs.Time.Written
import Switchyard.Proofs.Time.Stamps
import Switchyard.Proofs.Json.Pretty
import Switchyard.Proofs.Inventory.Archive
import Switchyard.Proofs.Inventory.Restoring
import Switchyard.Proofs.Inventory.Newest
import Switchyard.Proofs.Inventory.Identity
import Switchyard.Proofs.Inventory.LoadCount
import Switchyard.Proofs.Helper.Placeholders
import Switchyard.Proofs.Device.Numerals
import Switchyard.Proofs.Device.Readable
import Switchyard.Proofs.Inventory.Acceptance
import Switchyard.Proofs.Text.Words
import Switchyard.Proofs.Neighbours.Rendering
