import Rfcomm.Main
import Rfcomm.Simulation.Desk
import Rfcomm.Simulation.Parts
import Rfcomm.Simulation.Session
import Rfcomm.Proofs.Machine
import Rfcomm.Proofs.Server.Machine
import Rfcomm.Proofs.Link.Activity
import Rfcomm.Proofs.Link.Rest
import Rfcomm.Proofs.Server.Completion
import Rfcomm.Proofs.Server.Crossing
import Rfcomm.Proofs.WriteQueue.Order
import Rfcomm.Proofs.Closing
import Rfcomm.Proofs.Wire
import Rfcomm.Proofs.Server.Party
import Rfcomm.Proofs.Server.Advertised
import Rfcomm.Proofs.Server.Ending
import Rfcomm.Proofs.Server.Events
import Rfcomm.Proofs.Server.Listening
import Rfcomm.Proofs.Server.Belonging
import Rfcomm.Proofs.Halting
import Rfcomm.Proofs.Connection.Streams
import Rfcomm.Proofs.Server.Waking
import Rfcomm.Proofs.Link.Handover
import Rfcomm.Proofs.Handover
import Rfcomm.Proofs.Delivery
import Rfcomm.Proofs.Server.Reception
import Rfcomm.Proofs.Terminal.Interruption
import Rfcomm.Proofs.Terminal.Bridging
import Rfcomm.Proofs.Terminal.Attendance
import Rfcomm.Proofs.Uuid
import Rfcomm.Proofs.Record.Document
import Rfcomm.Proofs.Config.Saving
import Rfcomm.Proofs.WriteQueue.Sending
import Rfcomm.Proofs.Target
import Rfcomm.Proofs.Memory.Ownership
import Rfcomm.Proofs.Memory.Directory
import Rfcomm.Proofs.Wake
import Rfcomm.Proofs.Config.Loading
import Rfcomm.Proofs.Simulation.Reception
