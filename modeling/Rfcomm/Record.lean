import Rfcomm.Text.Blank
import Rfcomm.Uuid
/-! Service records: what a server tells others about the service on one of its channels. -/
namespace Rfcomm

/-- The description of a service. -/
structure Record where
  uuid : Uuid
  channel : UInt8
  name : String
  description : String
deriving DecidableEq, Repr, Inhabited

namespace Record

/-- The name of a service that was given none. -/
def defaultName (uuid : Uuid) : String :=
  if uuid = .serialPort then "Serial Port" else "RFCOMM custom service"

/-- A record for a service; a blank name picks the default one. -/
def create (uuid : Uuid) (channel : UInt8) (name : String) : Record where
  uuid := uuid
  channel := channel
  name := if (Text.strip name.toList).isEmpty then defaultName uuid else name
  description := "An RFCOMM listening socket"

end Record

end Rfcomm
