/-! Settings of the terminal: which side of a link to run, with whom, and how links are tuned. -/
namespace Rfcomm

/-- Which side of a link the terminal runs. -/
inductive Mode
  | client
  | server
deriving DecidableEq, Repr, Inhabited

def Mode.name : Mode → String
  | client => "client"
  | server => "server"

def Mode.ofName? : String → Option Mode
  | "client" => some .client
  | "server" => some .server
  | _ => none

/-- Settings of the local adapter. -/
structure Config.Bluetooth where
  mode : Mode := .server
  channel : UInt8 := 1
  adapterAlias : Option String := none
deriving DecidableEq, Repr, Inhabited

/-- Settings of client mode. -/
structure Config.Client where
  address : String := ""
deriving DecidableEq, Repr, Inhabited

/-- Settings of server mode. -/
structure Config.Server where
  /-- The service class, in its long form or a short one. -/
  uuid : String := "1101"
  /-- The name to advertise; a blank one picks a default. -/
  serviceName : String := ""
deriving DecidableEq, Repr, Inhabited

/-- Tuning of links. -/
structure Config.Tuning where
  /-- The most that a single read returns. -/
  readBufferSize : UInt64 := 1024
  /-- How often an accept wait looks whether it was stopped, in microseconds. -/
  acceptPollInterval : UInt64 := 333
  /-- The pause after a failed accept, in milliseconds. -/
  acceptRetryDelay : UInt64 := 1000
  /-- How many events a server keeps for its receiver. -/
  eventBuffer : UInt64 := 32
deriving DecidableEq, Repr, Inhabited

/-- All settings. -/
structure Config where
  bluetooth : Config.Bluetooth := {}
  client : Config.Client := {}
  server : Config.Server := {}
  link : Config.Tuning := {}
deriving DecidableEq, Repr, Inhabited

namespace Config.Tuning

/-- The poll interval in nanoseconds; an interval of nothing counts as one microsecond. -/
def pollNanos (t : Tuning) : Nat := max t.acceptPollInterval.toNat 1 * 1000

def retryNanos (t : Tuning) : Nat := t.acceptRetryDelay.toNat * 1000000

/-- Timers tick in milliseconds and never go off early. -/
def ticks (nanos : Nat) : Nat := (nanos + 999999) / 1000000

def pollTicks (t : Tuning) : Nat := ticks t.pollNanos

def retryTicks (t : Tuning) : Nat := ticks t.retryNanos

/-- A read asks for at least one byte. -/
def readSize (t : Tuning) : Nat := max t.readBufferSize.toNat 1

/-- A server keeps at least one event. -/
def eventCapacity (t : Tuning) : Nat := max t.eventBuffer.toNat 1

end Config.Tuning

end Rfcomm
