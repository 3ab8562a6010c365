import Rfcomm.Fault
/-! What connections, servers and their background jobs fail with, and the wording of each failure. -/
namespace Rfcomm

/-- Why one write failed. The other writes of its queue are not affected. -/
inductive WriteError
  /-- Nothing was attempted: the link was closed or had no stream. -/
  | closed
  /-- Sending stopped after `written` of the `requested` bytes. -/
  | unsuccessful (written requested : Nat) (source : Fault)
deriving DecidableEq, Repr, Inhabited

/-- The bytes that went out before the write failed. -/
def WriteError.written : WriteError → Nat
  | closed => 0
  | unsuccessful w _ _ => w

def WriteError.message : WriteError → String
  | closed => "Attempting to write to a closed connection"
  | unsuccessful w r _ =>
    "Writing attempt was unsuccessful (" ++ toString w ++ " of " ++ toString r ++ " bytes sent)"

/-- Every failure that an operation can report. -/
inductive Error
  /-- No socket, or the connect call failed. -/
  | connect (source : Fault)
  | write (e : WriteError)
  | read (source : Fault)
  | listen (channel : UInt8) (source : Fault)
  | advertise (reason : String)
  | connectionClosed
  | invalidAddress (text : String)
  | invalidChannel (channel : UInt8)
  | invalidUuid (text : String)
  /-- The operation is not allowed in the named state. -/
  | invalidState (state : String)
  /-- The job was dropped before it reported a result. -/
  | workerGone
deriving DecidableEq, Repr, Inhabited

namespace Error

/-- The wording of a failure. A failed connect or read shows the status code. -/
def message : Error → String
  | connect source => "Cannot connect: " ++ match source.code? with
    | some code => toString code
    | none => source.text
  | write e => e.message
  | read source =>
    "Error reading from connection: errno: " ++ toString (source.code?.getD 0)
  | listen channel source =>
    "Couldn't listen on bluetooth socket (channel " ++ toString channel.toNat ++ "): " ++ source.text
  | advertise reason => "Cannot register SDP record: " ++ reason
  | connectionClosed => "The connection has been closed"
  | invalidAddress text => "Invalid Bluetooth address: " ++ text
  | invalidChannel channel =>
    "Invalid RFCOMM channel " ++ toString channel.toNat ++ ", expected 1..=30"
  | invalidUuid text => "The UUID is invalid: " ++ text
  | invalidState state => "Operation not allowed while " ++ state
  | workerGone => "Background job ended without a result"

instance : ToString Error := ⟨message⟩

/-- The fault underneath, where there is one. -/
def source? : Error → Option Fault
  | connect source | read source | listen _ source | write (.unsuccessful _ _ source) => some source
  | _ => none

/-- Whether this is a failed read that tells of a peer gone away. -/
def isDisconnect : Error → Bool
  | read source =>
    match source.kind with
    | .connectionReset | .connectionAborted | .timedOut => true
    | _ => false
  | _ => false

end Error

end Rfcomm
