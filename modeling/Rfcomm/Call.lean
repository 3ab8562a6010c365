import Rfcomm.Job
import Rfcomm.Record
import Rfcomm.Target
/-!
The boundary between endpoints and their surroundings. A worker runs until it has to wait, and then
asks for something: that its turn comes, or that a call to the outside is answered.
-/
namespace Rfcomm

/-- A call to the outside that may take any time to be answered. -/
inductive Call
  | connect (target : Target)
  | bind (channel : UInt8)
  | accept (listener : ListenerId) (ticks : Nat)
  | pause (ticks : Nat)
  | register (record : Record)
  | withdraw (session : SessionId)
  /-- Reads up to a number of bytes; none at all mean that the stream ended. -/
  | read (stream : StreamId) (size : Nat)
  | write (stream : StreamId) (bytes : Bytes)
  | flush (stream : StreamId)
  /-- Ends the write direction. -/
  | shutdown (stream : StreamId)
deriving DecidableEq, Repr, Inhabited

/-- What a worker goes on with. -/
inductive Reply
  | go
  | connected (result : Except Fault StreamId)
  | bound (result : Except Fault ListenerId)
  | accepted (result : Except Fault (StreamId × Address))
  | elapsed
  /-- A registration, or the reason why there is none. -/
  | registered (result : Except String SessionId)
  | withdrawn
  | read (result : Except Fault Bytes)
  | wrote (result : Except Fault Nat)
  | flushed (result : Except Fault Unit)
  | shutDown

/-- What a worker waits for. -/
inductive Ask
  /-- For another worker, or for ever. -/
  | blocked
  /-- For nothing: it goes on with `Reply.go`. -/
  | ready
  | call (c : Call)
deriving DecidableEq, Repr, Inhabited

/-- What waits for its turn on a lock. -/
def Ask.turn (mine : Bool) : Ask := if mine then ready else blocked

end Rfcomm
