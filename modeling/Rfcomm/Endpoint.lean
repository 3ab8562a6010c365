import Rfcomm.Connection
import Rfcomm.Server.Work
/-! Endpoints: connections and servers, where it does not matter which of the two they are. -/
namespace Rfcomm

/-- A connection or a server. -/
inductive Endpoint
  | connection (c : Connection)
  | server (s : Server)
deriving Inhabited

namespace Endpoint

def workers : Endpoint → List Worker
  | connection c => c.workers
  | server s => s.workers

def ask (e : Endpoint) (w : Worker) : Ask :=
  match e with
  | connection c => c.ask w
  | server s => s.ask w

/-- One step of a worker, with the outcome of its job if that ended. -/
def resume (e : Endpoint) (w : Worker) (r : Reply) : Option (Endpoint × Option Outcome) :=
  match e with
  | connection c => (c.resume w r).map fun (c, o) => (.connection c, o)
  | server s => (s.resume w r).map fun (s, out) => (.server s, out.outcome)

def streams : Endpoint → List StreamId
  | connection c => c.streams
  | server s => s.streams

def listeners : Endpoint → List ListenerId
  | connection _ => []
  | server s => s.listeners

def drop (e : Endpoint) (background : Bool) : Endpoint :=
  match e with
  | connection c => .connection (c.drop background)
  | server s => .server (s.drop background)

/-- All workers are gone from one moment to the next. -/
def abort : Endpoint → Endpoint
  | connection c => .connection c.abort
  | server s => .server s.abort

def isOwned : Endpoint → Bool
  | connection c => c.owned
  | server s => s.owned

end Endpoint

end Rfcomm
