import Rfcomm.Advertisement
import Rfcomm.Link
import Rfcomm.Server.Event
/-!
Servers: the called side of a link, which serves one client at a time. While nobody is connected the
service is advertised and callers are waited for; accepting one takes the advertisement back, losing
it advertises again.
-/
namespace Rfcomm

/-- What a server is doing. -/
inductive Server.Phase
  | idle
  /-- The channel is being bound, or is bound without the service being advertised. -/
  | listening
  | advertising
  | accepted
  | closed
deriving DecidableEq, Repr, Inhabited

def Server.Phase.name : Phase → String
  | idle => "idle"
  | listening => "listening"
  | advertising => "advertising"
  | accepted => "accepted"
  | closed => "closed"

/-- A client that is served. Clients are told apart by their number. -/
structure Server.Client where
  generation : Nat
  address : Address
deriving DecidableEq, Repr, Inhabited

/-- What to listen on and how to advertise it. -/
structure Server.Options where
  uuid : String
  channel : UInt8
  name : String
deriving DecidableEq, Repr, Inhabited

/-- How far a worker got that takes the advertisement back. -/
inductive Server.Withdrawing
  | waiting
  /-- Taking this registration back, with the advertisement to itself. -/
  | calling (session : SessionId)
deriving DecidableEq, Repr, Inhabited

/-- How far a worker got that gives a client up. -/
inductive Server.Releasing
  /-- Closing the stream of the client. `final` if the server was closed before. -/
  | closing (address : Address) (final : Bool) (k : Link.Closing)
  | waiting
  /-- Registering the record again, with the advertisement to itself. -/
  | registering (record : Record)
deriving DecidableEq, Repr, Inhabited

/-- What a worker of a server is at. -/
inductive Server.Stage
  /-- Listening: the channel is being bound. -/
  | binding (record : Record)
  /-- Listening: the channel is bound and the record is being registered. -/
  | registering (record : Record) (listener : ListenerId)
  /-- Listening: in line to note the registration. -/
  | noting (record : Record) (session : SessionId)
  /-- Listening, but closed meanwhile: taking the registration back. -/
  | undoing (k : Server.Withdrawing)
  | watching
  /-- Accepting: waiting for a caller on this listener. -/
  | accepting (listener : ListenerId)
  | pausing
  /-- Accepting: a caller came, and the advertisement is taken back. -/
  | welcoming (stream : StreamId) (address : Address) (k : Server.Withdrawing)
  | attaching (address : Address) (a : Link.Attach)
  /-- Accepting: sending a caller away who came while the server was closed. -/
  | refusing (k : Link.Closing)
  /-- Reading from the client of a generation. -/
  | reading (generation : Nat) (g : Link.Reading)
  /-- Giving a client up after a read that saw its end, which is reported afterwards. -/
  | losing (k : Server.Releasing)
  /-- About to give up the client of a generation, asked to by the owner. -/
  | dismissing (generation : Nat)
  | releasing (k : Server.Releasing)
  | leaving
  /-- Closing: taking the advertisement back. -/
  | retiring (k : Server.Withdrawing)
  | closing (k : Link.Closing)
deriving DecidableEq, Repr, Inhabited

/-- A worker of a server. -/
structure Server.Task where
  id : Nat
  stage : Server.Stage
deriving DecidableEq, Repr, Inhabited

/-- The called side of a link. -/
structure Server where
  tuning : Config.Tuning
  link : Link
  phase : Server.Phase := .idle
  client : Option Server.Client := none
  /-- The number of clients so far. -/
  generation : Nat := 0
  /-- The address of the last client. -/
  lastClient : Option Address := none
  feed : Server.Feed := {}
  /-- The listener, until the server is closed. -/
  listener : Option ListenerId := none
  advertisement : Option Advertisement := none
  lock : Lock Worker := {}
  tasks : List Server.Task := []
  nextTask : Nat := 0
  owned : Bool := true
deriving DecidableEq, Repr, Inhabited

namespace Server

/-- A server that nothing was asked of yet. -/
def create (t : Config.Tuning) : Server := { tuning := t, link := .create t }

def isOpen (s : Server) : Bool := s.client.isSome && s.link.isOpen

/-- The writes that are queued, the one in service included. -/
def pendingWrites (s : Server) : Nat := s.link.queue.size

def spawn (s : Server) (stage : Stage) : Worker × Server :=
  (.task s.nextTask,
    { s with tasks := s.tasks ++ [⟨s.nextTask, stage⟩], nextTask := s.nextTask + 1 })

/-! ## What the owner asks for -/

/-- The record of the service to listen for. -/
def Options.record (o : Options) : Except Error Record := do
  let uuid ← Uuid.parse o.uuid
  let channel ← checkChannel o.channel
  return .create uuid channel o.name

/-- Binds the channel, advertises the service and accepts callers from then on. Only an idle server
can. -/
def listen (s : Server) (o : Options) : Except Error (Worker × Server) := do
  let record ← o.record
  if s.phase = .idle then .ok ({ s with phase := .listening }.spawn (.binding record))
  else .error (.invalidState s.phase.name)

/-- Waits for the next bytes of the current client. -/
def read (s : Server) : Except Error (Worker × Server) :=
  match s.client with
  | some c =>
    if s.link.isOpen then .ok (s.spawn (.reading c.generation .start))
    else .error .connectionClosed
  | none => .error .connectionClosed

def write (s : Server) (bytes : Bytes) : Worker × Server :=
  let (id, link) := s.link.write bytes
  (.write id, { s with link })

/-- Gives the current client up and goes back to advertising. -/
def disconnectClient (s : Server) : Server :=
  match s.client with
  | some c =>
    ({ s with link := s.link.markClosed.signal .disconnect }.spawn (.dismissing c.generation)).2
  | none => s

/-- Closes the server for good. The advertisement and the stream are taken care of in the background
if there is one (`background`). -/
def close (s : Server) (background : Bool) : Server :=
  if s.phase = .closed then s
  else
    let s := { s with
      phase := .closed
      client := none
      feed := s.feed.stop
      listener := none
      link := s.link.markClosed.signal .close }
    if background then (s.spawn .leaving).2 else s

/-- The owner lets go of the server, which closes it. -/
def drop (s : Server) (background : Bool) : Server :=
  { s.close background with owned := false }

end Server

end Rfcomm
