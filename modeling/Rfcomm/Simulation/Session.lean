import Rfcomm.Simulation.Schedule
import Rfcomm.Text.Hex
/-!
Sessions: a world together with somebody who uses it, step by step. The user names connections,
servers, listeners and streams, starts jobs, and looks at everything after each step. A job has the
number of the step that started it.
-/
namespace Rfcomm.Simulation

/-- What a job of a session ended with. -/
inductive Finish
  | outcome (o : Outcome)
  | reached
deriving Inhabited

/-- Who will end a job. -/
inductive Ticket
  | worker (item : Nat) (k : Worker)
  /-- The directory, once it is as waited for. -/
  | directory
deriving Inhabited

/-- What a step answers on the spot. -/
inductive Reaction
  | missing
  | events (es : List Server.Event) (ended : Bool)
  | fault (f : Fault)
  | caller (peer : Address) (channel : UInt8)
  /-- The call would have to wait. -/
  | pending
  | data (bytes : Bytes)
  | eof
  | sent (count : Nat)
deriving Inhabited

/-- What a user does. -/
inductive Action
  /-- Nothing but waiting. -/
  | idle
  | connection (name : String) (b : Backend) (t : Config.Tuning)
  | server (name : String) (b : Backend) (t : Config.Tuning)
  | connect (name : String) (address : String) (channel : UInt8)
  | listen (name : String) (o : Server.Options)
  | read (name : String)
  | write (name : String) (bytes : Bytes)
  | close (name : String)
  | drop (name : String)
  | disconnectClient (name : String)
  | takeEvents (name : String)
  | dismissEvents (name : String)
  | forgetJob (job : Nat)
  | setRejecting (on : Bool)
  | openGate (g : Gate)
  | waitAdvertised (uuid : Uuid) (on : Bool)
  /-- Listens without a server. -/
  | bind (name : String) (own : Address) (t : Target)
  | unbind (name : String)
  /-- Takes a caller from a listener of the user's own. -/
  | accept (name : String) (listener : String)
  /-- Opens a stream without a connection. -/
  | dial (name : String) (own : Address) (capacity : Nat) (t : Target)
  | receive (name : String) (size : Nat)
  | send (name : String) (bytes : Bytes)
  | finish (name : String)
  | hangUp (name : String)
deriving Inhabited

/-- A world in use. -/
structure Session where
  world : World
  steps : Nat := 0
  names : List (String × Nat) := []
  listeners : List (String × ListenerId) := []
  streams : List (String × StreamId) := []
  receivers : List (String × Nat) := []
  /-- The jobs that did not end yet. -/
  waiting : List (Nat × Ticket) := []
  /-- The jobs that ended and were not looked at. -/
  ended : List (Nat × Finish) := []
deriving Inhabited

namespace Session

/-! ## Names -/

def bindName {α : Type} (names : List (String × α)) (name : String) (a : α) : List (String × α) :=
  names.filter (·.1 ≠ name) ++ [(name, a)]

def freeName {α : Type} (names : List (String × α)) (name : String) : List (String × α) :=
  names.filter (·.1 ≠ name)

def endpoint? (s : Session) (name : String) : Option (Nat × Endpoint) := do
  let i ← s.names.lookup name
  let e ← s.world.endpoint? i
  some (i, e)

def setEndpoint (s : Session) (i : Nat) (e : Endpoint) : Session :=
  { s with world := s.world.setEndpoint i e }

def dropEndpoint (s : Session) (name : String) : Session :=
  match s.endpoint? name with
  | some (i, e) => { s.setEndpoint i (e.drop true) with names := freeName s.names name }
  | none => s

/-- A new endpoint. One that had the name before is let go. -/
def addEndpoint (s : Session) (name : String) (b : Backend) (e : Endpoint) : Session :=
  let s := s.dropEndpoint name
  { s with
    names := bindName s.names name s.world.items.length
    world := { s.world with items := s.world.items ++ [⟨name, e, b, []⟩] } }

/-! ## Jobs -/

/-- The current step started a job, which a worker of an endpoint runs. -/
def started (s : Session) (i : Nat) (k : Worker) (e : Endpoint) : Session :=
  { s.setEndpoint i e with waiting := s.waiting ++ [(s.steps, .worker i k)] }

/-- The current step started a job that ended at once. -/
def refused (s : Session) (e : Error) : Session :=
  { s with ended := s.ended ++ [(s.steps, .outcome (.failed e))] }

/-- The user does not care about a job any more. -/
def forget (s : Session) (job : Nat) : Session :=
  { s with waiting := s.waiting.filter (·.1 ≠ job), ended := s.ended.filter (·.1 ≠ job) }

/-- A worker ended its job. -/
def noteJob (s : Session) (i : Nat) (k : Worker) (o : Outcome) : Session :=
  let mine (t : Nat × Ticket) : Bool := match t.2 with
    | .worker j l => j = i && l = k
    | .directory => false
  { s with
    waiting := s.waiting.filter (!mine ·)
    ended := s.ended ++ (s.waiting.filter mine).map fun t => (t.1, .outcome o)
    receivers := match o, s.waiting.any mine, s.world.items[i]? with
      | .listening, true, some it => bindName s.receivers it.name i
      | _, _, _ => s.receivers }

/-- The directory came to be as a job waited for. -/
def noteWatch (s : Session) (number : Nat) : Session :=
  let mine (t : Nat × Ticket) : Bool := t.1 = number
  { s with
    waiting := s.waiting.filter (!mine ·)
    ended := s.ended ++ (s.waiting.filter mine).map fun t => (t.1, .reached) }

/-- Something ended. -/
def note (s : Session) : Ended → Session
  | .job i k o => s.noteJob i k o
  | .watch number => s.noteWatch number

/-- Lets the world go on for a number of ticks. -/
def advance (s : Session) (ticks : Nat) : Session :=
  let (world, ended) := s.world.advance ticks
  ended.foldl note { s with world }

/-! ## Streams of the user's own -/

def hangUp (s : Session) (name : String) : Session :=
  match s.streams.lookup name with
  | some id => { s with world := s.world.dropStream id, streams := freeName s.streams name }
  | none => s

def unbind (s : Session) (name : String) : Session :=
  match s.listeners.lookup name with
  | some id => { s with world := s.world.dropListener id, listeners := freeName s.listeners name }
  | none => s

def holdStream (s : Session) (name : String) (id : StreamId) : Session :=
  let s := s.hangUp name
  { s with streams := bindName s.streams name id }

def receive (s : Session) (name : String) (size : Nat) : Session × Reaction :=
  match s.streams.lookup name with
  | none => (s, .missing)
  | some id =>
    match s.world.readStream id size with
    | none => (s, .pending)
    | some (.ok [], world) => ({ s with world }, .eof)
    | some (.ok bytes, world) => ({ s with world }, .data bytes)
    | some (.error f, world) => ({ s with world }, .fault f)

def takeEvents (s : Session) (name : String) : Session × Reaction :=
  match s.receivers.lookup name with
  | none => (s, .missing)
  | some i =>
    match s.world.endpoint? i with
    | some (.server sv) =>
      let (es, feed) := sv.feed.drain
      (s.setEndpoint i (.server { sv with feed }), .events es !feed.sending)
    | _ => (s, .missing)

/-- The receiver of a server's events goes away. -/
def dismissEvents (s : Session) (name : String) : Session :=
  match s.receivers.lookup name with
  | none => s
  | some i =>
    let s := { s with receivers := freeName s.receivers name }
    match s.world.endpoint? i with
    | some (.server sv) => s.setEndpoint i (.server { sv with feed := sv.feed.dismiss })
    | _ => s

/-! ## Steps -/

/-- Does what an action says, before anything in the background goes on. -/
def act (s : Session) : Action → Session × Option Reaction
  | .idle => (s, none)
  | .connection name b t => (s.addEndpoint name b (.connection (.create t)), none)
  | .server name b t => (s.addEndpoint name b (.server (.create t)), none)
  | .connect name address channel =>
    match s.endpoint? name with
    | some (i, .connection c) =>
      match c.connect address channel with
      | .ok (k, c) => (s.started i k (.connection c), none)
      | .error e => (s.refused e, none)
    | _ => (s, none)
  | .listen name o =>
    match s.endpoint? name with
    | some (i, .server sv) =>
      match sv.listen o with
      | .ok (k, sv) => (s.started i k (.server sv), none)
      | .error e => (s.refused e, none)
    | _ => (s, none)
  | .read name =>
    match s.endpoint? name with
    | some (i, .connection c) =>
      match c.read with
      | .ok (k, c) => (s.started i k (.connection c), none)
      | .error e => (s.refused e, none)
    | some (i, .server sv) =>
      match sv.read with
      | .ok (k, sv) => (s.started i k (.server sv), none)
      | .error e => (s.refused e, none)
    | none => (s, none)
  | .write name bytes =>
    match s.endpoint? name with
    | some (i, .connection c) =>
      let (k, c) := c.write bytes
      (s.started i k (.connection c), none)
    | some (i, .server sv) =>
      let (k, sv) := sv.write bytes
      (s.started i k (.server sv), none)
    | none => (s, none)
  | .close name =>
    match s.endpoint? name with
    | some (i, .connection c) => (s.setEndpoint i (.connection (c.close true)), none)
    | some (i, .server sv) => (s.setEndpoint i (.server (sv.close true)), none)
    | none => (s, none)
  | .drop name => (s.dropEndpoint name, none)
  | .disconnectClient name =>
    match s.endpoint? name with
    | some (i, .server sv) => (s.setEndpoint i (.server sv.disconnectClient), none)
    | _ => (s, none)
  | .takeEvents name =>
    let (s, r) := s.takeEvents name
    (s, some r)
  | .dismissEvents name => (s.dismissEvents name, none)
  | .forgetJob job => (s.forget job, none)
  | .setRejecting on =>
    ({ s with world := { s.world with directory := s.world.directory.setRejecting on } }, none)
  | .openGate g => ({ s with world := { s.world with gates := g :: s.world.gates } }, none)
  | .waitAdvertised u on =>
    ({ s with
      waiting := s.waiting ++ [(s.steps, .directory)]
      world := { s.world with watches := s.world.watches ++ [⟨s.steps, u, on⟩] } }, none)
  | .bind name own t =>
    match s.world.bindFrom own t with
    | .ok (id, world) =>
      let s := { s with world }.unbind name
      ({ s with listeners := bindName s.listeners name id }, none)
    | .error f => (s, some (.fault f))
  | .unbind name => (s.unbind name, none)
  | .accept name listener =>
    match (s.listeners.lookup listener).bind s.world.network.accept with
    | some ((id, peer), network) =>
      (({ s with world := { s.world with network } }.holdStream name id), some (.caller peer 0))
    | none => (s, some .pending)
  | .dial name own capacity t =>
    match s.world.connectFrom own capacity t with
    | .ok (id, world) => ({ s with world }.holdStream name id, none)
    | .error f => (s, some (.fault f))
  | .receive name size =>
    let (s, r) := s.receive name size
    (s, some r)
  | .send name bytes =>
    match s.streams.lookup name with
    | none => (s, some .missing)
    | some id =>
      match s.world.writeStream id bytes with
      | none => (s, some .pending)
      | some (.ok n, world) => ({ s with world }, some (.sent n))
      | some (.error f, world) => ({ s with world }, some (.fault f))
  | .finish name =>
    match s.streams.lookup name with
    | none => (s, some .missing)
    | some id => ({ s with world := s.world.shutdownStream id }, none)
  | .hangUp name => (s.hangUp name, none)

/-- One step: an action, and then `ticks` for the background unless it is held back. -/
def step (s : Session) (a : Action) (ticks : Option Nat) : Session × Option Reaction :=
  let (s, r) := s.act a
  let s := match ticks with
    | some n => s.advance n
    | none => s
  ({ s with steps := s.steps + 1 }, r)

/-! ## Looking -/

/-- Takes the jobs that ended since the last look, in the order of their numbers. -/
def takeEnded (s : Session) : List (Nat × Finish) × Session :=
  (s.ended.mergeSort (fun a b => a.1 ≤ b.1), { s with ended := [] })

/-- The connections that the user has, by name. -/
def connections (s : Session) : List (String × Connection) :=
  s.names.filterMap fun (name, i) =>
    match s.world.endpoint? i with
    | some (.connection c) => some (name, c)
    | _ => none

/-- The servers that the user has, by name. -/
def servers (s : Session) : List (String × Server) :=
  s.names.filterMap fun (name, i) =>
    match s.world.endpoint? i with
    | some (.server sv) => some (name, sv)
    | _ => none

/-- The scripted streams that were opened. -/
def scripted (s : Session) : List ScriptedStream :=
  s.world.bodies.filterMap fun
    | .scripted st => some st
    | .pipe _ _ => none

/-- The targets that somebody listens on, in the order of their texts. -/
def listening (s : Session) : List String :=
  (s.world.network.table.map (·.1.toText)).mergeSort (· ≤ ·)

/-! ## The end -/

/-- All connections and then all servers are dropped, by name. -/
def dropAll (s : Session) (background : Bool) : Session :=
  let byName (names : List String) := names.mergeSort (· ≤ ·)
  let names := byName (s.connections.map (·.1)) ++ byName (s.servers.map (·.1))
  let s := names.foldl (fun s name =>
    match s.endpoint? name with
    | some (i, e) => s.setEndpoint i (e.drop background)
    | none => s) s
  { s with names := [] }

/-- All workers are gone from one moment to the next. A job that did not end has lost its worker. -/
def stop (s : Session) : Session :=
  let s := (List.range s.world.items.length).foldl (fun s i =>
    match s.world.items[i]? with
    | some it => s.setEndpoint i it.endpoint.abort
    | none => s) s
  { s with
    waiting := []
    ended := s.ended ++ s.waiting.map fun t => (t.1, .outcome (.failed .workerGone)) }

end Session

end Rfcomm.Simulation
