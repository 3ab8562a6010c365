import Rfcomm.Link
/-!
Connections: the calling side of a link. A connection is used once, from idle over connecting and
open to closed; every operation runs in the background, by a worker whose outcome is reported.
-/
namespace Rfcomm

/-- What a connection is doing. -/
inductive Connection.Phase
  | idle
  | connecting
  /-- Reads and writes are accepted. -/
  | connected
  | closed
deriving DecidableEq, Repr, Inhabited

def Connection.Phase.name : Phase → String
  | idle => "idle"
  | connecting => "connecting"
  | connected => "open"
  | closed => "closed"

/-- What a worker of a connection is at. -/
inductive Connection.Stage
  | connecting (target : Target)
  | attaching (target : Target) (a : Link.Attach)
  /-- Releasing a stream that came after the connection was closed. -/
  | abandoning (c : Link.Closing)
  | reading (g : Link.Reading)
  /-- Closing after a read that ended the connection, whose outcome is still to be reported. -/
  | ending (o : Outcome) (c : Link.Closing)
  | leaving
  | closing (c : Link.Closing)
deriving DecidableEq, Repr, Inhabited

/-- A worker of a connection. -/
structure Connection.Task where
  id : Nat
  stage : Connection.Stage
deriving DecidableEq, Repr, Inhabited

/-- The calling side of a link. -/
structure Connection where
  link : Link
  phase : Connection.Phase := .idle
  peer : Option Target := none
  tasks : List Connection.Task := []
  nextTask : Nat := 0
  owned : Bool := true
deriving DecidableEq, Repr, Inhabited

namespace Connection

/-- A connection that nothing was asked of yet. -/
def create (t : Config.Tuning) : Connection := { link := .create t }

/-- Whether reads and writes are accepted. -/
def isOpen (c : Connection) : Bool := c.phase = .connected && c.link.isOpen

/-- The writes that are queued, the one in service included. -/
def pendingWrites (c : Connection) : Nat := c.link.queue.size

def spawn (c : Connection) (stage : Stage) : Worker × Connection :=
  (.task c.nextTask,
    { c with tasks := c.tasks ++ [⟨c.nextTask, stage⟩], nextTask := c.nextTask + 1 })

/-! ## What the owner asks for -/

/-- Connects to a channel of a device. Only an idle connection can. -/
def connect (c : Connection) (address : String) (channel : UInt8) :
    Except Error (Worker × Connection) := do
  let target ← Target.parse address channel
  if c.phase = .idle then .ok ({ c with phase := .connecting }.spawn (.connecting target))
  else .error (.invalidState c.phase.name)

def read (c : Connection) : Except Error (Worker × Connection) :=
  if c.isOpen then .ok (c.spawn (.reading .start)) else .error .connectionClosed

def write (c : Connection) (bytes : Bytes) : Worker × Connection :=
  let (id, link) := c.link.write bytes
  (.write id, { c with link })

/-- Closes the connection: the waiting reads end, and the stream is released in the background if
there is one (`background`). -/
def close (c : Connection) (background : Bool) : Connection :=
  if c.phase = .closed then c
  else
    let c := { c with phase := .closed, link := c.link.markClosed.signal .close }
    if background then (c.spawn .leaving).2 else c

/-- The owner lets go of the connection, which closes it. -/
def drop (c : Connection) (background : Bool) : Connection :=
  { c.close background with owned := false }

/-! ## What its workers do -/

def askStage (c : Connection) (w : Worker) : Stage → Ask
  | .connecting target => .call (.connect target)
  | .attaching _ a => c.link.askAttach w a
  | .reading g => c.link.askReading w g
  | .abandoning k | .ending _ k | .closing k => c.link.askClosing w k
  | .leaving => .ready

def ask (c : Connection) (w : Worker) : Ask :=
  match w with
  | .write id => c.link.askWrite id
  | .task id =>
    match c.tasks.find? (·.id = id) with
    | some t => c.askStage w t.stage
    | none => .blocked

/-- A worker goes on. -/
def keep (c : Connection) (id : Nat) (stage : Stage) : Connection :=
  { c with tasks := c.tasks.map fun t => if t.id = id then { t with stage } else t }

def finish (c : Connection) (id : Nat) : Connection :=
  { c with tasks := c.tasks.filter (·.id ≠ id) }

def report (c : Connection) (id : Nat) (o : Outcome) : Connection × Option Outcome :=
  (c.finish id, some o)

/-- The stream is attached: the connection is open, unless it was closed meanwhile. -/
def attached (c : Connection) (id : Nat) (target : Target) : Connection × Option Outcome :=
  if c.phase = .closed then
    let (link, k) := c.link.beginClosing (.task id)
    ({ c with link }.keep id (.abandoning k), none)
  else { c with phase := .connected, peer := some target }.report id .connected

def endWith (c : Connection) (id : Nat) (o : Outcome) : Connection × Option Outcome :=
  let (link, k) := c.link.beginClosing (.task id)
  ({ c with phase := .closed, link }.keep id (.ending o k), none)

/-- What follows from what a read saw. -/
def seen (c : Connection) (id : Nat) : Link.Seen → Connection × Option Outcome
  | .data bytes => c.report id (.data bytes)
  | .eof => c.endWith id .closed
  | .woken _ | .refused => c.report id .closed
  | .failed f => c.endWith id (.failed (.read f))
  | .died => c.report id (.failed .workerGone)

/-- One step of a worker that closes, which reports `o` in the end. -/
def resumeClosing (c : Connection) (id : Nat) (k : Link.Closing) (stage : Link.Closing → Stage)
    (o : Option Outcome) (r : Reply) : Option (Connection × Option Outcome) :=
  match c.link.resumeClosing (.task id) k r with
  | some (link, .more k) => some ({ c with link }.keep id (stage k), none)
  | some (link, .done _) => some ({ c with link }.finish id, o)
  | none => none

/-- One step of a worker at a stage. -/
def resumeStage (c : Connection) (id : Nat) (stage : Stage) (r : Reply) :
    Option (Connection × Option Outcome) :=
  match stage with
  | .connecting target =>
    match r with
    | .connected (.ok s) =>
      let (link, a) := c.link.beginAttach (.task id) s
      some ({ c with link }.keep id (.attaching target a), none)
    | .connected (.error f) => some ({ c with phase := .closed }.report id (.failed (.connect f)))
    | _ => none
  | .attaching target a =>
    match c.link.resumeAttach (.task id) a r with
    | some (link, .more a) => some ({ c with link }.keep id (.attaching target a), none)
    | some (link, .done _) => some ({ c with link }.attached id target)
    | none => none
  | .reading g =>
    match c.link.resumeReading (.task id) g r with
    | some (link, .more g) => some ({ c with link }.keep id (.reading g), none)
    | some (link, .done e) => some ({ c with link }.seen id e)
    | none => none
  | .leaving =>
    match r with
    | .go =>
      let (link, k) := c.link.beginClosing (.task id)
      some ({ c with link }.keep id (.closing k), none)
    | _ => none
  | .abandoning k => c.resumeClosing id k .abandoning (some (.failed .connectionClosed)) r
  | .ending o k => c.resumeClosing id k (.ending o) (some o) r
  | .closing k => c.resumeClosing id k .closing none r

/-- One step of a worker, with the outcome of its job if that ended; none if the reply is not what
the worker waits for. -/
def resume (c : Connection) (w : Worker) (r : Reply) : Option (Connection × Option Outcome) :=
  match w with
  | .write id =>
    (c.link.resumeWrite id r).map fun (link, result) =>
      ({ c with link }, result.map fun x => .ofExcept .sent (x.mapError .write))
  | .task id => (c.tasks.find? (·.id = id)).bind fun t => c.resumeStage id t.stage r

def workers (c : Connection) : List Worker :=
  c.tasks.map (.task ·.id) ++ c.link.queue.tasks.map (.write ·.id)

/-! ## What it holds -/

def Stage.stream? : Stage → Option StreamId
  | .attaching _ a => some a.stream
  | .abandoning k | .ending _ k | .closing k => k.stream?
  | _ => none

/-- Whether anybody can still get at the link. -/
def inUse (c : Connection) : Bool := c.owned || !c.tasks.isEmpty

/-- The streams that are held. A write in service keeps the writing half alone. -/
def streams (c : Connection) : List StreamId :=
  (if c.inUse then c.link.stream.toList else []) ++
    (if c.inUse || !c.link.queue.tasks.isEmpty then c.link.queue.stream.toList else []) ++
    c.tasks.filterMap (·.stage.stream?)

/-- All workers are gone from one moment to the next. -/
def abort (c : Connection) : Connection :=
  { c with tasks := [], link := { c.link with queue := { c.link.queue with tasks := [] } } }

end Connection

end Rfcomm
