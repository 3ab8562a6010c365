import Rfcomm.Server.State
/-! What the workers of a server wait for, and what each of their steps does. -/
namespace Rfcomm.Server

/-- What comes of a step: an event that was sent out, or the outcome of a job. -/
structure Report where
  events : List Event := []
  outcome : Option Outcome := none
deriving DecidableEq, Repr, Inhabited

/-! ## Small steps -/

/-- A worker goes on. -/
def keep (s : Server) (id : Nat) (stage : Stage) : Server :=
  { s with tasks := s.tasks.map fun t => if t.id = id then { t with stage } else t }

def finish (s : Server) (id : Nat) : Server :=
  { s with tasks := s.tasks.filter (·.id ≠ id) }

/-- Sends an event out, as long as the feed is not stopped. -/
def emit (s : Server) (e : Event) : Server × Report :=
  if s.feed.sending then ({ s with feed := s.feed.push e }, { events := [e] }) else (s, {})

def startAccepting (s : Server) : Server := (s.spawn .watching).2

/-- A failed listen leaves the server idle, unless it was closed. -/
def resetListening (s : Server) : Server :=
  if s.phase = .closed then s else { s with phase := .idle }

/-! ## The advertisement -/

/-- Puts a worker in line for the advertisement. -/
def joinAdvertisement (s : Server) (id : Nat) : Server :=
  { s with lock := s.lock.join (.task id) }

/-- The holder of the advertisement gives it back. -/
def leaveAdvertisement (s : Server) : Server := { s with lock := s.lock.leave }

/-- What a worker waits for that takes the advertisement back. -/
def askWithdrawing (s : Server) (id : Nat) : Withdrawing → Ask
  | .waiting => .turn (s.lock.isHeldBy (.task id))
  | .calling session => .call (.withdraw session)

/-- One step of taking the advertisement back. The registration is given up before the call. -/
def resumeWithdrawing (s : Server) (id : Nat) (k : Withdrawing) (r : Reply) :
    Option (Server × Progress Withdrawing Unit) :=
  match k, r with
  | .waiting, .go =>
    if s.lock.isHeldBy (.task id) then
      match s.advertisement.map (·.release) with
      | some (some session, a) =>
        some ({ s with advertisement := some a }, .more (.calling session))
      | _ => some (s.leaveAdvertisement, .done ())
    else none
  | .calling _, .withdrawn => some (s.leaveAdvertisement, .done ())
  | _, _ => none

/-! ## Listening -/

/-- The registration is noted: callers are accepted from now on, unless the server was closed. -/
def noted (s : Server) (id : Nat) : Server × Report :=
  if Feed.maxCapacity < s.tuning.eventCapacity then
    (s.finish id, { outcome := some (.failed .workerGone) })
  else if s.phase = .closed then
    (({ s with listener := none }.joinAdvertisement id).keep id (.undoing .waiting), {})
  else
    let s := { s with phase := .advertising, feed := .start s.tuning.eventCapacity }
    (s.startAccepting.finish id, { outcome := some .listening })

/-! ## Accepting -/

/-- Waits for a caller if there still is a listener. -/
def watch (s : Server) (id : Nat) : Server :=
  match s.listener with
  | some l => s.keep id (.accepting l)
  | none => s.finish id

/-- A caller is attached: it is the client from now on, unless the server was closed. -/
def attached (s : Server) (id : Nat) (address : Address) : Server × Report :=
  if s.phase = .closed then
    let (link, k) := s.link.beginClosing (.task id)
    ({ s with link }.keep id (.refusing k), {})
  else
    let s := { s with
      generation := s.generation + 1
      client := some ⟨s.generation + 1, address⟩
      lastClient := some address
      phase := .accepted }
    (s.finish id).emit (.connected address)

/-! ## Giving a client up -/

/-- Begins to give up the client of a generation. Only the first to do so has anything to do. -/
def beginReleasing (s : Server) (id : Nat) (generation : Nat) : Server × Option Releasing :=
  match s.client with
  | some c =>
    if c.generation = generation then
      let (link, k) := s.link.beginClosing (.task id)
      ({ s with client := none, link }, some (.closing c.address (s.phase = .closed) k))
    else (s, none)
  | none => (s, none)

/-- What a worker waits for that gives a client up. -/
def askReleasing (s : Server) (id : Nat) : Releasing → Ask
  | .closing _ _ k => s.link.askClosing (.task id) k
  | .waiting => .turn (s.lock.isHeldBy (.task id))
  | .registering record => .call (.register record)

/-- Goes back to accepting, in the given phase, unless the server was closed. -/
def rearmed (s : Server) (phase : Phase) : Server :=
  if s.phase = .closed then s else { s with phase }.startAccepting

def resumeReleasing (s : Server) (id : Nat) (k : Releasing) (r : Reply) :
    Option (Server × Progress Releasing Unit × Report) :=
  match k, r with
  | .closing address final k, r =>
    match s.link.resumeClosing (.task id) k r with
    | some (link, .more k) => some ({ s with link }, .more (.closing address final k), {})
    | some (link, .done _) =>
      let (s, out) := { s with link }.emit (.disconnected address)
      if final then some (s, .done (), out) else some (s.joinAdvertisement id, .more .waiting, out)
    | none => none
  | .waiting, .go =>
    if s.lock.isHeldBy (.task id) then
      if s.phase = .closed then some (s.leaveAdvertisement, .done (), {})
      else match s.advertisement with
        | some a =>
          if a.isActive then some (s.leaveAdvertisement.rearmed .advertising, .done (), {})
          else some (s, .more (.registering a.record), {})
        | none => some (s.leaveAdvertisement.rearmed .advertising, .done (), {})
    else none
  | .registering _, .registered (.ok session) =>
    let s : Server := { s with advertisement := s.advertisement.map fun a => a.hold session }
    some (s.leaveAdvertisement.rearmed .advertising, .done (), {})
  | .registering _, .registered (.error reason) =>
    let (s, out) := s.leaveAdvertisement.emit (.failure (Error.advertise reason).message)
    some (s.rearmed .listening, .done (), out)
  | _, _ => none

/-! ## All stages -/

def askStage (s : Server) (id : Nat) : Stage → Ask
  | .binding record => .call (.bind record.channel)
  | .registering record _ => .call (.register record)
  | .noting _ _ => .turn (s.lock.isHeldBy (.task id))
  | .undoing k | .welcoming _ _ k | .retiring k => s.askWithdrawing id k
  | .watching | .dismissing _ | .leaving => .ready
  | .accepting l => .call (.accept l s.tuning.pollTicks)
  | .pausing => .call (.pause s.tuning.retryTicks)
  | .attaching _ a => s.link.askAttach (.task id) a
  | .refusing k | .closing k => s.link.askClosing (.task id) k
  | .reading _ g => s.link.askReading (.task id) g
  | .losing k | .releasing k => s.askReleasing id k

def ask (s : Server) (w : Worker) : Ask :=
  match w with
  | .write id => s.link.askWrite id
  | .task id =>
    match s.tasks.find? (·.id = id) with
    | some t => s.askStage id t.stage
    | none => .blocked

/-- A read saw the end of its client: the client is given up before the read reports. -/
def lose (s : Server) (id generation : Nat) : Server × Report :=
  match s.beginReleasing id generation with
  | (s, some k) => (s.keep id (.losing k), {})
  | (s, none) => (s.finish id, { outcome := some .closed })

/-- What follows from what a read saw. -/
def seen (s : Server) (id generation : Nat) : Link.Seen → Server × Report
  | .data bytes => (s.finish id, { outcome := some (.data bytes) })
  | .eof | .woken .disconnect => s.lose id generation
  | .woken .close | .refused => (s.finish id, { outcome := some .closed })
  | .failed f =>
    if (Error.read f).isDisconnect then s.lose id generation
    else (s.finish id, { outcome := some (.failed (.read f)) })
  | .died => (s.finish id, { outcome := some (.failed .workerGone) })

/-- One step of a worker that closes the link and is done then. -/
def resumeClosing (s : Server) (id : Nat) (k : Link.Closing) (stage : Link.Closing → Stage)
    (r : Reply) : Option (Server × Report) :=
  match s.link.resumeClosing (.task id) k r with
  | some (link, .more k) => some ({ s with link }.keep id (stage k), {})
  | some (link, .done _) => some ({ s with link }.finish id, {})
  | none => none

/-- One step of a worker at a stage. -/
def resumeStage (s : Server) (id : Nat) (stage : Stage) (r : Reply) : Option (Server × Report) :=
  match stage with
  | .binding record =>
    match r with
    | .bound (.ok l) => some (s.keep id (.registering record l), {})
    | .bound (.error f) =>
      some (s.resetListening.finish id, { outcome := some (.failed (.listen record.channel f)) })
    | _ => none
  | .registering record l =>
    match r with
    | .registered (.ok session) =>
      some (({ s with listener := some l }.joinAdvertisement id).keep id (.noting record session), {})
    | .registered (.error reason) =>
      some (s.resetListening.finish id, { outcome := some (.failed (.advertise reason)) })
    | _ => none
  | .noting record session =>
    match r with
    | .go =>
      if s.lock.isHeldBy (.task id) then
        some ({ s with advertisement := some ⟨record, some session⟩ }.leaveAdvertisement.noted id)
      else none
    | _ => none
  | .undoing k =>
    match s.resumeWithdrawing id k r with
    | some (s, .more k) => some (s.keep id (.undoing k), {})
    | some (s, .done _) => some (s.finish id, { outcome := some (.failed .connectionClosed) })
    | none => none
  | .watching =>
    match r with
    | .go => some (s.watch id, {})
    | _ => none
  | .accepting _ =>
    match r with
    | .accepted (.ok (stream, address)) =>
      some ((s.joinAdvertisement id).keep id (.welcoming stream address .waiting), {})
    | .accepted (.error f) =>
      some ((s.keep id .pausing).emit (.failure ("Accept error: " ++ f.text)))
    | .elapsed => some (s.watch id, {})
    | _ => none
  | .pausing =>
    match r with
    | .elapsed => some (s.watch id, {})
    | _ => none
  | .welcoming stream address k =>
    match s.resumeWithdrawing id k r with
    | some (s, .more k) => some (s.keep id (.welcoming stream address k), {})
    | some (s, .done _) =>
      let (link, a) := s.link.beginAttach (.task id) stream
      some ({ s with link }.keep id (.attaching address a), {})
    | none => none
  | .attaching address a =>
    match s.link.resumeAttach (.task id) a r with
    | some (link, .more a) => some ({ s with link }.keep id (.attaching address a), {})
    | some (link, .done _) => some ({ s with link }.attached id address)
    | none => none
  | .refusing k => s.resumeClosing id k .refusing r
  | .reading generation g =>
    match s.link.resumeReading (.task id) g r with
    | some (link, .more g) => some ({ s with link }.keep id (.reading generation g), {})
    | some (link, .done e) => some ({ s with link }.seen id generation e)
    | none => none
  | .losing k =>
    match s.resumeReleasing id k r with
    | some (s, .more k, out) => some (s.keep id (.losing k), out)
    | some (s, .done _, out) => some (s.finish id, { out with outcome := some .closed })
    | none => none
  | .dismissing generation =>
    match r with
    | .go =>
      match s.beginReleasing id generation with
      | (s, some k) => some (s.keep id (.releasing k), {})
      | (s, none) => some (s.finish id, {})
    | _ => none
  | .releasing k =>
    match s.resumeReleasing id k r with
    | some (s, .more k, out) => some (s.keep id (.releasing k), out)
    | some (s, .done _, out) => some (s.finish id, out)
    | none => none
  | .leaving =>
    match r with
    | .go => some ((s.joinAdvertisement id).keep id (.retiring .waiting), {})
    | _ => none
  | .retiring k =>
    match s.resumeWithdrawing id k r with
    | some (s, .more k) => some (s.keep id (.retiring k), {})
    | some (s, .done _) =>
      let (link, k) := s.link.beginClosing (.task id)
      some ({ s with link }.keep id (.closing k), {})
    | none => none
  | .closing k => s.resumeClosing id k .closing r

/-- One step of a worker, with what comes of it; none if the reply is not what the worker waits
for. -/
def resume (s : Server) (w : Worker) (r : Reply) : Option (Server × Report) :=
  match w with
  | .write id =>
    (s.link.resumeWrite id r).map fun (link, result) =>
      ({ s with link }, { outcome := result.map fun x => .ofExcept .sent (x.mapError .write) })
  | .task id => (s.tasks.find? (·.id = id)).bind fun t => s.resumeStage id t.stage r

def workers (s : Server) : List Worker :=
  s.tasks.map (.task ·.id) ++ s.link.queue.tasks.map (.write ·.id)

/-! ## What it holds -/

def Stage.stream? : Stage → Option StreamId
  | .welcoming stream _ _ => some stream
  | .attaching _ a => some a.stream
  | .refusing k | .closing k => k.stream?
  | .losing (.closing _ _ k) | .releasing (.closing _ _ k) => k.stream?
  | _ => none

def Stage.listener? : Stage → Option ListenerId
  | .registering _ l | .accepting l => some l
  | _ => none

/-- Whether anybody can still get at the link. -/
def inUse (s : Server) : Bool := s.owned || !s.tasks.isEmpty

/-- The streams that are held. A write in service keeps the writing half alone. -/
def streams (s : Server) : List StreamId :=
  (if s.inUse then s.link.stream.toList else []) ++
    (if s.inUse || !s.link.queue.tasks.isEmpty then s.link.queue.stream.toList else []) ++
    s.tasks.filterMap (·.stage.stream?)

def listeners (s : Server) : List ListenerId :=
  (if s.inUse then s.listener.toList else []) ++ s.tasks.filterMap (·.stage.listener?)

/-- All workers are gone from one moment to the next. -/
def abort (s : Server) : Server :=
  { s with tasks := [], link := { s.link with queue := { s.link.queue with tasks := [] } } }

end Rfcomm.Server
