import Rfcomm.Endpoint
import Rfcomm.Memory.Directory
import Rfcomm.Memory.Network
import Rfcomm.Memory.Pipe
import Rfcomm.Simulation.Script
/-!
A world of its own for endpoints: an in-memory network or scripts in the place of the radio, one
directory of services, and a clock that goes forward in ticks. The world answers the calls of the
workers, and closes what no endpoint holds any more.
-/
namespace Rfcomm.Simulation

/-- What an endpoint reaches others through. -/
inductive Backend
  /-- The network, as the device with this address, with pipes of this capacity. -/
  | memory (own : Address) (capacity : Nat)
  | script (s : Script)
deriving Inhabited

/-- What a stream is. -/
inductive Body
  | pipe (number : Nat) (side : Memory.Side)
  | scripted (s : ScriptedStream)
deriving Inhabited

/-- An endpoint in the world. -/
structure Item where
  name : String
  endpoint : Endpoint
  backend : Backend
  /-- The workers with an unanswered call that has a number: the tick when its time is up, or which
  attempt it is. -/
  begun : List (Worker × Nat) := []
deriving Inhabited

/-- Somebody who waits for a service to be advertised or not to be (`on`). -/
structure Watch where
  number : Nat
  uuid : Uuid
  on : Bool
deriving Inhabited

/-- Everything there is. -/
structure World where
  now : Nat := 0
  gates : List Gate := []
  /-- The gate that each attempt to register waits for. -/
  registerGates : List (Option Gate) := []
  /-- The gate that each attempt to withdraw waits for. -/
  withdrawGates : List (Option Gate) := []
  registerAttempts : Nat := 0
  withdrawAttempts : Nat := 0
  network : Memory.Network := {}
  directory : Memory.Directory := {}
  watches : List Watch := []
  pipes : List Memory.Pipe := []
  /-- All streams that were opened; those that are gone keep their place. -/
  bodies : List Body := []
  items : List Item := []
deriving Inhabited

namespace World

def passes (w : World) (g : Gate) : Bool := w.gates.contains g

/-! ## Streams -/

def addStream (w : World) (b : Body) : StreamId × World :=
  (w.bodies.length, { w with bodies := w.bodies ++ [b] })

/-- A new pipe, with the streams that are its ends: the caller's and the called one's. -/
def addPipe (w : World) (capacity : Nat) : StreamId × StreamId × World :=
  let n := w.pipes.length
  let w := { w with pipes := w.pipes ++ [Memory.Pipe.create capacity] }
  let (a, w) := w.addStream (.pipe n .caller)
  let (b, w) := w.addStream (.pipe n .called)
  (a, b, w)

def setScripted (w : World) (id : StreamId) (s : ScriptedStream) : World :=
  { w with bodies := w.bodies.set id (.scripted s) }

/-- A read of a stream; none while there is nothing to answer. -/
def readStream (w : World) (id : StreamId) (size : Nat) : Option (Except Fault Bytes × World) :=
  match w.bodies[id]? with
  | some (.pipe n side) =>
    match w.pipes[n]? with
    | some p =>
      (p.read side size).map fun (bytes, p) => (.ok bytes, { w with pipes := w.pipes.set n p })
    | none => none
  | some (.scripted s) => (s.read w.passes size).map fun (r, s) => (r, w.setScripted id s)
  | none => none

/-- A write to a stream; none while it has no room. -/
def writeStream (w : World) (id : StreamId) (bytes : Bytes) : Option (Except Fault Nat × World) :=
  match w.bodies[id]? with
  | some (.pipe n side) =>
    match w.pipes[n]? with
    | some p => (p.write side bytes).map fun (r, p) => (r, { w with pipes := w.pipes.set n p })
    | none => none
  | some (.scripted s) => (s.write w.passes bytes).map fun (r, s) => (r, w.setScripted id s)
  | none => none

def flushStream (w : World) (id : StreamId) : Option (Except Fault Unit × World) :=
  match w.bodies[id]? with
  | some (.scripted s) => (s.flush w.passes).map fun (r, s) => (r, w.setScripted id s)
  | some (.pipe _ _) => some (.ok (), w)
  | none => none

/-- The end of what is written to a stream. -/
def shutdownStream (w : World) (id : StreamId) : World :=
  match w.bodies[id]? with
  | some (.pipe n side) =>
    match w.pipes[n]? with
    | some p => { w with pipes := w.pipes.set n (p.shutdown side) }
    | none => w
  | some (.scripted s) => w.setScripted id s.shutdown
  | none => w

def dropStream (w : World) (id : StreamId) : World :=
  match w.bodies[id]? with
  | some (.pipe n _) =>
    match w.pipes[n]? with
    | some p => { w with pipes := w.pipes.set n p.drop }
    | none => w
  | some (.scripted s) => w.setScripted id s.drop
  | none => w

/-! ## Listeners -/

/-- Nobody holds a listener any more: the callers that it never took are gone too. -/
def dropListener (w : World) (id : ListenerId) : World :=
  let (callers, network) := w.network.drop id
  callers.foldl (fun w c => w.dropStream c.1) { w with network }

def connectFrom (w : World) (own : Address) (capacity : Nat) (t : Target) :
    Except Fault (StreamId × World) :=
  let (near, far, w') := w.addPipe capacity
  (w'.network.connect own t far).map fun network => (near, { w' with network })

def bindFrom (w : World) (own : Address) (t : Target) : Except Fault (ListenerId × World) :=
  (w.network.bind own t).map fun (id, network) => (id, { w with network })

/-! ## Items -/

def endpoint? (w : World) (i : Nat) : Option Endpoint := (w.items[i]?).map fun it => it.endpoint

def setBackend (w : World) (i : Nat) (b : Backend) : World :=
  { w with items := w.items.modify i fun it => { it with backend := b } }

/-- Notes the number of an unanswered call. -/
def begin (w : World) (i : Nat) (k : Worker) (n : Nat) : World :=
  { w with items := w.items.modify i fun it => { it with begun := it.begun ++ [(k, n)] } }

/-- A call was answered. -/
def settle (w : World) (i : Nat) (k : Worker) : World :=
  { w with items := w.items.modify i fun it => { it with begun := it.begun.filter (·.1 ≠ k) } }

/-- Another state of an endpoint. What it held and does not hold any more is closed. -/
def setEndpoint (w : World) (i : Nat) (e : Endpoint) : World :=
  match w.items[i]? with
  | none => w
  | some it =>
    let gone (before after : List Nat) := before.eraseDups.filter fun x => !after.contains x
    let listeners := match it.backend with
      | .memory _ _ => gone it.endpoint.listeners e.listeners
      | .script _ => []
    let streams := gone it.endpoint.streams e.streams
    let w := { w with items := w.items.set i { it with endpoint := e } }
    streams.foldl dropStream (listeners.foldl dropListener w)

/-! ## Calls -/

/-- Waits until a tick that is fixed when the call is first looked at. -/
def waitUntil (w : World) (i : Nat) (it : Item) (k : Worker) (ticks : Nat) : World × Bool :=
  match it.begun.lookup k with
  | some t => (w, t ≤ w.now)
  | none => (w.begin i k (w.now + ticks), ticks = 0)

/-- Which attempt to register this call is. -/
def registerAttempt (w : World) (i : Nat) (it : Item) (k : Worker) : Nat × World :=
  match it.begun.lookup k with
  | some n => (n, w)
  | none =>
    (w.registerAttempts,
      { w with registerAttempts := w.registerAttempts + 1 }.begin i k w.registerAttempts)

/-- Which attempt to withdraw this call is. -/
def withdrawAttempt (w : World) (i : Nat) (it : Item) (k : Worker) : Nat × World :=
  match it.begun.lookup k with
  | some n => (n, w)
  | none =>
    (w.withdrawAttempts,
      { w with withdrawAttempts := w.withdrawAttempts + 1 }.begin i k w.withdrawAttempts)

/-- Whether the gate of an attempt is open. An attempt without a gate need not wait. -/
def attemptPasses (w : World) (gates : List (Option Gate)) (n : Nat) : Bool :=
  match gates[n]? with
  | some (some g) => w.passes g
  | _ => true

/-- Answers a call of a worker, or leaves it unanswered. -/
def answer (w : World) (i : Nat) (it : Item) (k : Worker) (c : Call) : World × Option Reply :=
  match c with
  | .connect t =>
    match it.backend with
    | .memory own capacity =>
      match w.connectFrom own capacity t with
      | .ok (s, w) => (w, some (.connected (.ok s)))
      | .error f => (w, some (.connected (.error f)))
    | .script sc =>
      match Step.next w.passes (some (.error (.bare .connectionRefused))) sc.connects with
      | none => (w, none)
      | some (result, connects) =>
        let w := w.setBackend i (.script { sc with connects })
        match result with
        | .ok s =>
          let (id, w) := w.addStream (.scripted s)
          (w, some (.connected (.ok id)))
        | .error f => (w, some (.connected (.error f)))
  | .bind channel =>
    match it.backend with
    | .memory own _ =>
      match w.bindFrom own ⟨.any, channel⟩ with
      | .ok (l, w) => (w, some (.bound (.ok l)))
      | .error f => (w, some (.bound (.error f)))
    | .script sc =>
      match Step.next w.passes (some (.ok ())) sc.binds with
      | none => (w, none)
      | some (result, binds) =>
        (w.setBackend i (.script { sc with binds }), some (.bound (result.map fun _ => 0)))
  | .accept l ticks =>
    let (w, late) := w.waitUntil i it k ticks
    let timeout := if late then some .elapsed else none
    match it.backend with
    | .memory _ _ =>
      match w.network.accept l with
      | some (caller, network) => ({ w with network }, some (.accepted (.ok caller)))
      | none => (w, timeout)
    | .script sc =>
      match Step.next w.passes none sc.accepts with
      | none => (w, timeout)
      | some (result, accepts) =>
        let w := w.setBackend i (.script { sc with accepts })
        match result with
        | .ok (s, peer) =>
          let (id, w) := w.addStream (.scripted s)
          (w, some (.accepted (.ok (id, peer))))
        | .error f => (w, some (.accepted (.error f)))
  | .pause ticks =>
    let (w, late) := w.waitUntil i it k ticks
    (w, if late then some .elapsed else none)
  | .register record =>
    let (n, w) := w.registerAttempt i it k
    if w.attemptPasses w.registerGates n then
      match w.directory.register record with
      | .ok (s, directory) => ({ w with directory }, some (.registered (.ok s)))
      | .error reason => (w, some (.registered (.error reason)))
    else (w, none)
  | .withdraw session =>
    let (n, w) := w.withdrawAttempt i it k
    if w.attemptPasses w.withdrawGates n then
      ({ w with directory := w.directory.withdraw session }, some .withdrawn)
    else (w, none)
  | .read s size =>
    match w.readStream s size with
    | some (r, w) => (w, some (.read r))
    | none => (w, none)
  | .write s bytes =>
    match w.writeStream s bytes with
    | some (r, w) => (w, some (.wrote r))
    | none => (w, none)
  | .flush s =>
    match w.flushStream s with
    | some (r, w) => (w, some (.flushed r))
    | none => (w, none)
  | .shutdown s => (w.shutdownStream s, some .shutDown)

end World

end Rfcomm.Simulation
