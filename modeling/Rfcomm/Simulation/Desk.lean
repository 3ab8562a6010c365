import Rfcomm.Terminal.Work
/-!
A terminal at a desk: a keyboard, a screen, devices in reach of its sockets, and the bus of its host.
Devices take at once what is sent to them. After each thing that happens the terminal runs until it
waits for the next one.
-/
namespace Rfcomm.Simulation

/-! ## The keyboard -/

/-- What is typed, on its way to the terminal. -/
structure Keyboard where
  /-- What was typed and not fetched. -/
  typed : Bytes := []
  /-- What was fetched and not read. -/
  fetched : Bytes := []
  closed : Bool := false
  fault : Option Fault := none
deriving Inhabited

namespace Keyboard

/-- Typed bytes are fetched in blocks of this size. -/
def blockSize : Nat := 8192

/-- A read of up to `size` bytes; none while nothing is typed. -/
def read (k : Keyboard) (size : Nat) : Option (Except Fault Bytes × Keyboard) :=
  match k.fault with
  | some f => some (.error f, k)
  | none =>
    if !k.fetched.isEmpty then
      some (.ok (k.fetched.take size), { k with fetched := k.fetched.drop size })
    else if k.typed.isEmpty then if k.closed then some (.ok [], k) else none
    else if blockSize ≤ size then
      some (.ok (k.typed.take size), { k with typed := k.typed.drop size })
    else
      let block := k.typed.take blockSize
      some (.ok (block.take size),
        { k with fetched := block.drop size, typed := k.typed.drop blockSize })

end Keyboard

/-! ## Devices -/

/-- A device, which is at one end of at most one stream. The number of the stream is the place of
the device. -/
structure Device where
  name : String
  address : Address
  channel : UInt8
  connected : Bool := false
  /-- What it sent and the terminal did not receive yet. -/
  outgoing : Bytes := []
  finished : Bool := false
  gone : Bool := false
  /-- Whether it has no room for bytes until it does something itself. -/
  full : Bool := false
  /-- What it was sent since the last look. -/
  received : Bytes := []
  /-- Whether it will be sent no more. -/
  ended : Bool := false
  /-- Whether a look has shown so. -/
  endSeen : Bool := false
deriving Inhabited

/-- The socket calls that can be made to fail. -/
inductive SocketCall
  | socket
  | bind
  | listen
  | connect
  | accept
  | recv
  | send
deriving DecidableEq, Inhabited

/-! ## The bus -/

/-- What the terminal was seen to ask of the bus. -/
inductive Request
  | call (c : Bus.Call)
  /-- The registration with this number, counted from zero. -/
  | register (number : Nat) (p : Bus.Profile)
  | unregister (number : Nat)
deriving Inhabited

/-- The name by which a call is made to fail. -/
def Request.name : Request → String
  | call .objects => "GetManagedObjects"
  | call (.get _ property) => "Get " ++ property
  | call (.set _ property _) => "Set " ++ property
  | register _ _ => "RegisterProfile"
  | unregister _ => "UnregisterProfile"

/-- The bus of the host. -/
structure Host where
  adapters : List String
  powered : Bool
  address : String
  /-- What the calls of each name fail with, in order; none where one works. -/
  failures : List (String × List (Option Bus.Failure)) := []
deriving Inhabited

/-- The next failure of the calls of a name, if the next call fails. -/
def Host.next (h : Host) (name : String) : Option Bus.Failure × Host :=
  match h.failures.lookup name with
  | some (f :: _) =>
    (f, { h with failures := h.failures.map fun e =>
      if e.1 = name then (e.1, e.2.drop 1) else e })
  | _ => (none, h)

/-- The answer of the bus to a call that works. -/
def Host.answer (h : Host) : Bus.Call → Bus.Answer × Host
  | .objects => (.adapters h.adapters, h)
  | .get _ "Powered" => (.value (.flag h.powered), h)
  | .get _ _ => (.value (.text h.address), h)
  | .set _ "Powered" (.flag on) => (.done, { h with powered := on })
  | .set _ _ _ => (.done, h)

/-- Why the bus of a host without one cannot be opened. -/
def noBus : Bus.Failure :=
  ⟨"org.freedesktop.DBus.Error.FileNotFound",
   "Failed to connect to socket <dir>/nobody: No such file or directory"⟩

/-! ## The desk -/

/-- A terminal and everything around it. -/
structure Desk where
  terminal : Terminal
  keyboard : Keyboard := {}
  devices : List Device := []
  host : Option Host := none
  /-- What the next socket call of a kind fails with. -/
  faults : List (SocketCall × Nat) := []
  listening : Option UInt8 := none
  backlog : List StreamId := []
  registrations : Nat := 0
  /-- What happened since the last look. -/
  lines : List Terminal.Line := []
  requests : List Request := []
  shown : Bytes := []

namespace Desk

/-- Uses the fault of a call up, if there is one. -/
def takeFault (d : Desk) (c : SocketCall) : Option Fault × Desk :=
  ((d.faults.lookup c).map .status, { d with faults := d.faults.filter (·.1 ≠ c) })

def setFault (d : Desk) (c : SocketCall) (code : Nat) : Desk :=
  { d with faults := d.faults.filter (·.1 ≠ c) ++ [(c, code)] }

def change (d : Desk) (id : StreamId) (f : Device → Device) : Desk :=
  { d with devices := d.devices.modify id f }

def dropStream (d : Desk) (id : StreamId) : Desk := d.change id fun v => { v with ended := true }

/-- Nobody listens any more, and those who waited are sent away. -/
def dropListener (d : Desk) : Desk :=
  d.backlog.foldl dropStream { d with listening := none, backlog := [] }

/-- Another state of the terminal. What it held and does not hold any more is closed. -/
def setTerminal (d : Desk) (t : Terminal) : Desk :=
  let streams (t : Terminal) := t.endpoint.elim [] Endpoint.streams
  let listeners (t : Terminal) := t.endpoint.elim [] Endpoint.listeners
  let gone := (streams d.terminal).filter fun s => !(streams t).contains s
  let deaf := !(listeners d.terminal).isEmpty && (listeners t).isEmpty
  let d := gone.foldl dropStream { d with terminal := t }
  if deaf then d.dropListener else d

/-! ## Answers -/

def connect (d : Desk) (t : Target) : Desk × Except Fault StreamId :=
  match d.takeFault .socket with
  | (some f, d) => (d, .error f)
  | (none, d) =>
    match d.takeFault .connect with
    | (some f, d) => (d, .error f)
    | (none, d) =>
      match d.devices.findIdx? fun v =>
        v.address = t.address && v.channel = t.channel && !v.connected with
      | some id => (d.change id fun v => { v with connected := true }, .ok id)
      | none => (d, .error (.status 112))

def bind (d : Desk) (channel : UInt8) : Desk × Except Fault ListenerId :=
  match d.takeFault .socket with
  | (some f, d) => (d, .error f)
  | (none, d) =>
    match d.takeFault .bind with
    | (some f, d) => (d, .error f)
    | (none, d) =>
      match d.takeFault .listen with
      | (some f, d) => (d, .error f)
      | (none, d) => ({ d with listening := some channel }, .ok 0)

def accept (d : Desk) : Option (Desk × Except Fault (StreamId × Address)) :=
  match d.backlog with
  | [] => none
  | id :: rest =>
    match d.takeFault .accept with
    | (some f, d) => some ({ d with backlog := rest }.dropStream id, .error f)
    | (none, d) =>
      (d.devices[id]?).map fun v => ({ d with backlog := rest }, .ok (id, v.address))

/-- Receives what a device sent. A fault uses up what it strikes. -/
def receive (d : Desk) (id : StreamId) (size : Nat) : Option (Desk × Except Fault Bytes) :=
  match d.devices[id]? with
  | none => none
  | some v =>
    if v.outgoing.isEmpty && !v.finished && !v.gone then none
    else
      let (fault, d) := d.takeFault .recv
      let d := d.change id fun v => { v with outgoing := v.outgoing.drop size }
      match fault with
      | some f => some (d, .error f)
      | none => some (d, .ok (v.outgoing.take size))

/-- The fault of a call that would have to wait. -/
def wouldBlock : Nat := 11

/-- Whether a send to a device waits until the device does something. -/
def isFull (d : Desk) (id : StreamId) : Bool := d.devices[id]?.any (·.full)

def send (d : Desk) (id : StreamId) (bytes : Bytes) : Desk × Except Fault Nat :=
  match d.takeFault .send with
  | (some f, d) => (d, .error f)
  | (none, d) =>
    match d.devices[id]? with
    | some v =>
      if v.gone then (d, .error (.status 32))
      else (d.change id fun v => { v with received := v.received ++ bytes }, .ok bytes.length)
    | none => (d, .error (.status 32))

/-- Notes a request to the bus, and whether it fails. -/
def request (d : Desk) (r : Request) : Option Bus.Failure × Desk :=
  let d := { d with requests := d.requests ++ [r] }
  match d.host with
  | some h =>
    let (f, h) := h.next r.name
    (f, { d with host := some h })
  | none => (some noBus, d)

def answerBus (d : Desk) (c : Bus.Call) : Desk × Except Bus.Failure Bus.Answer :=
  match d.request (.call c) with
  | (some f, d) => (d, .error f)
  | (none, d) =>
    match d.host with
    | some h =>
      let (a, h) := h.answer c
      ({ d with host := some h }, .ok a)
    | none => (d, .error noBus)

/-- Answers a call of the link, or leaves it unanswered. Pauses are over at once, and the wait for a
caller goes on for as long as nobody calls. -/
def answerLink (d : Desk) (c : Call) : Desk × Option Rfcomm.Reply :=
  match c with
  | .connect t =>
    let (d, r) := d.connect t
    (d, some (.connected r))
  | .bind channel =>
    let (d, r) := d.bind channel
    (d, some (.bound r))
  | .accept _ _ =>
    match d.accept with
    | some (d, r) => (d, some (.accepted r))
    | none => (d, none)
  | .pause _ => (d, some .elapsed)
  | .register record =>
    let n := d.registrations
    match { d with registrations := n + 1 }.request (.register n (.ofRecord record)) with
    | (some f, d) => (d, some (.registered (.error f.text)))
    | (none, d) => (d, some (.registered (.ok n)))
  | .withdraw session =>
    let (_, d) := d.request (.unregister session)
    (d, some .withdrawn)
  | .read s size =>
    match d.receive s size with
    | some (d, r) => (d, some (.read r))
    | none => (d, none)
  | .write s bytes =>
    if d.isFull s then (d, none)
    else
      let (d, r) := d.send s bytes
      (d, some (.wrote r))
  | .flush _ => (d, some (.flushed (.ok ())))
  | .shutdown s => (d.dropStream s, some .shutDown)

/-- Answers what an actor waits for, or leaves it unanswered. -/
def answer (d : Desk) (a : Terminal.Ask) : Desk × Option Terminal.Reply :=
  match a with
  | .blocked => (d, none)
  | .ready => (d, some .go)
  | .choose branches => (d, branches.head?.map .chosen)
  | .link .blocked => (d, none)
  | .link .ready => (d, some (.link .go))
  | .link (.call c) =>
    let (d, r) := d.answerLink c
    (d, r.map .link)
  | .openBus => (d, some (.opened (if d.host.isSome then .ok () else .error noBus)))
  | .bus c =>
    let (d, r) := d.answerBus c
    (d, some (.bus r))
  | .input size =>
    match d.keyboard.read size with
    | some (r, keyboard) => ({ d with keyboard }, some (.input r))
    | none => (d, none)
  | .display bytes => ({ d with shown := d.shown ++ bytes }, some (.displayed (.ok ())))

/-! ## Running -/

/-- A send that would have to wait does so from now on. A device that is gone has no use for room. -/
def holdBack (d : Desk) (a : Terminal.Ask) : Option Desk :=
  match a with
  | .link (.call (.write s _)) =>
    if d.faults.lookup .send = some wouldBlock && !d.isFull s then
      some ((d.takeFault .send).2.change s fun v => { v with full := !v.gone })
    else none
  | _ => none

/-- One step of an actor, if there is one to take now. -/
def step (d : Desk) (a : Terminal.Actor) : Option Desk :=
  let ask := d.terminal.ask a
  match d.holdBack ask with
  | some d => some d
  | none =>
    match d.answer ask with
    | (d, some r) =>
      (d.terminal.resume a r).map fun (t, lines) =>
        { d.setTerminal t with lines := d.lines ++ lines }
    | (_, none) => none

/-- Runs the terminal until everybody in it waits, at most for `fuel` steps. -/
def rest : Nat → Desk → Desk
  | 0, d => d
  | fuel + 1, d =>
    match d.terminal.actors.findSome? d.step with
    | some d => rest fuel d
    | none => d

/-- The most steps that are taken after one thing happened. No desk needs as many. -/
def patience : Nat := 10000000

/-- Runs the terminal until everybody in it waits. -/
def settle (d : Desk) : Desk := d.rest patience

/-- A terminal with these settings, started at a desk. -/
def start (settings : Except Config.StoreError Config) (d : Terminal → Desk) : Desk :=
  let (t, lines) := Terminal.start settings
  { d t with lines }.settle

/-- Whether the program has ended. It does not while a read of the keyboard waits. -/
def hasExited (d : Desk) : Bool :=
  d.terminal.isOver && (d.terminal.reader ≠ .reading || (d.keyboard.read 1).isSome)

/-- Why the terminal gave up, once the program has ended. -/
def failure? (d : Desk) : Option Terminal.Failure :=
  match d.terminal.stage with
  | .ended (.error f) => some f
  | _ => none

/-! ## What happens -/

/-- Something that happens at the desk. -/
inductive Event
  | type (bytes : Bytes) (close : Bool)
  | closeKeyboard
  | interrupt
  | fault (c : SocketCall) (code : Nat)
  | deviceConnects (name : String) (address : Address) (channel : UInt8)
  | deviceSends (name : String) (bytes : Bytes)
  | deviceFinishes (name : String)
  | deviceCloses (name : String)

/-- The device of a name, the latest if there were several. -/
def device? (d : Desk) (name : String) : Option StreamId :=
  ((d.devices.zipIdx.filter fun e => e.1.name = name).getLast?).map (·.2)

/-- A device does something itself, and has room from then on. -/
def act (d : Desk) (name : String) (f : Device → Device) : Desk :=
  match d.device? name with
  | some id => d.change id fun v => { f v with full := false }
  | none => d

/-- Something happens. -/
def happen (d : Desk) : Event → Desk
  | .type bytes close =>
    { d with keyboard := { d.keyboard with
        typed := d.keyboard.typed ++ bytes
        closed := d.keyboard.closed || close } }
  | .closeKeyboard => { d with keyboard := { d.keyboard with closed := true } }
  | .interrupt => { d with terminal := d.terminal.interrupt }
  | .fault c code => d.setFault c code
  | .deviceConnects name address channel =>
    if d.listening = some channel then
      { d with
        devices := d.devices ++ [{ name, address, channel, connected := true }]
        backlog := d.backlog ++ [d.devices.length] }
    else d
  | .deviceSends name bytes =>
    d.act name fun v => { v with outgoing := v.outgoing ++ bytes }
  | .deviceFinishes name => d.act name fun v => { v with finished := true }
  | .deviceCloses name => d.act name fun v => { v with gone := true }

/-- Something happens, and the terminal runs until it waits for the next thing. -/
def after (d : Desk) (e : Event) : Desk := (d.happen e).settle

/-- Nothing more is typed; if that does not end the program, it is interrupted. -/
def finish (d : Desk) : Desk :=
  let d := d.after .closeKeyboard
  if d.hasExited then d else d.after .interrupt

/-! ## Looking -/

/-- What a device saw since the last look: the bytes that it was sent, and whether the end came. -/
def Device.news (v : Device) : Bytes × Bool := (v.received, v.ended && !v.endSeen && !v.gone)

/-- What happened since the last look is forgotten. -/
def forget (d : Desk) : Desk :=
  { d with
    lines := []
    requests := []
    shown := []
    devices := d.devices.map fun v => { v with received := [], endSeen := v.ended } }

end Desk

end Rfcomm.Simulation
