import Rfcomm.Terminal.State
/-! What the actors of the terminal wait for, and what each of their steps does. -/
namespace Rfcomm.Terminal

/-! ## Starting -/

/-- Starts with settings, or fails for want of them. -/
def start (settings : Except Config.StoreError Config) : Terminal × List Line :=
  match settings with
  | .error e => ({ config := {}, stage := .ended (.error (.settings e)) }, [startLine])
  | .ok config =>
    let lines := [startLine, info "Configuration loaded"]
    match config.bluetooth.mode with
    | .client =>
      let c := Connection.create config.link
      match c.connect config.client.address config.bluetooth.channel with
      | .ok (k, c) =>
        ({ config, stage := .connecting (.waiting k), endpoint := some (.connection c) }, lines)
      | .error e =>
        ({ config
           stage := .connecting (.settled (.failed e))
           endpoint := some (.connection c) }, lines)
    | .server => ({ config, stage := .opening }, lines)

/-! ## Small steps -/

/-- Lets go of the endpoint, and everything that runs in the background is gone. -/
def shut (t : Terminal) : Terminal :=
  { t with
    endpoint := t.endpoint.map fun e => (e.drop true).abort
    read := none }

def fail (t : Terminal) (f : Failure) : Terminal × List Line :=
  ({ t.shut with stage := .ended (.error f) }, [])

/-- Ends, after a last line that says why. -/
def stop (t : Terminal) (l : Line) : Terminal × List Line :=
  ({ t.shut with stage := .ended (.ok ()) }, [l, stopLine])

/-- Waits for the first of several things from now on. An interruption counts only if it comes
while the main loop waits. -/
def select (t : Terminal) : Terminal := { t with stage := .selecting, interrupted := false }

/-- Starts to read what is typed. A reader that cannot have its buffer is gone at once. -/
def startReader (t : Terminal) : Terminal :=
  { t with reader := if Link.maxBuffer < t.config.link.readSize then .done else .reading }

def startRead (t : Terminal) : Terminal :=
  match t.endpoint with
  | some (.connection c) =>
    match c.read with
    | .ok (k, c) => { t with endpoint := some (.connection c), read := some (.waiting k) }
    | .error e => { t with read := some (.settled (.failed e)) }
  | some (.server s) =>
    match s.read with
    | .ok (k, s) => { t with endpoint := some (.server s), read := some (.waiting k) }
    | .error e => { t with read := some (.settled (.failed e)) }
  | none => t

def startWrite (t : Terminal) (chunk : Bytes) : Terminal :=
  match t.endpoint with
  | some (.connection c) =>
    let (k, c) := c.write chunk
    { t with endpoint := some (.connection c), stage := .sending (.waiting k) }
  | some (.server s) =>
    let (k, s) := s.write chunk
    { t with endpoint := some (.server s), stage := .sending (.waiting k) }
  | none => t

/-- An interruption from outside. It is noticed by a main loop that waits for one. -/
def interrupt (t : Terminal) : Terminal :=
  match t.stage with
  | .selecting => { t with interrupted := true }
  | _ => t

/-! ## Preparing the adapter -/

def Preparing.call : Preparing → Bus.Call
  | finding => .objects
  | asking a => .get a "Powered"
  | powering a => .set a "Powered" (.flag true)
  | naming a name => .set a "Alias" (.text name)
  | discovering a => .set a "Discoverable" (.flag true)
  | pairing a => .set a "Pairable" (.flag true)
  | locating a => .get a "Address"

def startListening (t : Terminal) : Terminal :=
  let s := Server.create t.config.link
  match s.listen ⟨t.config.server.uuid, t.config.bluetooth.channel, t.config.server.serviceName⟩ with
  | .ok (k, s) => { t with endpoint := some (.server s), stage := .listening (.waiting k) }
  | .error e =>
    { t with endpoint := some (.server s), stage := .listening (.settled (.failed e)) }

/-- What comes after the adapter has power: its name, if the settings give one. -/
def afterPower (config : Config) (a : String) : Preparing :=
  match config.bluetooth.adapterAlias with
  | some name => .naming a name
  | none => .discovering a

def prepared (t : Terminal) (p : Preparing) (a : Bus.Answer) : Option (Terminal × List Line) :=
  let go (p : Preparing) (lines : List Line) := some ({ t with stage := .preparing p }, lines)
  match p, a with
  | .finding, .adapters names =>
    match Bus.defaultAdapter? names with
    | some a => go (.asking a) [info ("Using Bluetooth adapter: " ++ a)]
    | none => some (t.fail (.bus .unknownObject))
  | .asking a, .value (.flag true) => go (afterPower t.config a) []
  | .asking a, .value (.flag false) => go (.powering a) [info "Powering on Bluetooth adapter..."]
  | .powering a, .done => go (afterPower t.config a) []
  | .naming a name, .done => go (.discovering a) [info ("Bluetooth name set to: " ++ name)]
  | .discovering a, .done => go (.pairing a) []
  | .pairing a, .done => go (.locating a) []
  | .locating _, .value (.text address) =>
    let shown := (Address.parse? address).elim address Address.toText
    some (t.startListening, [info ("Adapter " ++ shown ++ " is discoverable and pairable")])
  | _, _ => none

/-! ## The main loop -/

def feed? (t : Terminal) : Option Server.Feed :=
  match t.endpoint with
  | some (.server s) => some s.feed
  | _ => none

def branches (t : Terminal) : List Branch :=
  (if t.feed?.any fun f => !f.queue.isEmpty || !f.sending then [.event] else []) ++
    (match t.read with
      | some (.settled _) => [.read]
      | _ => []) ++
    (if t.inputOpen && (!t.chunks.isEmpty || t.reader = .done) then [.chunk] else []) ++
    (if t.interrupted then [.signal] else [])

def takeEvent (t : Terminal) (s : Server) : Option (Terminal × List Line) :=
  match s.feed.take with
  | none =>
    if s.feed.sending then none else some ({ t.shut with stage := .ended (.ok ()) }, [stopLine])
  | some (e, feed) =>
    let t := { t.select with endpoint := some (.server { s with feed }) }
    match e with
    | .connected a => some (t.startRead, [info ("Client connected: " ++ a.toText)])
    | .disconnected a => some (t, [info ("Client disconnected: " ++ a.toText)])
    | .failure text => some (t, [⟨.error, "Server error: " ++ text⟩])

def takeRead (t : Terminal) (o : Outcome) : Option (Terminal × List Line) :=
  let t := { t with read := none }
  match t.endpoint, o with
  | _, .data bytes => some ({ t with stage := .showing bytes }, [])
  | some (.connection _), .closed => some (t.stop (info "Connection closed"))
  | some (.connection _), .failed e => some (t.fail (.link e))
  | some (.server _), .closed => some (t.select, [])
  | some (.server s), .failed e =>
    some ({ t.select with endpoint := some (.server s.disconnectClient) },
      [⟨.warn, "Read failed: " ++ e.message⟩])
  | _, _ => none

/-- Takes a chunk, or notices that there will be no more. -/
def takeChunk (t : Terminal) : Option (Terminal × List Line) :=
  match t.endpoint, t.chunks with
  | some (.connection _), chunk :: chunks => some ({ t with chunks }.startWrite chunk, [])
  | some (.server s), chunk :: chunks =>
    if s.isOpen then some ({ t with chunks }.startWrite chunk, [])
    else some ({ t with chunks }.select, [])
  | some (.connection _), [] => some (t.stop (info "End of input"))
  | some (.server _), [] => some ({ t with inputOpen := false }.select, [])
  | none, _ => none

/-- Takes one of the things that the main loop waits for. -/
def take (t : Terminal) (b : Branch) : Option (Terminal × List Line) :=
  if t.branches.contains b then
    match b with
    | .event =>
      match t.endpoint with
      | some (.server s) => t.takeEvent s
      | _ => none
    | .read =>
      match t.read with
      | some (.settled o) => t.takeRead o
      | _ => none
    | .chunk => t.takeChunk
    | .signal => some (t.stop (info "Shutdown signal received"))
  else none

def sent (t : Terminal) (o : Outcome) : Terminal × List Line :=
  match t.endpoint, o with
  | some (.connection _), .failed e => t.fail (.link e)
  | _, .failed e => (t.select, [⟨.warn, "Write failed: " ++ e.message⟩])
  | _, _ => (t.select, [])

/-- One step of the main loop. -/
def resumeMain (t : Terminal) (r : Reply) : Option (Terminal × List Line) :=
  match t.stage, r with
  | .connecting (.settled .connected), .go => some (t.startReader.startRead.select, [])
  | .connecting (.settled (.failed e)), .go =>
    some (t.fail (.connecting t.config.client.address e))
  | .opening, .opened (.ok ()) =>
    some ({ t with stage := .preparing .finding }, [info "BlueZ session created"])
  | .opening, .opened (.error f) => some (t.fail (.bus f))
  | .preparing p, .bus (.ok a) => t.prepared p a
  | .preparing _, .bus (.error f) => some (t.fail (.bus f))
  | .listening (.settled .listening), .go => some (t.startReader.select, [])
  | .listening (.settled (.failed e)), .go => some (t.fail (.link e))
  | .selecting, .chosen b => t.take b
  | .showing _, .displayed (.ok ()) => some (t.startRead.select, [])
  | .showing _, .displayed (.error f) => some (t.fail (.output f))
  | .sending (.settled o), .go => some (t.sent o)
  | _, _ => none

def askMain (t : Terminal) : Ask :=
  match t.stage with
  | .connecting (.settled _) | .listening (.settled _) | .sending (.settled _) => .ready
  | .opening => .openBus
  | .preparing p => .bus p.call
  | .selecting => if t.branches.isEmpty then .blocked else .choose t.branches
  | .showing bytes => .display bytes
  | _ => .blocked

/-! ## The reader -/

/-- Whether there is room for another chunk. -/
def hasRoom (t : Terminal) : Bool := t.chunks.length < chunkCapacity

def askReader (t : Terminal) : Ask :=
  match t.reader with
  | .reading => .input t.config.link.readSize
  | .offering _ => if t.hasRoom then .ready else .blocked
  | .off | .done => .blocked

def resumeReader (t : Terminal) (r : Reply) : Option (Terminal × List Line) :=
  match t.reader, r with
  | .reading, .input (.ok []) => some ({ t with reader := .done }, [])
  | .reading, .input (.ok chunk) =>
    if chunk.length ≤ t.config.link.readSize then
      if t.hasRoom then some ({ t with chunks := t.chunks ++ [chunk] }, [])
      else some ({ t with reader := .offering chunk }, [])
    else none
  | .reading, .input (.error f) =>
    some ({ t with reader := .done }, [⟨.error, "Failed to read stdin: " ++ f.text⟩])
  | .offering chunk, .go =>
    if t.hasRoom then some ({ t with chunks := t.chunks ++ [chunk], reader := .reading }, [])
    else none
  | _, _ => none

/-! ## All actors -/

def isOver (t : Terminal) : Bool :=
  match t.stage with
  | .ended _ => true
  | _ => false

/-- A job of the endpoint ended: whoever waits for it goes on. -/
def settle (t : Terminal) (k : Worker) (o : Outcome) : Terminal :=
  { t with
    read := t.read.map fun h => h.settle k o
    stage := match t.stage with
      | .connecting h => .connecting (h.settle k o)
      | .listening h => .listening (h.settle k o)
      | .sending h => .sending (h.settle k o)
      | s => s }

/-- Everybody who runs in the terminal. Nobody does after the main loop is over. -/
def actors (t : Terminal) : List Actor :=
  if t.isOver then []
  else (t.endpoint.elim [] fun e => e.workers.map .worker) ++ [.reader, .main]

def ask (t : Terminal) (a : Actor) : Ask :=
  if t.isOver then .blocked
  else
    match a with
    | .main => t.askMain
    | .reader => t.askReader
    | .worker k => t.endpoint.elim .blocked fun e => .link (e.ask k)

/-- One step of an actor, with the lines that it logs; none if the reply is not what the actor
waits for. -/
def resume (t : Terminal) (a : Actor) (r : Reply) : Option (Terminal × List Line) :=
  if t.isOver then none
  else
    match a, r with
    | .main, r => t.resumeMain r
    | .reader, r => t.resumeReader r
    | .worker k, .link r =>
      match t.endpoint.bind fun e => e.resume k r with
      | some (e, o) =>
        let t := { t with endpoint := some e }
        some (o.elim t (t.settle k), [])
      | none => none
    | _, _ => none

end Rfcomm.Terminal
