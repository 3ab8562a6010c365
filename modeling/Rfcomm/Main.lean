import Rfcomm.Terminal.Work
/-!
The terminal as a program. It reads the settings, logs to the error output, and runs with the
keyboard and the screen of its process. The host of this program has no radio, so opening a socket
or the bus fails, and that is reported as any failure of the terminal is.
-/
namespace Rfcomm.Main

/-- What sockets fail with on a host without a radio. -/
def noRadio : Fault := .status 97

/-- What the bus fails with on a host without one. -/
def noBus : Bus.Failure := ⟨"org.freedesktop.DBus.Error.FileNotFound", (Fault.status 2).text⟩

/-- The bytes of a file, none if there is no such file. -/
def contentOf (path : String) : IO (Except Unit (Option ByteArray)) :=
  try
    return .ok (some (← IO.FS.readBinFile path))
  catch
    | .noFileOrDirectory _ _ _ => return .ok none
    | _ => return .error ()

def load (path : String) : IO (Except Config.StoreError Config) := do
  match ← contentOf path with
  | .ok (some content) => return Config.ofBytes path content
  | _ => return .error (.reading path)

/-- Reads the settings of a file, or writes the defaults where nothing is. -/
def loadOrCreate (path : String) : IO (Except Config.StoreError Config) := do
  match ← contentOf path with
  | .ok none =>
    match Config.render {} with
    | .error reason => return .error (.unwritable reason)
    | .ok text =>
      try
        IO.FS.createDirAll (Config.Files.parent path)
        IO.FS.writeFile path text
        return .ok {}
      catch e => return .error (.fault (.explained .other (toString e)))
  | .ok (some content) => return Config.ofBytes path content
  | .error () => return .error (.reading path)

/-- Reads the settings: those of the file that the environment names, else the user's. -/
def settings : IO (Except Config.StoreError Config) := do
  match ← IO.getEnv "BTSERIAL_CONFIG" with
  | some path => load path
  | none =>
    let home := (← IO.getEnv "HOME").getD ""
    loadOrCreate (Config.defaultPath (← IO.getEnv "XDG_CONFIG_HOME") home)

def log (lines : List Terminal.Line) : IO Unit := do
  for l in lines do
    IO.eprintln (l.level.name ++ " " ++ Terminal.programName ++ ": " ++ l.text)

def answerLink : Call → Option Rfcomm.Reply
  | .connect _ => some (.connected (.error noRadio))
  | .bind _ => some (.bound (.error noRadio))
  | .accept _ _ => some (.accepted (.error noRadio))
  | .register _ => some (.registered (.error noBus.text))
  | .withdraw _ => some .withdrawn
  | .pause _ => some .elapsed
  | .read _ _ => some (.read (.error noRadio))
  | .write _ _ => some (.wrote (.error noRadio))
  | .flush _ => some (.flushed (.error noRadio))
  | .shutdown _ => some .shutDown

def answer : Terminal.Ask → IO (Option Terminal.Reply)
  | .blocked | .link .blocked => return none
  | .ready => return some .go
  | .choose branches => return branches.head?.map .chosen
  | .link .ready => return some (.link .go)
  | .link (.call c) => return (answerLink c).map .link
  | .openBus => return some (.opened (.error noBus))
  | .bus _ => return some (.bus (.error noBus))
  | .input size => do
    let bytes ← (← IO.getStdin).read (USize.ofNat (min size 65536))
    return some (.input (.ok bytes.toList))
  | .display bytes => do
    let screen ← IO.getStdout
    screen.write ⟨bytes.toArray⟩
    screen.flush
    return some (.displayed (.ok ()))

/-- One step of the first actor that has one to take. -/
def step (t : Terminal) : List Terminal.Actor → IO (Option Terminal)
  | [] => return none
  | a :: rest => do
    match (← answer (t.ask a)).bind (t.resume a) with
    | some (t, lines) =>
      log lines
      return some t
    | none => step t rest

/-- Runs the terminal until nobody in it has a step to take. -/
partial def run (t : Terminal) : IO Terminal := do
  match ← step t t.actors with
  | some t => run t
  | none => return t

def report (f : Terminal.Failure) : IO Unit := do
  IO.eprintln ("Error: " ++ f.message)
  unless f.causes.isEmpty do
    IO.eprintln "\nCaused by:"
    for c in f.causes do
      IO.eprintln ("    " ++ c)

end Rfcomm.Main

/-- Runs the terminal with the settings of its user. -/
def main : IO UInt32 := do
  let (t, lines) := Rfcomm.Terminal.start (← Rfcomm.Main.settings)
  Rfcomm.Main.log lines
  match (← Rfcomm.Main.run t).stage with
  | .ended (.error f) =>
    Rfcomm.Main.report f
    return 1
  | _ => return 0
