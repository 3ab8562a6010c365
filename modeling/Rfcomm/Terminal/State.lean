import Rfcomm.Config.Store
import Rfcomm.Endpoint
import Rfcomm.Terminal.Bus
/-!
The terminal: what is typed goes to the other side of a link, what arrives is shown. Beside the
workers of the link there are two that run in it, the reader of what is typed and the main loop.
-/
namespace Rfcomm

/-- How much a line of the log matters. -/
inductive Terminal.Level
  | info
  | warn
  | error
deriving DecidableEq, Repr, Inhabited

def Terminal.Level.name : Level → String
  | info => "INFO"
  | warn => "WARN"
  | error => "ERROR"

/-- A line of the log. -/
structure Terminal.Line where
  level : Terminal.Level
  text : String
deriving DecidableEq, Repr, Inhabited

/-- Why the terminal gave up. -/
inductive Terminal.Failure
  | settings (e : Config.StoreError)
  | connecting (address : String) (e : Error)
  | link (e : Error)
  | bus (f : Bus.Failure)
  | output (f : Fault)
deriving DecidableEq, Repr, Inhabited

namespace Terminal

def Failure.message : Failure → String
  | settings e => e.message
  | connecting address _ => "connecting to " ++ address
  | link e => e.message
  | bus f => f.text
  | output f => f.text

/-- The failures underneath, outermost first. -/
def Failure.causes : Failure → List String
  | connecting _ e => e.message :: (e.source?.map (·.text)).toList
  | link e => (e.source?.map (·.text)).toList
  | _ => []

/-- The outcome of a job that somebody waits for. -/
inductive Handle
  | waiting (k : Worker)
  | settled (o : Outcome)
deriving DecidableEq, Repr, Inhabited

/-- A job of the endpoint ended. -/
def Handle.settle (h : Handle) (k : Worker) (o : Outcome) : Handle :=
  match h with
  | waiting k' => if k' = k then settled o else h
  | settled _ => h

/-- The next thing to do with the adapter before listening. -/
inductive Preparing
  | finding
  | asking (adapter : String)
  | powering (adapter : String)
  | naming (adapter name : String)
  | discovering (adapter : String)
  | pairing (adapter : String)
  | locating (adapter : String)
deriving DecidableEq, Repr, Inhabited

/-- What the main loop is at. -/
inductive Stage
  | connecting (h : Handle)
  | opening
  | preparing (p : Preparing)
  | listening (h : Handle)
  /-- Waiting for the first of several things. -/
  | selecting
  | showing (bytes : Bytes)
  /-- Waiting until typed bytes went out. -/
  | sending (h : Handle)
  | ended (result : Except Failure Unit)

/-- What the reader of the typed bytes is at. -/
inductive Reader
  | off
  | reading
  /-- Holding a chunk for which there is no room. -/
  | offering (chunk : Bytes)
  | done
deriving DecidableEq, Repr, Inhabited

/-- What the main loop waits for, when it waits for the first of several things. -/
inductive Branch
  | event
  | read
  /-- Typed bytes, or their end. -/
  | chunk
  | signal
deriving DecidableEq, Repr, Inhabited

/-- Who runs in the terminal. -/
inductive Actor
  | main
  | reader
  | worker (k : Worker)
deriving DecidableEq, Repr, Inhabited

/-- What an actor waits for. -/
inductive Ask
  | blocked
  | link (a : Rfcomm.Ask)
  | openBus
  | bus (c : Bus.Call)
  /-- For typed bytes, up to a number; none at all mean that there will be no more. -/
  | input (size : Nat)
  | display (bytes : Bytes)
  /-- For nothing: one of these can be taken. -/
  | choose (branches : List Branch)
  | ready

/-- What an actor goes on with. -/
inductive Reply
  | go
  | link (r : Rfcomm.Reply)
  | opened (result : Except Bus.Failure Unit)
  | bus (result : Except Bus.Failure Bus.Answer)
  | input (result : Except Fault Bytes)
  | displayed (result : Except Fault Unit)
  | chosen (b : Branch)

end Terminal

/-- A running terminal. -/
structure Terminal where
  config : Config
  stage : Terminal.Stage
  endpoint : Option Endpoint := none
  /-- The read of the main loop. -/
  read : Option Terminal.Handle := none
  reader : Terminal.Reader := .off
  /-- The chunks that were typed and not taken yet. -/
  chunks : List Bytes := []
  /-- Whether the main loop still looks for chunks. -/
  inputOpen : Bool := true
  /-- Whether an interruption came while the main loop was waiting for one. -/
  interrupted : Bool := false

namespace Terminal

/-- The version that the terminal starts with. -/
def version : String := "0.4.0"

def programName : String := "btserial"

/-- How many chunks are kept for the main loop. -/
def chunkCapacity : Nat := 32

def info (text : String) : Line := ⟨.info, text⟩

def startLine : Line := info ("Starting " ++ programName ++ " v" ++ version ++ "...")

/-- The last line of the log, unless the terminal failed. -/
def stopLine : Line := info (programName ++ " stopped")

end Terminal

end Rfcomm
