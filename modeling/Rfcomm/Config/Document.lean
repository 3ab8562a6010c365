import Rfcomm.Config
import Rfcomm.Toml.Document
import Rfcomm.Toml.Quoted
/-!
Settings as a document: four tables, in which every key may be left out and unknown ones are
ignored. What is written reads back; integers beyond 63 bits cannot be written.
-/
namespace Rfcomm.Config

open Toml (Value Entries)

/-! ## Reading -/

/-- The values of a structure's fields: by name from a table, by position from an array. -/
def fields? (names : List String) : Value → Option (List (Option Value))
  | .table _ es => some (names.map (Entries.get? es))
  | .array vs | .tables vs => some ((List.range names.length).map fun i => vs[i]?)
  | _ => none

/-- A field that may be left out. -/
def orDefault {α : Type} (default : α) (read : Value → Option α) : Option Value → Option α
  | none => some default
  | some v => read v

def text? : Value → Option String
  | .string s => some s
  | _ => none

/-- A number from zero up to a bound. -/
def natural? (bound : Nat) : Value → Option Nat
  | .integer n => if 0 ≤ n ∧ n ≤ bound then some n.toNat else none
  | _ => none

def octet? (v : Value) : Option UInt8 := (natural? 255 v).map UInt8.ofNat

/-- A number of the link's tuning. -/
def number? (v : Value) : Option UInt64 := (natural? 0xFFFFFFFFFFFFFFFF v).map UInt64.ofNat

def isEmpty : Value → Bool
  | .table _ es => es.isEmpty
  | .array vs | .tables vs => vs.isEmpty
  | _ => false

/-- A mode: its name, or a table whose one key is the name and holds nothing. -/
def mode? : Value → Option Mode
  | .string s => Mode.ofName? s
  | .table _ [(k, v)] => if isEmpty v then Mode.ofName? k else none
  | _ => none

def bluetooth? (v : Value) : Option Bluetooth := do
  match ← fields? ["mode", "channel", "adapter_alias"] v with
  | [mode, channel, adapterAlias] => do
    let mode ← orDefault .server mode? mode
    let channel ← orDefault 1 octet? channel
    let adapterAlias ← orDefault none (fun v => (text? v).map some) adapterAlias
    some { mode, channel, adapterAlias }
  | _ => none

def client? (v : Value) : Option Client := do
  match ← fields? ["address"] v with
  | [address] => do
    let address ← orDefault "" text? address
    some { address }
  | _ => none

def server? (v : Value) : Option Server := do
  match ← fields? ["uuid", "service_name"] v with
  | [uuid, serviceName] => do
    let uuid ← orDefault "1101" text? uuid
    let serviceName ← orDefault "" text? serviceName
    some { uuid, serviceName }
  | _ => none

def tuning? (v : Value) : Option Tuning := do
  match ← fields? ["read_buffer_size", "accept_poll_interval_us", "accept_retry_delay_ms",
      "event_buffer"] v with
  | [readBufferSize, poll, retry, eventBuffer] => do
    let d : Tuning := {}
    let readBufferSize ← orDefault d.readBufferSize number? readBufferSize
    let acceptPollInterval ← orDefault d.acceptPollInterval number? poll
    let acceptRetryDelay ← orDefault d.acceptRetryDelay number? retry
    let eventBuffer ← orDefault d.eventBuffer number? eventBuffer
    some { readBufferSize, acceptPollInterval, acceptRetryDelay, eventBuffer }
  | _ => none

/-- The settings in a document's entries. -/
def ofEntries? (es : Entries) : Option Config := do
  let bluetooth ← orDefault {} bluetooth? (es.get? "bluetooth")
  let client ← orDefault {} client? (es.get? "client")
  let server ← orDefault {} server? (es.get? "server")
  let link ← orDefault {} tuning? (es.get? "link")
  some { bluetooth, client, server, link }

/-- Reads a document. -/
def parse? (text : String) : Option Config := (Toml.parse? text).bind ofEntries?

/-! ## Writing -/

def decimal (n : Nat) : List Char := (toString n).toList

/-- A line that gives a key its value. -/
def entry (key : String) (value : List Char) : List Char :=
  key.toList ++ " = ".toList ++ value ++ ['\n']

def textEntry (key text : String) : List Char := entry key (Toml.quote text.toList)

/-- A table: its header and its lines. -/
def tableText (name : String) (lines : List Char) : List Char :=
  '[' :: name.toList ++ "]\n".toList ++ lines

def chars (c : Config) : List Char :=
  tableText "bluetooth"
      (textEntry "mode" c.bluetooth.mode.name ++
        entry "channel" (decimal c.bluetooth.channel.toNat) ++
        (match c.bluetooth.adapterAlias with
          | some a => textEntry "adapter_alias" a
          | none => [])) ++ ['\n'] ++
    tableText "client" (textEntry "address" c.client.address) ++ ['\n'] ++
    tableText "server"
      (textEntry "uuid" c.server.uuid ++ textEntry "service_name" c.server.serviceName) ++ ['\n'] ++
    tableText "link"
      (entry "read_buffer_size" (decimal c.link.readBufferSize.toNat) ++
        entry "accept_poll_interval_us" (decimal c.link.acceptPollInterval.toNat) ++
        entry "accept_retry_delay_ms" (decimal c.link.acceptRetryDelay.toNat) ++
        entry "event_buffer" (decimal c.link.eventBuffer.toNat))

def Tuning.numbers (t : Tuning) : List UInt64 :=
  [t.readBufferSize, t.acceptPollInterval, t.acceptRetryDelay, t.eventBuffer]

/-- The largest number that a document can hold. -/
def largest : Nat := 0x7FFFFFFFFFFFFFFF

/-- The text of the settings, unless one of the numbers is too large. -/
def render (c : Config) : Except String String :=
  if c.link.numbers.all (·.toNat ≤ largest) then .ok (String.ofList c.chars)
  else .error "out-of-range value for u64 type"

end Rfcomm.Config
