import Rfcomm.Record.Xml
/-!
The message bus of the host, as far as the terminal uses it: the objects of the adapters, their
properties, and the registration of profiles.
-/
namespace Rfcomm.Bus

/-- The value of a property. -/
inductive Value
  | flag (b : Bool)
  | text (s : String)
deriving DecidableEq, Repr, Inhabited

/-- A call on the bus. -/
inductive Call
  | objects
  | get (adapter property : String)
  | set (adapter property : String) (value : Value)
deriving DecidableEq, Repr, Inhabited

/-- What a call answers. -/
inductive Answer
  | done
  | adapters (names : List String)
  | value (v : Value)
deriving DecidableEq, Repr, Inhabited

/-- A failed call: the name of the failure and what the other side says about it. -/
structure Failure where
  name : String
  message : String
deriving DecidableEq, Repr, Inhabited

/-- The failure of a call on an object that is not there. -/
def Failure.unknownObject : Failure := ⟨"org.freedesktop.DBus.Error.UnknownObject", ""⟩

/-- What kind of failure a name stands for. -/
def kindText (name : String) : String :=
  match name with
  | "org.bluez.Error.AlreadyExists" => "Bluetooth device already exists"
  | "org.bluez.Error.Failed" => "Bluetooth operation failed"
  | "org.bluez.Error.InvalidArguments" => "Invalid arguments for Bluetooth operation"
  | "org.bluez.Error.NotReady" => "Bluetooth device not ready"
  | "org.bluez.Error.NotAuthorized" => "Bluetooth operation not authorized"
  | "org.bluez.Error.NotPermitted" => "Bluetooth operation not permitted"
  | _ => "internal error: D-Bus error " ++ name

def Failure.text (f : Failure) : String :=
  if f.name = Failure.unknownObject.name then "the target object was either not present or removed"
  else if f.message.isEmpty then kindText f.name
  else kindText f.name ++ ": " ++ f.message

/-- What the profile manager is told about a service. -/
structure Profile where
  uuid : Uuid
  name : String
  role : String
  autoConnect : Bool
  requireAuthentication : Bool
  requireAuthorization : Bool
  serviceRecord : String
deriving DecidableEq, Repr, Inhabited

/-- The profile of a service record. The whole record is given, so the channel that is advertised is
the one that was bound. -/
def Profile.ofRecord (r : Record) : Profile where
  uuid := r.uuid
  name := r.name
  role := "server"
  autoConnect := false
  requireAuthentication := false
  requireAuthorization := false
  serviceRecord := r.xml

def adapterPath (adapter : String) : String := "/org/bluez/" ++ adapter

/-- The adapter to use of several: the one called `hci0`, else the first by name. -/
def defaultAdapter? (names : List String) : Option String :=
  let names := names.filter fun n => !n.toList.contains '/'
  if names.contains "hci0" then some "hci0" else (names.mergeSort (· ≤ ·)).head?

end Rfcomm.Bus
