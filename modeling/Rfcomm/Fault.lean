/-!
Faults of the operating system: a kind of failure, reported with a status code, with a text of its
own, or bare.
-/
namespace Rfcomm

/-- The kinds of failure that calls are told apart by. -/
inductive Fault.Kind
  | notFound | permissionDenied | connectionRefused | connectionReset | connectionAborted
  | notConnected | addrInUse | brokenPipe | wouldBlock | invalidInput | invalidData | timedOut
  | writeZero | interrupted | unexpectedEof | other | alreadyExists | isADirectory | notADirectory
  | resourceBusy | tooManyOpenFiles | networkDown | networkUnreachable | hostUnreachable
  | inputOutput | uncategorized
deriving DecidableEq, Repr, Inhabited

/-- A failed call of the operating system. -/
inductive Fault
  | status (code : Nat)
  | bare (kind : Fault.Kind)
  | explained (kind : Fault.Kind) (text : String)
deriving DecidableEq, Repr, Inhabited

namespace Fault

def Kind.text : Kind → String
  | notFound => "entity not found"
  | permissionDenied => "permission denied"
  | connectionRefused => "connection refused"
  | connectionReset => "connection reset"
  | connectionAborted => "connection aborted"
  | notConnected => "not connected"
  | addrInUse => "address in use"
  | brokenPipe => "broken pipe"
  | wouldBlock => "operation would block"
  | invalidInput => "invalid input parameter"
  | invalidData => "invalid data"
  | timedOut => "timed out"
  | writeZero => "write zero"
  | interrupted => "operation interrupted"
  | unexpectedEof => "unexpected end of file"
  | other => "other error"
  | alreadyExists => "entity already exists"
  | isADirectory => "is a directory"
  | notADirectory => "not a directory"
  | resourceBusy => "resource busy"
  | tooManyOpenFiles => "too many open files"
  | networkDown => "network down"
  | networkUnreachable => "network unreachable"
  | hostUnreachable => "host unreachable"
  | inputOutput => "input/output error"
  | uncategorized => "uncategorized error"

/-- Kind and wording of the kernel's status codes. -/
def describe : Nat → Kind × String
  | 1 => (.permissionDenied, "Operation not permitted")
  | 2 => (.notFound, "No such file or directory")
  | 4 => (.interrupted, "Interrupted system call")
  | 5 => (.inputOutput, "Input/output error")
  | 9 => (.uncategorized, "Bad file descriptor")
  | 11 => (.wouldBlock, "Resource temporarily unavailable")
  | 13 => (.permissionDenied, "Permission denied")
  | 16 => (.resourceBusy, "Device or resource busy")
  | 17 => (.alreadyExists, "File exists")
  | 19 => (.uncategorized, "No such device")
  | 20 => (.notADirectory, "Not a directory")
  | 21 => (.isADirectory, "Is a directory")
  | 22 => (.invalidInput, "Invalid argument")
  | 24 => (.tooManyOpenFiles, "Too many open files")
  | 32 => (.brokenPipe, "Broken pipe")
  | 71 => (.uncategorized, "Protocol error")
  | 75 => (.uncategorized, "Value too large for defined data type")
  | 97 => (.uncategorized, "Address family not supported by protocol")
  | 98 => (.addrInUse, "Address already in use")
  | 100 => (.networkDown, "Network is down")
  | 101 => (.networkUnreachable, "Network is unreachable")
  | 103 => (.connectionAborted, "Software caused connection abort")
  | 104 => (.connectionReset, "Connection reset by peer")
  | 107 => (.notConnected, "Transport endpoint is not connected")
  | 108 => (.uncategorized, "Cannot send after transport endpoint shutdown")
  | 110 => (.timedOut, "Connection timed out")
  | 111 => (.connectionRefused, "Connection refused")
  | 112 => (.uncategorized, "Host is down")
  | 113 => (.hostUnreachable, "No route to host")
  | code => (.uncategorized, "Unknown error " ++ toString code)

def kind : Fault → Kind
  | status code => (describe code).1
  | bare k => k
  | explained k _ => k

/-- The status code, when the kernel gave one. -/
def code? : Fault → Option Nat
  | status code => some code
  | _ => none

def text : Fault → String
  | status code => (describe code).2 ++ " (os error " ++ toString code ++ ")"
  | bare k => k.text
  | explained _ t => t

instance : ToString Fault := ⟨text⟩

end Fault

end Rfcomm
