import Rfcomm.Advertisement
/-! The service directory of one process: the records that are registered, and two counters. -/
namespace Rfcomm.Memory

/-- The registered records, each under its registration. -/
structure Directory where
  records : List (SessionId × Record) := []
  nextSession : SessionId := 0
  registrations : Nat := 0
  withdrawals : Nat := 0
  rejecting : Bool := false
deriving DecidableEq, Repr, Inhabited

namespace Directory

/-- The reason that a registration fails for. -/
def rejection : String := "registration rejected"

def register (d : Directory) (r : Record) : Except String (SessionId × Directory) :=
  if d.rejecting then .error rejection
  else .ok (d.nextSession,
    { d with
      records := d.records ++ [(d.nextSession, r)]
      nextSession := d.nextSession + 1
      registrations := d.registrations + 1 })

/-- Takes a registration back; nothing happens if it is not there. -/
def withdraw (d : Directory) (s : SessionId) : Directory :=
  if d.records.any (·.1 = s) then
    { d with records := d.records.filter (·.1 ≠ s), withdrawals := d.withdrawals + 1 }
  else d

/-- Makes registrations fail, or work again. -/
def setRejecting (d : Directory) (on : Bool) : Directory := { d with rejecting := on }

/-- Whether a record of this service is registered. -/
def isAdvertised (d : Directory) (u : Uuid) : Bool := d.records.any (·.2.uuid = u)

/-! ## Advertisements -/

/-- Registers the record of an advertisement unless it is registered. -/
def activate (d : Directory) (a : Advertisement) : Except Error (Advertisement × Directory) :=
  if a.isActive then .ok (a, d)
  else match d.register a.record with
    | .ok (s, d) => .ok (a.hold s, d)
    | .error reason => .error (.advertise reason)

/-- Takes back the registration of an advertisement, if it has one. -/
def retire (d : Directory) (a : Advertisement) : Advertisement × Directory :=
  match a.release with
  | (some s, a) => (a, d.withdraw s)
  | (none, a) => (a, d)

end Directory

end Rfcomm.Memory
