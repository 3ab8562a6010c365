import Rfcomm.Call
/-!
Advertisements: a service record and its registration. Both directions can be asked for any number
of times, since an advertisement that is registered is not registered again, and a registration is
taken back only while it is held.
-/
namespace Rfcomm

/-- A service record, with its registration if it has one. -/
structure Advertisement where
  record : Record
  session : Option SessionId := none
deriving DecidableEq, Repr, Inhabited

namespace Advertisement

def isActive (a : Advertisement) : Bool := a.session.isSome

/-- The registration is held from now on. -/
def hold (a : Advertisement) (s : SessionId) : Advertisement := { a with session := some s }

/-- The registration is given out, and no longer held. -/
def release (a : Advertisement) : Option SessionId × Advertisement :=
  (a.session, { a with session := none })

end Advertisement

end Rfcomm
