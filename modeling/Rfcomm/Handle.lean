import Rfcomm.Job
/-!
Handles: sole owners of a stream, or of one half of it. A handle is unset or holds exactly one
stream, and taking the stream out leaves it unset, so no stream is ever closed twice.
-/
namespace Rfcomm

/-- The stream that is held, if any. -/
abbrev Handle := Option StreamId

namespace Handle

def unset : Handle := none

def isSet (h : Handle) : Bool := h.isSome

/-- Holds another stream. The one held before comes out. -/
def replace (h : Handle) (s : StreamId) : Option StreamId × Handle := (h, some s)

def take (h : Handle) : Option StreamId × Handle := (h, unset)

/-- Lets the stream go, and tells whether there was one. -/
def close (h : Handle) : Bool × Handle := (h.isSet, unset)

end Handle

end Rfcomm
