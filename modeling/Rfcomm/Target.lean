import Rfcomm.Address
import Rfcomm.Error
/-! Channels, and where a connection goes: a device and one of its channels. -/
namespace Rfcomm

def maxChannel : Nat := 30

/-- A connection can be carried on the channels 1 to 30. -/
def isChannel (c : UInt8) : Bool := c ≠ 0 && c.toNat ≤ maxChannel

/-- Refuses the numbers that are no channels. -/
def checkChannel (c : UInt8) : Except Error UInt8 :=
  if isChannel c then .ok c else .error (.invalidChannel c)

/-- Where a connection goes: a device and one of its channels. -/
structure Target where
  address : Address
  channel : UInt8
deriving DecidableEq, Repr, Inhabited

namespace Target

/-- Address and channel with a slash between them. -/
def toText (t : Target) : String := t.address.toText ++ "/" ++ toString t.channel.toNat

instance : ToString Target := ⟨toText⟩

/-- The target that an address text and a channel name. A bad address is reported before a bad
channel, with the text as it was given. -/
def parse (address : String) (channel : UInt8) : Except Error Target :=
  match Address.parse? address with
  | none => .error (.invalidAddress address)
  | some a => (checkChannel channel).map fun c => ⟨a, c⟩

end Target

end Rfcomm
