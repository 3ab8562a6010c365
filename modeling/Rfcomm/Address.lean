import Rfcomm.Text.Blank
import Rfcomm.Text.Fields
import Rfcomm.Text.Hex
/-! Device addresses: six octets, written in hexadecimal with colons between them. -/
namespace Rfcomm

/-- The address of a Bluetooth device. -/
structure Address where
  octets : Vector UInt8 6
deriving DecidableEq, Repr, Inhabited

namespace Address

/-- The address that stands for whichever one the local side has. -/
def any : Address := ⟨#v[0, 0, 0, 0, 0, 0]⟩

/-- One field: an optional plus sign, then digits of a value that fits an octet. -/
def octet? (cs : List Char) : Option UInt8 :=
  let digits := match cs with
    | '+' :: ds => ds
    | ds => ds
  (Text.hexNat? digits).bind fun n => if n ≤ 255 then some (UInt8.ofNat n) else none

/-- Reads six fields with colons between them. -/
def ofChars? (cs : List Char) : Option Address :=
  match (Text.fields ':' cs).mapM octet? with
  | some [a, b, c, d, e, f] => some ⟨#v[a, b, c, d, e, f]⟩
  | _ => none

/-- Reads an address, blanks around it ignored. -/
def parse? (text : String) : Option Address := ofChars? (Text.strip text.toList)

/-- Two upper-case digits per octet, colons between them. -/
def toChars (a : Address) : List Char :=
  Text.join ':' (a.octets.toList.map fun o => Text.upperHex 2 o.toNat)

def toText (a : Address) : String := String.ofList a.toChars

instance : ToString Address := ⟨toText⟩

end Address

end Rfcomm
