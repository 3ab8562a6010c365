import Rfcomm.Error
import Rfcomm.Text.Fields
import Rfcomm.Text.Hex
/-!
Service class identifiers: 128-bit values, of which those inside the Bluetooth base range have a
short form of 16 or 32 bits.
-/
namespace Rfcomm

/-- A 128-bit service class identifier. -/
structure Uuid where
  bits : BitVec 128
deriving DecidableEq, Repr, Inhabited

namespace Uuid

/-- The base value: the short form zero. -/
def base : BitVec 128 := 0x0000000000001000800000805F9B34FB#128

/-- The bits that the short form leaves alone. -/
def baseMask : BitVec 128 := 0x00000000FFFFFFFFFFFFFFFFFFFFFFFF#128

/-- The identifier with the short form `n`. -/
def ofShort (n : Nat) : Uuid := ⟨base ||| (BitVec.ofNat 128 n <<< 96)⟩

/-- The short form, of the values inside the base range. -/
def short? (u : Uuid) : Option Nat :=
  if u.bits &&& baseMask = base then some (u.bits >>> 96).toNat else none

def serialPort : Uuid := ofShort 0x1101

/-- The lengths of the five groups of the long form. -/
def groupLengths : List Nat := [8, 4, 4, 4, 12]

/-- Reads four or eight digits (a short form), or five groups of digits joined by hyphens. -/
def ofChars? (cs : List Char) : Option Uuid :=
  if cs.all Text.isHex && (cs.length == 4 || cs.length == 8) then
    (Text.hexNat? cs).map ofShort
  else
    let groups := Text.fields '-' cs
    if groups.map List.length = groupLengths && groups.all (·.all Text.isHex) then
      (Text.hexNat? groups.flatten).map fun n => ⟨BitVec.ofNat 128 n⟩
    else none

/-- Reads the text of an identifier. A text that is none is quoted in the error. -/
def parse (text : String) : Except Error Uuid :=
  match ofChars? text.toList with
  | some u => .ok u
  | none => .error (.invalidUuid text)

/-- The long form: lower-case digits, hyphens after the groups. -/
def toChars (u : Uuid) : List Char :=
  let ds := Text.lowerHex 32 u.bits.toNat
  Text.join '-' [ds.take 8, (ds.drop 8).take 4, (ds.drop 12).take 4, (ds.drop 16).take 4, ds.drop 20]

def toText (u : Uuid) : String := String.ofList u.toChars

instance : ToString Uuid := ⟨toText⟩

end Uuid

end Rfcomm
