/-! Blank characters (the Unicode property White_Space) and text stripped of them at both ends. -/
namespace Rfcomm.Text

/-- The characters with the property White_Space. -/
def isBlank (c : Char) : Bool :=
  let n := c.toNat
  (9 ≤ n && n ≤ 13) || n == 0x20 || n == 0x85 || n == 0xA0 || n == 0x1680 ||
    (0x2000 ≤ n && n ≤ 0x200A) || n == 0x2028 || n == 0x2029 || n == 0x202F || n == 0x205F ||
    n == 0x3000

def stripEnd (cs : List Char) : List Char :=
  (cs.reverse.dropWhile isBlank).reverse

/-- Text without the blanks at either end; blanks inside stay. -/
def strip (cs : List Char) : List Char :=
  stripEnd (cs.dropWhile isBlank)

end Rfcomm.Text
